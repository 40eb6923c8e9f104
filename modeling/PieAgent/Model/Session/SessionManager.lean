import PieAgent.JavaScript.Core.Maps
import PieAgent.Model.Session.Transcript

/-! # The session manager of the coding agent

A manager holds the header and the entries of one session, the labels and the current leaf, and keeps them in
a file when it persists. Entries wait in memory until the session has a message of the assistant; then the
whole file is written, and from then on every entry is appended. The ids, the times and the fate of a write
are arguments of the operations.
-/

namespace PieAgent.Model.Transcript

open JavaScript

/-- The fate of a write: it throws before the file is opened, or after some bytes, or it completes. -/
inductive WriteOutcome where
  | completed
  | failed (written : Option ℕ)
deriving DecidableEq

inductive ManagerError where
  | notFound (id : JsString)
  | invalidEntry (error : InvalidEntry)
  | writeFailed
  | noReturn

/-- The text of a `notFound` error. -/
def notFoundMessage (id : JsString) : JsString := js "Entry " ++ id ++ js " not found"

/-- The files by their path. -/
abbrev Files := JsMap JsString (List UInt8)

/-- `writeFileSync`, which empties the file when it opens it. -/
def writeFile (files : Files) (path : JsString) (content : List UInt8) : WriteOutcome → Files × Except ManagerError Unit
  | .completed => (files.set path content, .ok ())
  | .failed none => (files, .error .writeFailed)
  | .failed (some written) => (files.set path (content.take written), .error .writeFailed)

/-- `appendFileSync`. -/
def appendFile (files : Files) (path : JsString) (content : List UInt8) : WriteOutcome → Files × Except ManagerError Unit
  | .completed => (files.set path ((files.get? path).getD [] ++ content), .ok ())
  | .failed none => (files, .error .writeFailed)
  | .failed (some written) => (files.set path ((files.get? path).getD [] ++ content.take written), .error .writeFailed)

structure SessionManager where
  sessionId : JsString
  sessionFile : Option JsString
  sessionDir : JsString
  cwd : JsString
  persist : Bool
  flushed : Bool
  header : SessionHeader
  entries : List Json
  labelsById : JsMap JsString JsString
  labelTimestampsById : JsMap JsString (Option Json)
  leafId : Option JsString

structure NewSessionOptions where
  id : Option JsString := none
  parentSession : Option JsString := none

section Literals

/-- The fields that every entry has. -/
def baseFields (id : JsString) (parentId : Option JsString) (timestamp : JsString) : List (String × Option Json) :=
  [("id", some (.str id)), ("parentId", some (parentId.elim .null .str)), ("timestamp", some (.str timestamp))]

/-- What the append methods take, but for the label. -/
inductive Content where
  | message (message : Json)
  | thinkingLevelChange (thinkingLevel : JsString)
  | modelChange (provider modelId : JsString)
  | compaction (summary firstKeptEntryId : JsString) (tokensBefore : NumberLiteral) (details : Option Json)
      (fromHook : Option Bool)
  | custom (customType : JsString) (data : Option Json)
  | sessionInfo (name : JsString)
  | customMessage (customType : JsString) (content : Json) (display : Bool) (details : Option Json)

variable (id : JsString) (parentId : Option JsString) (timestamp : JsString)

/-- The object literal of an entry. -/
def Content.entry : Content → Json
  | .message value =>
    .obj (fields (("type", some (.str (js "message"))) :: baseFields id parentId timestamp ++
      [("message", some value)]))
  | .thinkingLevelChange thinkingLevel =>
    .obj (fields (("type", some (.str (js "thinking_level_change"))) :: baseFields id parentId timestamp ++
      [("thinkingLevel", some (.str thinkingLevel))]))
  | .modelChange provider modelId =>
    .obj (fields (("type", some (.str (js "model_change"))) :: baseFields id parentId timestamp ++
      [("provider", some (.str provider)), ("modelId", some (.str modelId))]))
  | .compaction summary firstKeptEntryId tokensBefore details fromHook =>
    .obj (fields (("type", some (.str (js "compaction"))) :: baseFields id parentId timestamp ++
      [("summary", some (.str summary)), ("firstKeptEntryId", some (.str firstKeptEntryId)),
        ("tokensBefore", some (.num tokensBefore)), ("details", details), ("fromHook", fromHook.map .bool)]))
  | .custom customType data =>
    .obj (fields ([("type", some (.str (js "custom"))), ("customType", some (.str customType)), ("data", data)] ++
      baseFields id parentId timestamp))
  | .sessionInfo name =>
    .obj (fields (("type", some (.str (js "session_info"))) :: baseFields id parentId timestamp ++
      [("name", some (.str (trim name)))]))
  | .customMessage customType content display details =>
    .obj (fields ([("type", some (.str (js "custom_message"))), ("customType", some (.str customType)),
      ("content", some content), ("display", some (.bool display)), ("details", details)] ++
        baseFields id parentId timestamp))

def labelEntry (timestamp : Option Json) (targetId : JsString) (label : Option JsString) : Json :=
  .obj (fields [("type", some (.str (js "label"))), ("id", some (.str id)),
    ("parentId", some (parentId.elim .null .str)), ("timestamp", timestamp), ("targetId", some (.str targetId)),
    ("label", label.map .str)])

def branchSummaryEntry (summary : JsString) (details : Option Json) (fromHook : Option Bool) : Json :=
  .obj (fields (("type", some (.str (js "branch_summary"))) :: baseFields id parentId timestamp ++
    [("fromId", some (.str (parentId.getD (js "root")))), ("summary", some (.str summary)), ("details", details),
      ("fromHook", fromHook.map .bool)]))

end Literals

/-- `join(dir, sessionFileName(id))`. -/
def sessionPath (sessionDir sessionId : JsString) : JsString := sessionDir ++ js "/" ++ sessionId ++ js ".jsonl"

/-- `serializeFileEntry` on every entry, joined. -/
def fileContent (header : SessionHeader) (entries : List Json) (path : JsString) : List UInt8 :=
  encodeUtf8 (['\n'].intercalate ((serializeSessionHeader header path :: entries).map stringify) ++ ['\n'])

namespace SessionManager

variable (manager : SessionManager)

/-- The change of the label maps for a label entry. An empty label deletes. -/
def applyLabel (targetId : JsString) (label : Option JsString) (timestamp : Option Json) : SessionManager :=
  match label.filter (· ≠ []) with
  | some label =>
    { manager with
      labelsById := manager.labelsById.set targetId label
      labelTimestampsById := manager.labelTimestampsById.set targetId timestamp }
  | none =>
    { manager with
      labelsById := manager.labelsById.delete targetId
      labelTimestampsById := manager.labelTimestampsById.delete targetId }

/-- One round of `_buildIndex`. -/
def indexEntry (entry : Json) : SessionManager :=
  let moved := { manager with leafId := some (entryId entry) }
  if isLabel entry then
    moved.applyLabel ((textField? entry "targetId").getD []) (textField? entry "label") (entry.get? (js "timestamp"))
  else moved

/-- `_buildIndex`. -/
def buildIndex : SessionManager :=
  manager.entries.foldl indexEntry { manager with labelsById := .empty, labelTimestampsById := .empty, leafId := none }

/-- A header that the manager mints. -/
def mintHeader (id timestamp : JsString) (parentSession : Option JsString) : SessionHeader where
  version := some currentSessionVersion
  id
  timestamp := some (.str timestamp)
  cwd := some (.str manager.cwd)
  parentSession := parentSession.map .str
  importedFrom := none

/-- `_resetToNewSession`, which keeps the times of the labels. -/
def resetToNewSession (options : NewSessionOptions) (newId timestamp : JsString) : SessionManager :=
  let sessionId := options.id.getD newId
  { manager with
    sessionId
    header := manager.mintHeader sessionId timestamp options.parentSession
    entries := []
    labelsById := .empty
    leafId := none
    flushed := false }

def hasAssistant : Bool := manager.entries.any isAssistant

/-- `getBranch`; it yields nothing when the walk does not return. -/
def getBranch (fromId : JsString) : Option (List Json) :=
  pathTo? manager.entries (((some fromId).filter (· ≠ [])).bind (byId manager.entries))

def buildSessionContext : Option SessionContext := Transcript.buildSessionContext manager.entries manager.leafId

/-- The labels of the entries with the given ids, in the order of their map. -/
def labelsToWrite (pathEntryIds : List JsString) : List (JsString × JsString) :=
  manager.labelsById.entries.filter fun label => label.1 ∈ pathEntryIds

/-- The label entries of `createBranchedSession`, each below the one before. -/
def labelEntries (ids : ℕ → JsString) : ℕ → Option JsString → List (JsString × JsString) → List Json
  | _, _, [] => []
  | i, parentId, (targetId, label) :: rest =>
    labelEntry (ids i) parentId (manager.labelTimestampsById.get? targetId).join targetId (some label) ::
      labelEntries ids (i + 1) (some (ids i)) rest

/-- The entries of the session that `createBranchedSession` makes of a path. -/
def branchedEntries (path : List Json) (labelIds : ℕ → JsString) : List Json :=
  let pathWithoutLabels := path.filter fun entry => !isLabel entry
  pathWithoutLabels ++ manager.labelEntries labelIds 0
    ((pathWithoutLabels.getLast?.map entryId).filter (· ≠ [])) (manager.labelsToWrite (pathWithoutLabels.map entryId))

end SessionManager

/-- A manager and the files. -/
structure Workspace where
  manager : SessionManager
  files : Files

namespace Workspace

variable (workspace : Workspace)

/-- `_rewriteFile`. -/
def rewriteFile (write : WriteOutcome) : Workspace × Except ManagerError Unit :=
  match workspace.manager.persist, workspace.manager.sessionFile with
  | true, some path =>
    let (files, result) :=
      writeFile workspace.files path (fileContent workspace.manager.header workspace.manager.entries path) write
    ({ workspace with files }, result)
  | _, _ => (workspace, .ok ())

def setFlushed (flushed : Bool) : Workspace := { workspace with manager := { workspace.manager with flushed } }

/-- `_persist`. -/
def persist (entry : Json) (write : WriteOutcome) : Workspace × Except ManagerError Unit :=
  match workspace.manager.persist, workspace.manager.sessionFile with
  | true, some path =>
    if !workspace.manager.hasAssistant then (workspace.setFlushed false, .ok ())
    else if !workspace.manager.flushed then
      match workspace.rewriteFile write with
      | (written, .ok ()) => (written.setFlushed true, .ok ())
      | (written, .error error) => (written, .error error)
    else
      let (files, result) := appendFile workspace.files path (encodeUtf8 (stringify entry ++ ['\n'])) write
      ({ workspace with files }, result)
  | _, _ => (workspace, .ok ())

/-- `_appendEntry`. -/
def appendEntry (entry : Json) (write : WriteOutcome) : Workspace × Except ManagerError Unit :=
  persist { workspace with manager :=
    { workspace.manager with entries := workspace.manager.entries ++ [entry], leafId := some (entryId entry) } }
    entry write

/-- `appendMessage` and its siblings. -/
def append (content : Content) (id timestamp : JsString) (write : WriteOutcome) : Workspace × Except ManagerError JsString :=
  let (appended, result) := workspace.appendEntry (content.entry id workspace.manager.leafId timestamp) write
  (appended, result.map fun _ => id)

def appendLabelChange (targetId : JsString) (label : Option JsString) (id timestamp : JsString)
    (write : WriteOutcome) : Workspace × Except ManagerError JsString :=
  if (byId workspace.manager.entries targetId).isNone then (workspace, .error (.notFound targetId))
  else
    match workspace.appendEntry (labelEntry id workspace.manager.leafId (some (.str timestamp)) targetId label) write with
    | (appended, .error error) => (appended, .error error)
    | (appended, .ok ()) =>
      ({ appended with manager := appended.manager.applyLabel targetId label (some (.str timestamp)) }, .ok id)

def branch (branchFromId : JsString) : Workspace × Except ManagerError Unit :=
  if (byId workspace.manager.entries branchFromId).isNone then (workspace, .error (.notFound branchFromId))
  else ({ workspace with manager := { workspace.manager with leafId := some branchFromId } }, .ok ())

def resetLeaf : Workspace := { workspace with manager := { workspace.manager with leafId := none } }

def branchWithSummary (branchFromId : Option JsString) (summary : JsString) (details : Option Json)
    (fromHook : Option Bool) (id timestamp : JsString) (write : WriteOutcome) :
    Workspace × Except ManagerError JsString :=
  match branchFromId.filter fun branchFromId => (byId workspace.manager.entries branchFromId).isNone with
  | some unknown => (workspace, .error (.notFound unknown))
  | none =>
    let moved := { workspace with manager := { workspace.manager with leafId := branchFromId } }
    let (appended, result) :=
      moved.appendEntry (branchSummaryEntry id branchFromId timestamp summary details fromHook) write
    (appended, result.map fun _ => id)

/-- `newSession`, whose write completes. -/
def newSession (options : NewSessionOptions) (newId timestamp : JsString) : Workspace :=
  let manager := workspace.manager.resetToNewSession options newId timestamp
  if manager.persist then
    (rewriteFile { workspace with manager :=
      { manager with sessionFile := some (sessionPath manager.sessionDir manager.sessionId) } } .completed).1
  else { workspace with manager }

/-- `setSessionFile` with a resolved path, whose write completes. The ids are those of a migration. -/
def setSessionFile (sessionFile : JsString) (newId timestamp : JsString) (ids : ℕ → JsString) :
    Workspace × Except ManagerError Unit :=
  let switched := { workspace with manager := { workspace.manager with sessionFile := some sessionFile } }
  let fresh := (rewriteFile { switched with manager := switched.manager.resetToNewSession {} newId timestamp } .completed).1
  match workspace.files.get? sessionFile with
  | none => (fresh, .ok ())
  | some content =>
    match loadEntriesFromFile sessionFile content with
    | .error error => (switched, .error (.invalidEntry error))
    | .ok none => (fresh.setFlushed true, .ok ())
    | .ok (some loaded) =>
      let migrated := migrateToCurrentVersion ids loaded.header loaded.entries
      let opened := { switched with manager :=
        { switched.manager with
          sessionId := loaded.header.id, header := migrated.header, entries := migrated.entries } }
      let repaired :=
        if migrated.applied ∨ loaded.salvagedLine.isSome then (opened.rewriteFile .completed).1 else opened
      ({ repaired with manager := { repaired.manager.buildIndex with flushed := true } }, .ok ())

/-- `createBranchedSession`, whose write completes. -/
def createBranchedSession (leafId : JsString) (newSessionId timestamp : JsString) (labelIds : ℕ → JsString) :
    Workspace × Except ManagerError Unit :=
  match workspace.manager.getBranch leafId with
  | none => (workspace, .error .noReturn)
  | some [] => (workspace, .error (.notFound leafId))
  | some path =>
    let manager := workspace.manager
    let parentSession := if manager.persist then manager.sessionFile else none
    let branched : SessionManager :=
      { manager with
        header := manager.mintHeader newSessionId timestamp parentSession
        entries := manager.branchedEntries path labelIds
        sessionId := newSessionId }
    if manager.persist then
      let moved : Workspace := { workspace with manager :=
        { branched with sessionFile := some (sessionPath manager.sessionDir newSessionId) }.buildIndex }
      if branched.hasAssistant then ((moved.rewriteFile .completed).1.setFlushed true, .ok ())
      else (moved.setFlushed false, .ok ())
    else ({ workspace with manager := branched.buildIndex }, .ok ())

end Workspace

/-- The operations on a manager. -/
inductive Operation where
  | newSession (options : NewSessionOptions) (newId timestamp : JsString)
  | append (content : Content) (id timestamp : JsString) (write : WriteOutcome)
  | appendLabelChange (targetId : JsString) (label : Option JsString) (id timestamp : JsString) (write : WriteOutcome)
  | branch (branchFromId : JsString)
  | resetLeaf
  | branchWithSummary (branchFromId : Option JsString) (summary : JsString) (details : Option Json)
      (fromHook : Option Bool) (id timestamp : JsString) (write : WriteOutcome)
  | createBranchedSession (leafId newSessionId timestamp : JsString) (labelIds : ℕ → JsString)
  | setSessionFile (sessionFile newId timestamp : JsString) (ids : ℕ → JsString)

/-- A workspace after an operation, which may throw. -/
def Workspace.perform (workspace : Workspace) : Operation → Workspace
  | .newSession options newId timestamp => workspace.newSession options newId timestamp
  | .append content id timestamp write => (workspace.append content id timestamp write).1
  | .appendLabelChange targetId label id timestamp write =>
    (workspace.appendLabelChange targetId label id timestamp write).1
  | .branch branchFromId => (workspace.branch branchFromId).1
  | .resetLeaf => workspace.resetLeaf
  | .branchWithSummary branchFromId summary details fromHook id timestamp write =>
    (workspace.branchWithSummary branchFromId summary details fromHook id timestamp write).1
  | .createBranchedSession leafId newSessionId timestamp labelIds =>
    (workspace.createBranchedSession leafId newSessionId timestamp labelIds).1
  | .setSessionFile sessionFile newId timestamp ids => (workspace.setSessionFile sessionFile newId timestamp ids).1

/-- The fields of a manager before its first session. -/
def SessionManager.blank (cwd sessionDir : JsString) (persist : Bool) : SessionManager where
  sessionId := []
  sessionFile := none
  sessionDir
  cwd
  persist
  flushed := false
  header := ⟨none, [], none, none, none, none⟩
  entries := []
  labelsById := .empty
  labelTimestampsById := .empty
  leafId := none

/-- The constructor without a session file. -/
def Workspace.construct (files : Files) (cwd sessionDir : JsString) (persist : Bool) (newId timestamp : JsString) :
    Workspace :=
  newSession { manager := .blank cwd sessionDir persist, files } {} newId timestamp

/-- The constructor with a session file. -/
def Workspace.openFile (files : Files) (cwd sessionDir : JsString) (persist : Bool) (sessionFile newId timestamp : JsString)
    (ids : ℕ → JsString) : Workspace × Except ManagerError Unit :=
  setSessionFile { manager := .blank cwd sessionDir persist, files } sessionFile newId timestamp ids

/-- `open`, given the directories that it derives from the path and the header. -/
def Workspace.openSession (files : Files) (cwd sessionDir path newId timestamp : JsString) (ids : ℕ → JsString) :
    Except ManagerError Workspace :=
  match Workspace.openFile files cwd sessionDir true path newId timestamp ids with
  | (opened, .ok ()) => .ok opened
  | (_, .error error) => .error error

inductive ForkError where
  | emptySource (sourcePath : JsString)
  | manager (error : ManagerError)

/-- The text of an `emptySource` error. -/
def emptySourceMessage (sourcePath : JsString) : JsString :=
  js "Cannot fork: source session file is empty or invalid: " ++ sourcePath

/-- The header that `forkFrom` writes. -/
def forkHeader (sourcePath targetCwd newSessionId timestamp : JsString) : SessionHeader where
  version := some currentSessionVersion
  id := newSessionId
  timestamp := some (.str timestamp)
  cwd := some (.str targetCwd)
  parentSession := some (.str sourcePath)
  importedFrom := none

/-- Appends of values to a file, each on a line of its own. -/
def appendValues (files : Files) (path : JsString) (values : List Json) : Files :=
  values.foldl (fun files value => (appendFile files path (encodeUtf8 (stringify value ++ ['\n'])) .completed).1) files

/-- `forkFrom` into a directory. The last two ids and the time are those of opening the new file. -/
def Workspace.forkFrom (files : Files) (sourcePath targetCwd dir newSessionId timestamp newId : JsString)
    (ids : ℕ → JsString) : Except ForkError Workspace :=
  match files.get? sourcePath with
  | none => .error (.emptySource sourcePath)
  | some content =>
    match loadEntriesFromFile sourcePath content with
    | .error error => .error (.manager (.invalidEntry error))
    | .ok none => .error (.emptySource sourcePath)
    | .ok (some source) =>
      let path := sessionPath dir newSessionId
      let header := serializeSessionHeader (forkHeader sourcePath targetCwd newSessionId timestamp) path
      (Workspace.openSession (appendValues files path (header :: source.entries)) targetCwd dir path newId timestamp
        ids).mapError .manager

end PieAgent.Model.Transcript
