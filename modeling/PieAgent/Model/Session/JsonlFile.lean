import PieAgent.JavaScript.Core.JsonParse
import PieAgent.JavaScript.Core.Utf8
import PieAgent.Model.Session.JsonlStorage

/-! # The session file

A session file holds a header line and one line for each entry. Opening it reads the lines back. When
the last line that is not blank is no entry, the line is dropped and the file is cut back to the lines
before it; any other line that is no entry makes the load fail.
-/

namespace PieAgent.Model

open JavaScript

structure SessionHeader where
  id : JsString
  timestamp : JsString
  cwd : JsString
  parentSession : Option JsString
deriving DecidableEq

/-- The object literal of the header; the version is the constant 3. -/
def SessionHeader.value (header : SessionHeader) : Json :=
  .obj ([(js "type", Json.str (js "session")), (js "version", .num ⟨['3'], rfl⟩), (js "id", .str header.id),
    (js "timestamp", .str header.timestamp), (js "cwd", .str header.cwd)] ++
      optionalField "parentSession" (header.parentSession.map .str))

structure CreateOptions where
  cwd : JsString
  sessionId : JsString
  parentSessionPath : Option JsString := none

/-- The header that `create` writes at a time. -/
def CreateOptions.header (options : CreateOptions) (now : NonemptyText) : SessionHeader where
  id := options.sessionId
  timestamp := now
  cwd := options.cwd
  parentSession := options.parentSessionPath

def invalidSession (filePath message : JsString) : SessionError :=
  ⟨.invalidSession, js "Invalid JSONL session file " ++ filePath ++ js ": " ++ message⟩

def invalidEntry (filePath : JsString) (lineNumber : ℕ) (message : JsString) : SessionError :=
  ⟨.invalidEntry,
    js "Invalid JSONL session file " ++ filePath ++ js ": line " ++ digits lineNumber ++ js " " ++ message⟩

/-- `parseHeaderLine`. The version must have the spelling that `JSON.stringify` gives it. -/
def parseHeaderLine (line : List Char) (filePath : JsString) : Except SessionError SessionHeader :=
  let reject (message : String) := .error (invalidSession filePath (js message))
  match parse? line with
  | none => reject "first line is not a valid session header"
  | some parsed =>
    if !isRecord parsed ∨ textField? parsed "type" ≠ some (js "session") then
      reject "first line is not a valid session header"
    else if parsed.get? (js "version") ≠ some (.num ⟨['3'], rfl⟩) then reject "unsupported session version"
    else
      match nonemptyField? parsed "id", nonemptyField? parsed "timestamp", nonemptyField? parsed "cwd" with
      | none, _, _ => reject "session header is missing id"
      | _, none, _ => reject "session header is missing timestamp"
      | _, _, none => reject "session header is missing cwd"
      | some id, some timestamp, some cwd =>
        match parsed.get? (js "parentSession") with
        | none => .ok { id, timestamp, cwd, parentSession := none }
        | some (.str parentSession) => .ok { id, timestamp, cwd, parentSession := some parentSession }
        | some _ => reject "session header parentSession must be a string"

def parseEntryLine (line : List Char) (filePath : JsString) (lineNumber : ℕ) : Except SessionError StoredEntry :=
  match parse? line with
  | none => .error (invalidEntry filePath lineNumber (js "is not valid JSON"))
  | some value =>
    if accepted : entryProblem value = none then .ok ⟨value, accepted⟩
    else .error (invalidEntry filePath lineNumber (js ((entryProblem value).getD "")))

def sessionRecoveryHint : JsString :=
  js "Run `pie --list-sessions` to see the sessions for this directory, then `pie --resume-id <ID>` to open " ++
    js "the newest one that still loads. Plain `pie` starts a fresh session."

def withRecoveryHint (error : SessionError) : SessionError :=
  { error with message := error.message ++ js "\n" ++ sessionRecoveryHint }

/-- A trailing line that was dropped so that the lines before it could load. -/
structure SalvagedSessionTail where
  filePath : JsString
  sessionId : JsString
  lineNumber : ℕ
  keptEntries : ℕ
  reason : JsString

def formatSalvagedTailNotice (salvage : SalvagedSessionTail) : JsString :=
  let kept := digits salvage.keptEntries ++ js " complete " ++
    (if salvage.keptEntries = 1 then js "entry" else js "entries")
  js "Warning: session " ++ salvage.sessionId ++ js ": discarded a partial final entry (line " ++
    digits salvage.lineNumber ++ js " of " ++ salvage.filePath ++ js ") left by an interrupted write; kept " ++ kept ++
    js " and truncated the file to that healthy prefix."

/-- `line.trim() === ""`. -/
def isBlank (line : List Char) : Bool := trim (ofText line) = []

structure LoadedEntries where
  entries : List StoredEntry
  leafId : Option JsString
  salvagedTail : Option SalvagedSessionTail

/-- The loop over the lines after the header, up to the last one that is not blank. -/
def loadEntries (filePath sessionId : JsString) :
    ℕ → List (List Char) → List StoredEntry → Option JsString → Except SessionError LoadedEntries
  | _, [], entries, leafId => .ok ⟨entries, leafId, none⟩
  | i, line :: rest, entries, leafId =>
    if isBlank line then loadEntries filePath sessionId (i + 1) rest entries leafId
    else
      match parseEntryLine line filePath (i + 1) with
      | .ok entry => loadEntries filePath sessionId (i + 1) rest (entries ++ [entry]) (leafIdAfterEntry entry)
      | .error error =>
        if rest ≠ [] then .error (withRecoveryHint error)
        else .ok ⟨entries, leafId, some
          { filePath, sessionId, lineNumber := i + 1, keptEntries := entries.length, reason := error.message }⟩

structure LoadedSession extends LoadedEntries where
  header : SessionHeader
  repairedContent : Option (List Char)

/-- The index of the last line that is not blank, at least the first one. -/
def lastContentIndex (rawLines : List (List Char)) (firstContentIndex : ℕ) : ℕ :=
  ((List.range' (firstContentIndex + 1) (rawLines.length - (firstContentIndex + 1))).reverse.find? fun i =>
    !isBlank (rawLines.getD i [])).getD firstContentIndex

def loadJsonlStorage (filePath : JsString) (file : Except FileError (List UInt8)) :
    Except SessionError LoadedSession :=
  match file with
  | .error error => .error (error.toSessionError (js "Failed to read session " ++ filePath))
  | .ok bytes =>
    let rawLines := (decodeUtf8 bytes).splitOn '\n'
    match rawLines.findIdx? fun line => !isBlank line with
    | none => .error (withRecoveryHint (invalidSession filePath (js "missing session header")))
    | some first =>
      let last := lastContentIndex rawLines first
      match parseHeaderLine (rawLines.getD first []) filePath with
      | .error error => .error (withRecoveryHint error)
      | .ok header =>
        match loadEntries filePath header.id (first + 1) ((rawLines.take (last + 1)).drop (first + 1)) [] none with
        | .error error => .error error
        | .ok loaded =>
          .ok { loaded with
            header
            repairedContent :=
              if loaded.salvagedTail.isSome then some (['\n'].intercalate (rawLines.take last) ++ ['\n']) else none }

/-- An entry as its type in the source has it: a value of the language, and a label with text fields. -/
structure StoredEntry.Typed (entry : StoredEntry) : Prop where
  ordinary : entry.value.ordinary = true
  target : entry.type = js "label" → (textField? entry.value "targetId").isSome
  label : entry.type = js "label" → entry.value.get? (js "label") = none ∨ (textField? entry.value "label").isSome

/-- A storage and the bytes of its file. -/
structure SessionFile where
  file : List UInt8
  storage : JsonlSessionStorage
deriving DecidableEq

section Leaf

variable (id : NonemptyText) (parentId : Option JsString) (timestamp : NonemptyText) (targetId : Option JsString)

/-- The object literal of the entry that moves the leaf. -/
def leafValue : Json :=
  .obj [(js "type", .str (js "leaf")), (js "id", .str id), (js "parentId", parentId.elim .null .str),
    (js "timestamp", .str timestamp), (js "targetId", targetId.elim .null .str)]

private theorem id_leafValue : nonemptyField? (leafValue id parentId timestamp targetId) "id" = some id.val :=
  Option.filter_eq_some_iff.mpr ⟨rfl, by simpa using id.property⟩

private theorem timestamp_leafValue :
    nonemptyField? (leafValue id parentId timestamp targetId) "timestamp" = some timestamp.val :=
  Option.filter_eq_some_iff.mpr ⟨rfl, by simpa using timestamp.property⟩

private theorem parentId_leafValue :
    nullableField? (leafValue id parentId timestamp targetId) "parentId" = some parentId := by
  cases parentId <;> rfl

private theorem targetId_leafValue :
    nullableField? (leafValue id parentId timestamp targetId) "targetId" = some targetId := by
  cases targetId <;> rfl

theorem entryProblem_leafValue : entryProblem (leafValue id parentId timestamp targetId) = none := by
  have known : isRecord (leafValue id parentId timestamp targetId) = true := rfl
  have type : textField? (leafValue id parentId timestamp targetId) "type" = some (js "leaf") := rfl
  simp [entryProblem, known, type, id_leafValue, parentId_leafValue, timestamp_leafValue, targetId_leafValue]

def leafEntry : StoredEntry :=
  ⟨leafValue id parentId timestamp targetId, entryProblem_leafValue id parentId timestamp targetId⟩

@[simp] theorem type_leafEntry : (leafEntry id parentId timestamp targetId).type = js "leaf" := rfl

@[simp] theorem leafIdAfterEntry_leafEntry : leafIdAfterEntry (leafEntry id parentId timestamp targetId) = targetId := by
  rw [leafIdAfterEntry, type_leafEntry, if_pos rfl, StoredEntry.targetId, leafEntry, targetId_leafValue]
  rfl

end Leaf

/-- What a method of the storage throws. -/
inductive StorageFailure where
  | session (error : SessionError)
  | typeError (message : JsString)
deriving DecidableEq

/-- The constructor of `JsonlSessionStorage`. -/
def constructStorage (entries : List StoredEntry) (leafId : Option JsString) :
    Except StorageFailure JsonlSessionStorage :=
  match buildLabelsById entries with
  | .error message => .error (.typeError message)
  | .ok labelsById => .ok ⟨entries, labelsById, leafId⟩

/-- The line of a value in the file. -/
def encodeLine (value : Json) : List UInt8 := encodeUtf8 (stringify value ++ ['\n'])

namespace SessionFile

/-- An opened session, and the notice about a salvaged tail. -/
structure Opened extends SessionFile where
  notice : Option JsString

/-- `JsonlSessionStorage.open`. The second file outcome is the one of the repair. -/
def openSession (filePath : JsString) (file : Except FileError (List UInt8)) (repair : Except FileError Unit) :
    Except StorageFailure Opened :=
  match loadJsonlStorage filePath file with
  | .error error => .error (.session error)
  | .ok loaded =>
    match loaded.salvagedTail, loaded.repairedContent with
    | some salvage, some content =>
      match repair with
      | .error error =>
        .error (.session (error.toSessionError
          (js "Failed to repair session " ++ filePath ++ js " after dropping its partial final entry")))
      | .ok () => (constructStorage loaded.entries loaded.leafId).map fun storage =>
        { file := encodeUtf8 content, storage, notice := some (formatSalvagedTailNotice salvage ++ js "\n") }
    | _, _ => (constructStorage loaded.entries loaded.leafId).map fun storage =>
      { file := file.toOption.getD [], storage, notice := none }

/-- `JsonlSessionStorage.create`. -/
def create (filePath : JsString) (options : CreateOptions) (now : NonemptyText) (write : Except FileError Unit) :
    Except StorageFailure SessionFile :=
  match write with
  | .error error => .error (.session (error.toSessionError (js "Failed to create session " ++ filePath)))
  | .ok () => .ok ⟨encodeLine (options.header now).value, .empty⟩

/-- `appendEntry`. -/
def appendEntry (session : SessionFile) (entry : StoredEntry) (write : Except FileError Unit) :
    SessionFile × Except StorageFailure Unit :=
  match write with
  | .error error =>
    (session, .error (.session (error.toSessionError (js "Failed to append session entry " ++ entry.id))))
  | .ok () =>
    (⟨session.file ++ encodeLine entry.value, (session.storage.push entry).1⟩,
      (session.storage.push entry).2.mapError .typeError)

/-- Appends in sequence, each awaited. The first throw ends them. -/
def appendAll : SessionFile → List StoredEntry → Except StorageFailure SessionFile
  | session, [] => .ok session
  | session, entry :: rest =>
    match session.appendEntry entry (.ok ()) with
    | (_, .error failure) => .error failure
    | (session, .ok ()) => appendAll session rest

/-- `setLeafId`, with the id and the time of its entry. -/
def setLeafId (session : SessionFile) (leafId : Option JsString) (id timestamp : NonemptyText)
    (write : Except FileError Unit) : SessionFile × Except StorageFailure Unit :=
  match leafId.filter fun leafId => (session.storage.byId leafId).isNone with
  | some unknown => (session, .error (.session ⟨.notFound, js "Entry " ++ unknown ++ js " not found"⟩))
  | none =>
    let entry := leafEntry id session.storage.currentLeafId timestamp leafId
    match write with
    | .error error =>
      (session, .error (.session (error.toSessionError (js "Failed to append session leaf " ++ entry.id))))
    | .ok () =>
      (⟨session.file ++ encodeLine entry.value,
        { session.storage with entries := session.storage.entries ++ [entry], currentLeafId := leafId }⟩, .ok ())

/-- The file after a crash during `appendEntry`: the first bytes of the line have been written. -/
def interruptedAppend (session : SessionFile) (entry : StoredEntry) (written : ℕ) : List UInt8 :=
  session.file ++ (encodeLine entry.value).take written

end SessionFile

/-- A change of a storage, with the outcome of its file write. -/
inductive StorageOperation where
  | appendEntry (entry : StoredEntry) (write : Except FileError Unit)
  | setLeafId (leafId : Option JsString) (id timestamp : NonemptyText) (write : Except FileError Unit)

/-- A session after an operation, which may throw. -/
def SessionFile.perform (session : SessionFile) : StorageOperation → SessionFile
  | .appendEntry entry write => (session.appendEntry entry write).1
  | .setLeafId leafId id timestamp write => (session.setLeafId leafId id timestamp write).1

def SessionFile.performAll (session : SessionFile) (operations : List StorageOperation) : SessionFile :=
  operations.foldl SessionFile.perform session

end PieAgent.Model
