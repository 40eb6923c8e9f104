import PieAgent.Model.Session.JsonlFile

/-! # Transcripts of the coding agent

A transcript is a header and the entries of a session tree. The coding agent reads the header in the shape
that it writes and in an older one, brings old entries up to date, and takes every entry as the object that
its line holds. An id that an old entry lacks reads as the empty string: both are false where the code tests
ids for truth.
-/

namespace PieAgent.Model.Transcript

open JavaScript

/-- The object literal of some fields; a field whose value is `undefined` is not serialized. -/
def fields (members : List (String × Option Json)) : List (JsString × Json) :=
  members.flatMap fun member => optionalField member.1 member.2

/-- An assignment to a property of an object. -/
def setField (entry : Json) (key : String) (value : Json) : Json :=
  match entry with
  | .obj members => .obj (setMember members (js key, value))
  | other => other

/-- The deletion of a property of an object. -/
def deleteField (entry : Json) (key : String) : Json :=
  match entry with
  | .obj members => .obj (members.filter fun member => member.1 ≠ js key)
  | other => other

/-- The number of a literal that is written as a natural number. -/
def natural? : Json → Option ℕ
  | .num literal =>
    if literal.val.all isDigit then some (literal.val.foldl (fun value c => value * 10 + (c.toNat - 48)) 0) else none
  | _ => none

private theorem scanNumber?_three : scanNumber? ['3'] = some (['3'], []) := rfl

def currentSessionVersion : Json := .num ⟨['3'], scanNumber?_three⟩

structure SessionHeader where
  version : Option Json
  id : JsString
  timestamp : Option Json
  cwd : Option Json
  parentSession : Option Json
  importedFrom : Option Json
deriving DecidableEq

/-- The wire shape of a header. -/
def serializeSessionHeader (header : SessionHeader) (path : JsString) : Json :=
  .obj (fields [("id", some (.str header.id)), ("createdAt", header.timestamp), ("cwd", header.cwd),
    ("path", some (.str path)), ("parentSessionPath", header.parentSession), ("importedFrom", header.importedFrom)])

def parseSessionHeader (raw : Json) : Option SessionHeader :=
  (nonemptyField? raw "id").bind fun id =>
    if textField? raw "type" = some (js "session") then
      some { version := raw.get? (js "version"), id, timestamp := raw.get? (js "timestamp"), cwd := raw.get? (js "cwd"),
             parentSession := raw.get? (js "parentSession"), importedFrom := raw.get? (js "importedFrom") }
    else
      match textField? raw "createdAt", textField? raw "cwd" with
      | some createdAt, some cwd =>
        some { version := some currentSessionVersion, id, timestamp := some (.str createdAt), cwd := some (.str cwd),
               parentSession := (textField? raw "parentSessionPath").map .str,
               importedFrom := raw.get? (js "importedFrom") }
      | _, _ => none

def parseSessionHeaderLine (line : List Char) : Option SessionHeader := (parse? line).bind parseSessionHeader

section Entries

variable (entry : Json)

def entryType : JsString := (textField? entry "type").getD []

def entryId : JsString := (textField? entry "id").getD []

/-- The parent of an entry; `null` and the empty string are none. -/
def parentId : Option JsString := nonemptyField? entry "parentId"

/-- `entry.message[key]`. -/
def messageField? (key : String) : Option Json := (entry.get? (js "message")).bind fun message => message.get? (js key)

def isLabel : Bool := entryType entry = js "label"

def isCompaction : Bool := entryType entry = js "compaction"

/-- A message of the assistant. -/
def isAssistant : Bool := entryType entry = js "message" && messageField? entry "role" == some (.str (js "assistant"))

end Entries

/-- `byId.get(id)`; a later entry replaces an earlier one. -/
def byId (entries : List Json) (id : JsString) : Option Json := Forest.find? entryId entries id

section Migrations

/-- The entry at an index of a version 1 file, with its new id and the one before it. -/
def linkEntry (ids : ℕ → JsString) (entries : List Json) (i : ℕ) (entry : Json) : Json :=
  let linked := setField (setField entry "id" (.str (ids i))) "parentId" (if i = 0 then .null else .str (ids (i - 1)))
  match isCompaction entry, entry.get? (js "firstKeptEntryIndex") with
  | true, some (.num literal) =>
    let kept := match natural? (.num literal) with
      | some (target + 1) =>
        if target ≤ i then setField linked "firstKeptEntryId" (.str (ids target))
        else match (entries[target]?).map (textField? · "id") with
          | some (some id) => setField linked "firstKeptEntryId" (.str id)
          | some none => deleteField linked "firstKeptEntryId"
          | none => linked
      | _ => linked
    deleteField kept "firstKeptEntryIndex"
  | _, _ => linked

/-- Migrate v1 → v2: add id and parentId. -/
def migrateV1ToV2 (ids : ℕ → JsString) (entries : List Json) : List Json := entries.mapIdx (linkEntry ids entries)

/-- The renaming of the role in one entry. -/
def renameRole (entry : Json) : Json :=
  match entry.get? (js "message") with
  | some message =>
    if entryType entry = js "message" ∧ message.get? (js "role") = some (.str (js "hookMessage")) then
      setField entry "message" (setField message "role" (.str (js "custom")))
    else entry
  | none => entry

/-- Migrate v2 → v3: rename the hookMessage role to custom. -/
def migrateV2ToV3 (entries : List Json) : List Json := entries.map renameRole

/-- `header.version ?? 1`. A version that is not written as a natural number is below and above none. -/
def versionNumber? (header : SessionHeader) : Option ℕ :=
  match header.version with
  | none | some .null => some 1
  | some version => natural? version

structure Migrated where
  header : SessionHeader
  entries : List Json
  applied : Bool

def migrateToCurrentVersion (ids : ℕ → JsString) (header : SessionHeader) (entries : List Json) : Migrated :=
  match versionNumber? header with
  | none => ⟨header, entries, true⟩
  | some version =>
    if 3 ≤ version then ⟨header, entries, false⟩
    else
      let linked := if version < 2 then migrateV1ToV2 ids entries else entries
      ⟨{ header with version := some currentSessionVersion }, migrateV2ToV3 linked, true⟩

end Migrations

section Load

/-- A line before the last one that is no JSON. -/
structure InvalidEntry where
  filePath : JsString
  lineNumber : ℕ
deriving DecidableEq

/-- The text of the error, given what the parser says about the line. -/
def InvalidEntry.message (error : InvalidEntry) (detail : JsString) : JsString :=
  js "invalid entry: " ++ detail ++ js " (line " ++ digits error.lineNumber ++ js " of " ++ error.filePath ++ js ")\n" ++
    js "This is corruption in the middle of the transcript, not a partial final write: skipping it would " ++
    js "silently drop every entry after it, so the session was not loaded." ++ js "\n" ++ sessionRecoveryHint

/-- A file with a header: its entries, and the number of a last line that was dropped. -/
structure LoadedFile where
  header : SessionHeader
  entries : List Json
  salvagedLine : Option ℕ
deriving DecidableEq

/-- The loop over the lines after the header, up to the last one that is not blank. -/
def loadLines (filePath : JsString) : ℕ → List (List Char) → List Json → Except InvalidEntry (List Json × Option ℕ)
  | _, [], entries => .ok (entries, none)
  | i, line :: rest, entries =>
    if isBlank line then loadLines filePath (i + 1) rest entries
    else
      match parse? line with
      | some entry => loadLines filePath (i + 1) rest (entries ++ [entry])
      | none => if rest ≠ [] then .error ⟨filePath, i + 1⟩ else .ok (entries, some (i + 1))

/-- `loadEntriesFromFile` on the content of a file. It yields nothing when no line is a header. -/
def loadEntriesFromFile (filePath : JsString) (content : List UInt8) : Except InvalidEntry (Option LoadedFile) :=
  let rawLines := (decodeUtf8 content).splitOn '\n'
  match rawLines.findIdx? fun line => !isBlank line with
  | none => .ok none
  | some first =>
    match parseSessionHeaderLine (rawLines.getD first []) with
    | none => .ok none
    | some header =>
      let last := lastContentIndex rawLines first
      (loadLines filePath (first + 1) ((rawLines.take (last + 1)).drop (first + 1)) []).map fun loaded =>
        some ⟨header, loaded.1, loaded.2⟩

end Load

section Context

/-- A message of the context; one that is made from an entry keeps the fields it is made from. -/
inductive ContextMessage where
  | stored (message : Json)
  | custom (customType content display details timestamp : Option Json)
  | branchSummary (summary fromId timestamp : Option Json)
  | compactionSummary (summary tokensBefore timestamp : Option Json)
deriving DecidableEq

/-- `{ provider, modelId }`. -/
structure ContextModel where
  provider : Option Json
  modelId : Option Json
deriving DecidableEq

@[ext] structure SessionContext where
  messages : List ContextMessage
  thinkingLevel : Option Json
  model : Option ContextModel
deriving DecidableEq

/-- The context before the first entry. -/
def SessionContext.empty : SessionContext := ⟨[], some (.str (js "off")), none⟩

/-- The message that `appendMessage` pushes for an entry, if it pushes one. -/
def contextMessage? (entry : Json) : Option ContextMessage :=
  if entryType entry = js "message" then (entry.get? (js "message")).map .stored
  else if entryType entry = js "custom_message" then
    some (.custom (entry.get? (js "customType")) (entry.get? (js "content")) (entry.get? (js "display"))
      (entry.get? (js "details")) (entry.get? (js "timestamp")))
  else if entryType entry = js "branch_summary" ∧ (nonemptyField? entry "summary").isSome then
    some (.branchSummary (entry.get? (js "summary")) (entry.get? (js "fromId")) (entry.get? (js "timestamp")))
  else none

def contextMessages (path : List Json) : List ContextMessage := path.filterMap contextMessage?

/-- The thinking level that an entry sets. -/
def thinkingLevel? (entry : Json) : Option (Option Json) :=
  if entryType entry = js "thinking_level_change" then some (entry.get? (js "thinkingLevel")) else none

/-- The model that an entry sets. -/
def model? (entry : Json) : Option ContextModel :=
  if entryType entry = js "model_change" then some ⟨entry.get? (js "provider"), entry.get? (js "modelId")⟩
  else if isAssistant entry then some ⟨messageField? entry "provider", messageField? entry "model"⟩
  else none

/-- What the last entry that sets something sets. -/
def lastSet? {α : Type} (set? : Json → Option α) (path : List Json) : Option α := path.reverse.findSome? set?

def compactionSummary (compaction : Json) : ContextMessage :=
  .compactionSummary (compaction.get? (js "summary")) (compaction.get? (js "tokensBefore"))
    (compaction.get? (js "timestamp"))

/-- The entries of a path from the first kept one of a compaction on. -/
def fromFirstKept (compaction : Json) (path : List Json) : List Json :=
  path.dropWhile fun entry => entry.get? (js "id") ≠ compaction.get? (js "firstKeptEntryId")

/-- The context of a path from the root to a leaf. -/
def pathContext (path : List Json) : SessionContext where
  messages :=
    match path.reverse.find? isCompaction with
    | none => contextMessages path
    | some compaction =>
      let compactionIdx := path.findIdx fun entry => isCompaction entry && entry.get? (js "id") == compaction.get? (js "id")
      compactionSummary compaction :: contextMessages (fromFirstKept compaction (path.take compactionIdx)) ++
        contextMessages (path.drop (compactionIdx + 1))
  thinkingLevel := (lastSet? thinkingLevel? path).getD (some (.str (js "off")))
  model := lastSet? model? path

/-- The walk from an entry to the root. It yields nothing when the rounds do not suffice. -/
def walkToRoot? (entries : List Json) : ℕ → Option Json → Option (List Json)
  | _, none => some []
  | 0, some _ => none
  | rounds + 1, some current =>
    (walkToRoot? entries rounds ((parentId current).bind (byId entries))).map fun path => path ++ [current]

/-- A walk of more rounds than there are entries goes round a cycle, and never returns. -/
def pathTo? (entries : List Json) (start : Option Json) : Option (List Json) :=
  walkToRoot? entries (entries.length + 1) start

/-- `buildSessionContext`; it yields nothing when the walk does not return. -/
def buildSessionContext (entries : List Json) (leafId : Option JsString) : Option SessionContext :=
  match leafId with
  | none => some .empty
  | some leafId =>
    match ((some leafId).filter (· ≠ [])).bind (byId entries) <|> entries.getLast? with
    | none => some .empty
    | some leaf => (pathTo? entries (some leaf)).map pathContext

end Context

end PieAgent.Model.Transcript
