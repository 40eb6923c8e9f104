import PieAgent.Forest.Core.Chain
import PieAgent.JavaScript.Core.Json

/-! # The session storage in memory

A storage keeps the entries of a session in the order of their lines, a cache of the labels and the id
of the current leaf. It reads a few fields of an entry and leaves the rest alone, so an entry is a JSON
object of which these fields are known to be well typed.
-/

namespace PieAgent.Model

open JavaScript

inductive SessionErrorCode where
  | notFound | invalidSession | invalidEntry | storage
deriving DecidableEq

structure SessionError where
  code : SessionErrorCode
  message : JsString
deriving DecidableEq

structure FileError where
  notFound : Bool
  message : JsString

/-- `getFileSystemResultOrThrow`. -/
def FileError.toSessionError (error : FileError) (message : JsString) : SessionError where
  code := if error.notFound then .notFound else .storage
  message := message ++ js ": " ++ error.message

/-- Ids and timestamps are never empty. -/
abbrev NonemptyText := { text : JsString // text ≠ [] }

/-- An optional field of an object literal. -/
def optionalField (key : String) (value : Option Json) : List (JsString × Json) :=
  value.toList.map fun value => (js key, value)

/-- The value is an object or an array. -/
def isRecord : Json → Bool
  | .arr _ | .obj _ => true
  | _ => false

/-- A field that holds a string. -/
def textField? (value : Json) (key : String) : Option JsString := (value.get? (js key)).bind Json.str?

/-- A field that holds a string with at least one code unit. -/
def nonemptyField? (value : Json) (key : String) : Option JsString := (textField? value key).filter (· ≠ [])

/-- A field that holds a string or `null`. -/
def nullableField? (value : Json) (key : String) : Option (Option JsString) :=
  match value.get? (js key) with
  | some .null => some none
  | some (.str text) => some (some text)
  | _ => none

/-- What `parseEntryLine` rejects a parsed line for, if it does. -/
def entryProblem (value : Json) : Option String :=
  if !isRecord value then some "is not a valid session entry"
  else if (textField? value "type").isNone then some "is missing entry type"
  else if (nonemptyField? value "id").isNone then some "is missing entry id"
  else if (nullableField? value "parentId").isNone then some "has invalid parentId"
  else if (nonemptyField? value "timestamp").isNone then some "is missing timestamp"
  else if textField? value "type" = some (js "leaf") ∧ (nullableField? value "targetId").isNone then
    some "has invalid targetId"
  else none

/-- A session entry: a value that `parseEntryLine` accepts. -/
structure StoredEntry where
  value : Json
  accepted : entryProblem value = none
deriving DecidableEq

namespace StoredEntry

def type (entry : StoredEntry) : JsString := (textField? entry.value "type").getD []

def id (entry : StoredEntry) : JsString := (nonemptyField? entry.value "id").getD []

def parentId (entry : StoredEntry) : Option JsString := (nullableField? entry.value "parentId").join

def targetId (entry : StoredEntry) : Option JsString := (nullableField? entry.value "targetId").join

end StoredEntry

def leafIdAfterEntry (entry : StoredEntry) : Option JsString :=
  if entry.type = js "leaf" then entry.targetId else some entry.id

/-- The labels by the id of the labelled entry. -/
abbrev LabelCache := List (JsString × JsString)

/-- `updateLabelCache`. A label that is neither a string nor absent has no `trim`. -/
def updateLabelCache (labelsById : LabelCache) (entry : StoredEntry) : Except JsString LabelCache :=
  if entry.type ≠ js "label" then .ok labelsById
  else
    let others (targetId : JsString) := labelsById.filter fun label => label.1 ≠ targetId
    match entry.value.get? (js "label"), textField? entry.value "targetId" with
    | some (.str label), some targetId =>
      .ok (if trim label = [] then others targetId else others targetId ++ [(targetId, trim label)])
    | none, some targetId | some .null, some targetId => .ok (others targetId)
    | none, none | some .null, none | some (.str _), none => .ok labelsById
    | some _, _ => .error (js "entry.label?.trim is not a function")

def buildLabelsById (entries : List StoredEntry) : Except JsString LabelCache := entries.foldlM updateLabelCache []

structure JsonlSessionStorage where
  entries : List StoredEntry
  labelsById : LabelCache
  currentLeafId : Option JsString
deriving DecidableEq

namespace JsonlSessionStorage

variable (storage : JsonlSessionStorage)

/-- A session without entries. -/
def empty : JsonlSessionStorage := ⟨[], [], none⟩

/-- The map from ids to entries; a later entry replaces an earlier one. -/
def byId (id : JsString) : Option StoredEntry := Forest.find? StoredEntry.id storage.entries id

def getEntry (id : JsString) : Option StoredEntry := storage.byId id

def getLeafId : Except SessionError (Option JsString) :=
  match storage.currentLeafId with
  | none => .ok none
  | some leafId =>
    if (storage.byId leafId).isSome then .ok (some leafId)
    else .error ⟨.invalidSession, js "Entry " ++ leafId ++ js " not found"⟩

/-- `appendEntry` once the line is in the file. A throw leaves the entry behind. -/
def push (entry : StoredEntry) : JsonlSessionStorage × Except JsString Unit :=
  let pushed := { storage with entries := storage.entries ++ [entry] }
  match updateLabelCache storage.labelsById entry with
  | .error error => (pushed, .error error)
  | .ok labelsById => ({ pushed with labelsById, currentLeafId := leafIdAfterEntry entry }, .ok ())

/-- The loop of `getPathToRoot`. A round either ends it or adds the id of an entry to `seen`. -/
def walkToRoot : ℕ → List JsString → List StoredEntry → Option JsString → Except SessionError (List StoredEntry)
  | _, _, path, none => .ok path
  | 0, _, path, some _ => .ok path
  | rounds + 1, seen, path, some currentId =>
    if currentId ∈ seen then .error ⟨.invalidSession, js "cycle in parent chain at " ++ currentId⟩
    else match storage.byId currentId with
      | none => .error ⟨.invalidSession, js "parent " ++ currentId ++ js " not found"⟩
      | some current => walkToRoot rounds (currentId :: seen) (current :: path) current.parentId

/-- `getPathToRoot`. The entry count and one more bound the number of rounds. -/
def getPathToRoot (leafId : Option JsString) : Except SessionError (List StoredEntry) :=
  storage.walkToRoot (storage.entries.length + 1) [] [] leafId

end JsonlSessionStorage

end PieAgent.Model
