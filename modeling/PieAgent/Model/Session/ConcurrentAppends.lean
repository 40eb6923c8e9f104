import PieAgent.Machine.Core.Labeled
import PieAgent.Model.Session.JsonlStorage

/-! # Concurrent appends to one session

Every `append*` method of a session awaits the same three things: a fresh entry id, the id of the current
leaf, and the storage, which commits the entry once its line is in the file. Calls that overlap
interleave at these awaits. The machine steps one call from one await to the next.
-/

namespace PieAgent.Model

open JavaScript

/-- A call of one of the `append*` methods, named after the entry it appends. -/
inductive AppendRequest where
  | message (message : Json)
  | thinkingLevelChange (thinkingLevel : JsString)
  | modelChange (provider modelId : JsString)
  | compaction (summary firstKeptEntryId : JsString) (tokensBefore : NumberLiteral) (details : Option Json)
      (fromHook : Bool)
  | custom (customType : JsString) (data : Option Json)
  | customMessage (customType : JsString) (content : Json) (display : Bool) (details : Option Json)
  | label (targetId : JsString) (label : Option JsString)
  | sessionInfo (name : JsString)

namespace AppendRequest

def type : AppendRequest → String
  | message _ => "message"
  | thinkingLevelChange _ => "thinking_level_change"
  | modelChange .. => "model_change"
  | compaction .. => "compaction"
  | custom .. => "custom"
  | customMessage .. => "custom_message"
  | label .. => "label"
  | sessionInfo _ => "session_info"

/-- The fields after the ones that all entries have. -/
def fields : AppendRequest → List (JsString × Json)
  | message body => [(js "message", body)]
  | thinkingLevelChange thinkingLevel => [(js "thinkingLevel", .str thinkingLevel)]
  | modelChange provider modelId => [(js "provider", .str provider), (js "modelId", .str modelId)]
  | compaction summary firstKeptEntryId tokensBefore details fromHook =>
    [(js "summary", .str summary), (js "firstKeptEntryId", .str firstKeptEntryId),
      (js "tokensBefore", .num tokensBefore)] ++ optionalField "details" details ++
      optionalField "fromHook" (if fromHook then some (.bool true) else none)
  | custom customType data => (js "customType", .str customType) :: optionalField "data" data
  | customMessage customType content display details =>
    [(js "customType", .str customType), (js "content", content), (js "display", .bool display)] ++
      optionalField "details" details
  | label targetId text => (js "targetId", .str targetId) :: optionalField "label" (text.map .str)
  | sessionInfo name => [(js "name", .str (trim name))]

/-- The object literal that an `append*` method hands to the storage. -/
def entryValue (request : AppendRequest) (id : NonemptyText) (parentId : Option JsString) (timestamp : NonemptyText) :
    Json :=
  .obj ([(js "type", Json.str (js request.type)), (js "id", .str id), (js "parentId", parentId.elim .null .str),
    (js "timestamp", .str timestamp)] ++ request.fields)

theorem type_ne_leaf (request : AppendRequest) : js request.type ≠ js "leaf" := by
  cases request <;> simp only [type] <;> decide

theorem eq_label_of_type {request : AppendRequest} (labels : js request.type = js "label") :
    ∃ targetId text, request = .label targetId text := by
  cases request with
  | label targetId text => exact ⟨targetId, text, rfl⟩
  | _ => exact absurd labels (by simp only [type]; decide)

variable (request : AppendRequest) (id : NonemptyText) (parentId : Option JsString) (timestamp : NonemptyText)

private theorem type_entryValue : textField? (request.entryValue id parentId timestamp) "type" = some (js request.type) :=
  rfl

private theorem id_entryValue : nonemptyField? (request.entryValue id parentId timestamp) "id" = some id.val :=
  Option.filter_eq_some_iff.mpr ⟨rfl, by simpa using id.property⟩

private theorem timestamp_entryValue :
    nonemptyField? (request.entryValue id parentId timestamp) "timestamp" = some timestamp.val :=
  Option.filter_eq_some_iff.mpr ⟨rfl, by simpa using timestamp.property⟩

private theorem parentId_entryValue :
    nullableField? (request.entryValue id parentId timestamp) "parentId" = some parentId := by
  cases parentId <;> rfl

/-- An `append*` method hands well-formed entries to the storage. -/
theorem entryProblem_entryValue : entryProblem (request.entryValue id parentId timestamp) = none := by
  have known : isRecord (request.entryValue id parentId timestamp) = true := rfl
  simp [entryProblem, known, type_entryValue, id_entryValue, parentId_entryValue, timestamp_entryValue, type_ne_leaf]

def entry : StoredEntry := ⟨request.entryValue id parentId timestamp, request.entryProblem_entryValue id parentId timestamp⟩

@[simp] theorem id_entry : (request.entry id parentId timestamp).id = id := by
  simp [StoredEntry.id, entry, id_entryValue]

@[simp] theorem parentId_entry : (request.entry id parentId timestamp).parentId = parentId := by
  simp [StoredEntry.parentId, entry, parentId_entryValue]

@[simp] theorem type_entry : (request.entry id parentId timestamp).type = js request.type := by
  simp [StoredEntry.type, entry, type_entryValue]

@[simp] theorem leafIdAfterEntry_entry : leafIdAfterEntry (request.entry id parentId timestamp) = some id.val := by
  simp [leafIdAfterEntry, type_ne_leaf]

/-- The label of such an entry never breaks the label cache. -/
theorem updateLabelCache_entry (labelsById : LabelCache) :
    ∃ updated, updateLabelCache labelsById (request.entry id parentId timestamp) = .ok updated := by
  unfold updateLabelCache
  split
  · exact ⟨_, rfl⟩
  · next labels =>
    rw [type_entry, not_not] at labels
    obtain ⟨targetId, text, rfl⟩ := eq_label_of_type labels
    cases text <;> exact ⟨_, rfl⟩

end AppendRequest

/-- Where a call stands: before `createEntryId`, before `getLeafId`, waiting for the file, or settled. -/
inductive AppendPhase where
  | issued
  | identified (id : NonemptyText)
  | writing (entry : StoredEntry)
  | resolved (id : JsString)
  | rejected (message : JsString)
deriving DecidableEq

structure AppendCall where
  request : AppendRequest
  phase : AppendPhase

structure SessionState where
  storage : JsonlSessionStorage
  calls : List AppendCall

inductive SessionEvent where
  | issue (request : AppendRequest)
  | createEntryId (call : ℕ) (id : NonemptyText)
  | readLeaf (call : ℕ) (timestamp : NonemptyText)
  | settleWrite (call : ℕ) (outcome : Except FileError Unit)

namespace AppendPhase

/-- The id of a call that has one and is not settled. -/
def pendingId? : AppendPhase → Option JsString
  | identified id => some id
  | writing entry => some entry.id
  | _ => none

end AppendPhase

namespace SessionState

variable (state : SessionState)

def phase? (call : ℕ) : Option AppendPhase := state.calls[call]?.map (·.phase)

/-- The ids of entries and of calls that are not settled. -/
def usedIds : List JsString := state.storage.entries.map (·.id) ++ state.calls.filterMap (·.phase.pendingId?)

/-- Move one call to another phase. -/
def advance (call : ℕ) (phase : AppendPhase) : SessionState :=
  { state with calls := state.calls.modify call fun moved => { moved with phase } }

/-- `appendLabel` looks its target up before anything else. -/
def issuedPhase : AppendRequest → AppendPhase
  | .label targetId _ =>
    if (state.storage.getEntry targetId).isSome then .issued
    else .rejected (js "Entry " ++ targetId ++ js " not found")
  | _ => .issued

/-- The commit of an entry whose line is in the file. -/
def commit (call : ℕ) (entry : StoredEntry) : SessionState :=
  let (storage, outcome) := state.storage.push entry
  { state with storage }.advance call (match outcome with
    | .ok () => .resolved entry.id
    | .error message => .rejected message)

/-- One step of one call. An id is never created twice. -/
def step (state : SessionState) : SessionEvent → Option SessionState
  | .issue request => some { state with calls := state.calls ++ [⟨request, state.issuedPhase request⟩] }
  | .createEntryId call id =>
    if state.phase? call = some .issued ∧ id.val ∉ state.usedIds then some (state.advance call (.identified id))
    else none
  | .readLeaf call timestamp =>
    match state.calls[call]? with
    | some ⟨request, .identified id⟩ =>
      some (state.advance call (match state.storage.getLeafId with
        | .ok leafId => .writing (request.entry id leafId timestamp)
        | .error error => .rejected error.message))
    | _ => none
  | .settleWrite call outcome =>
    match state.phase? call with
    | some (.writing entry) =>
      some (match outcome with
        | .ok () => state.commit call entry
        | .error error => state.advance call
            (.rejected (error.toSessionError (js "Failed to append session entry " ++ entry.id)).message))
    | _ => none

/-- The run of a list of events. -/
abbrev run? : SessionState → List SessionEvent → Option SessionState := Machine.run? step

end SessionState

end PieAgent.Model
