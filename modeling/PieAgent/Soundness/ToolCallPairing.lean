import PieAgent.Model.Providers.TransformMessages
import PieAgent.Proofs.Providers.Turns

/-! # Tool calls and their results after the transformation

A provider rejects a conversation in which a tool call is not answered exactly once. For every
transcript the agent loop can record, the transformed conversation pairs calls and results exactly
when the renaming of ids is consistent: the ids sent for the results of an answer are distinct ids
of its calls, and the calls left over have distinct ids. The renaming map is never cleared, so an id
that one answer keeps although an earlier answer renamed it breaks the pairing.
-/

namespace PieAgent.Soundness

open JavaScript Model

section Renaming

variable (model : TargetModel) (normalize : Option IdNormalizer)

/-- The answers among some turns, failed ones included. -/
def answers (turns : List Turn) : List AssistantMessage :=
  turns.filterMap fun
    | .assistant message _ => some message
    | .user _ => none

/-- The answer has a call with this id and sends it under another one. -/
def Renames (message : AssistantMessage) (id : JsString) : Prop :=
  id ∈ message.toolCalls.map (·.id) ∧ normalizedCallId model normalize message id ≠ id

instance (message : AssistantMessage) (id : JsString) : Decidable (Renames model normalize message id) :=
  inferInstanceAs (Decidable (_ ∧ _))

/-- The id that the latest answer to rename `id` sends instead. -/
def latestRenaming (messages : List AssistantMessage) (id : JsString) : Option JsString :=
  messages.foldl (fun latest message =>
    if Renames model normalize message id then some (normalizedCallId model normalize message id) else latest) none

/-- The id sent for a result, an empty new id counting as none. -/
def sentResultId (messages : List AssistantMessage) (id : JsString) : JsString :=
  match latestRenaming model normalize messages id with
  | some (unit :: rest) => unit :: rest
  | _ => id

/-- The ids sent for the calls of an answer. -/
def sentCallIds (message : AssistantMessage) : List JsString :=
  message.toolCalls.map fun call => normalizedCallId model normalize message call.id

/-- Result ids are distinct call ids, and the call ids left over are distinct. -/
def IdsPair (callIds resultIds : List JsString) : Prop :=
  resultIds.Nodup ∧ resultIds ⊆ callIds ∧ (callIds.filter (· ∉ resultIds)).Nodup

/-- The ids of every answer that is sent pair up with the ids of its results. -/
def RenamingConsistent (turns : List Turn) : Prop :=
  ∀ before message results after, turns = before ++ Turn.assistant message results :: after → message.failed = false →
    IdsPair (sentCallIds model normalize message)
      (results.map fun result => sentResultId model normalize (answers before ++ [message]) result.toolCallId)

private theorem lookup_recordRenaming (message : AssistantMessage) (toolCallIdMap : ToolCallIdMap)
    (calls : List ToolCall) (id : JsString) :
    (calls.foldl (recordRenaming model normalize message) toolCallIdMap).lookup id =
      if id ∈ calls.map (·.id) ∧ normalizedCallId model normalize message id ≠ id then
        some (normalizedCallId model normalize message id)
      else toolCallIdMap.lookup id := by
  induction calls generalizing toolCallIdMap with
  | nil => simp
  | cons call calls ih =>
    rw [List.foldl_cons, ih]
    by_cases same : id = call.id
    · subst same
      by_cases kept : normalizedCallId model normalize message call.id = call.id
      · simp [recordRenaming, kept]
      · simp [recordRenaming, kept]
    · by_cases kept : normalizedCallId model normalize message call.id = call.id
      · simp [recordRenaming, kept, same]
      · have other : (id == call.id) = false := by simpa using same
        simp [recordRenaming, kept, same, List.lookup_cons, other]

theorem lookup_recordRenamings (message : AssistantMessage) (toolCallIdMap : ToolCallIdMap) (id : JsString) :
    (recordRenamings model normalize toolCallIdMap message).lookup id =
      if Renames model normalize message id then some (normalizedCallId model normalize message id)
      else toolCallIdMap.lookup id :=
  lookup_recordRenaming model normalize message toolCallIdMap message.toolCalls id

/-- The map after some answers holds the latest renaming of every id. -/
theorem lookup_foldl_recordRenamings (messages : List AssistantMessage) (id : JsString) :
    (messages.foldl (recordRenamings model normalize) []).lookup id = latestRenaming model normalize messages id := by
  unfold latestRenaming
  have general : ∀ toolCallIdMap latest, toolCallIdMap.lookup id = latest →
      (messages.foldl (recordRenamings model normalize) toolCallIdMap).lookup id =
        messages.foldl (fun latest message => if Renames model normalize message id then
          some (normalizedCallId model normalize message id) else latest) latest := by
    induction messages with
    | nil => exact fun _ _ same => same
    | cons message messages ih =>
      intro toolCallIdMap latest same
      refine ih _ _ ?_
      rw [lookup_recordRenamings, same]
  exact general [] none rfl

theorem mappedResultId_eq_sentResultId (messages : List AssistantMessage) (id : JsString) :
    mappedResultId (messages.foldl (recordRenamings model normalize) []) id =
      sentResultId model normalize messages id := by
  rw [mappedResultId, lookup_foldl_recordRenamings]
  rfl

/-- The ids of the results that the second pass leaves after an answer. -/
private theorem idsPair_iff (callIds resultIds : List JsString) :
    ((∀ id ∈ callIds, (resultIds ++ callIds.filter (· ∉ resultIds)).count id = 1) ∧
        ∀ id ∈ resultIds ++ callIds.filter (· ∉ resultIds), id ∈ callIds) ↔
      IdsPair callIds resultIds := by
  constructor
  · rintro ⟨once, known⟩
    have subset : resultIds ⊆ callIds := fun id member => known id (List.mem_append_left _ member)
    refine ⟨List.nodup_iff_count_le_one.mpr fun id => ?_, subset, List.nodup_iff_count_le_one.mpr fun id => ?_⟩
    · by_cases member : id ∈ resultIds
      · have := once id (subset member)
        rw [List.count_append] at this
        omega
      · rw [List.count_eq_zero_of_not_mem member]
        exact Nat.zero_le _
    · by_cases member : id ∈ callIds.filter (· ∉ resultIds)
      · have := once id (List.mem_of_mem_filter member)
        rw [List.count_append] at this
        omega
      · rw [List.count_eq_zero_of_not_mem member]
        exact Nat.zero_le _
  · rintro ⟨distinct, subset, rest⟩
    have all : (resultIds ++ callIds.filter (· ∉ resultIds)).Nodup :=
      List.nodup_append'.mpr ⟨distinct, rest, fun id member other => by simp [member] at other⟩
    refine ⟨fun id member => List.count_eq_one_of_mem all ?_, fun id member => ?_⟩
    · by_cases answered : id ∈ resultIds
      · exact List.mem_append_left _ answered
      · exact List.mem_append_right _ (List.mem_filter.mpr ⟨member, by simpa using answered⟩)
    · rcases List.mem_append.mp member with answered | left
      · exact subset answered
      · exact List.mem_of_mem_filter left

theorem toolCalls_transformAssistant (message : AssistantMessage) :
    (transformAssistant model normalize message).toolCalls =
      message.toolCalls.map (transformToolCall model normalize message) := by
  simp only [transformAssistant, AssistantMessage.toolCalls, List.filterMap_flatMap, List.map_filterMap]
  rw [List.filterMap_eq_flatMap_toList]
  refine List.flatMap_congr fun block _ => ?_
  cases block with
  | text block => rfl
  | toolCall call => rfl
  | thinking block =>
    simp only [transformBlock, transformThinking]
    split_ifs <;> rfl

/-- The ids of the results of a completed answer. -/
theorem map_completed (now : ℤ) (calls : List ToolCall) (results : List ToolResultMessage) :
    (results ++ insertSyntheticToolResults now calls (results.map (·.toolCallId))).map (·.toolCallId) =
      results.map (·.toolCallId) ++ (calls.map (·.id)).filter (· ∉ results.map (·.toolCallId)) := by
  simp only [insertSyntheticToolResults, List.map_append, List.map_map, List.filter_map]
  rfl

/-- A completed answer is answered exactly when its ids pair up. -/
private theorem completed_answered_iff (now : ℤ) (message : AssistantMessage) (results : List ToolResultMessage) :
    (Turn.assistant message
        (results ++ insertSyntheticToolResults now message.toolCalls (results.map (·.toolCallId)))).Answered ↔
      IdsPair (message.toolCalls.map (·.id)) (results.map (·.toolCallId)) := by
  rw [← idsPair_iff, ← map_completed now, Turn.Answered]
  generalize results ++ _ = completed
  simp [List.count, List.countP_map, Function.comp_def]

private theorem forall_split_cons {α : Type*} {head : α} {rest : List α} {holds : List α → α → Prop} :
    (∀ before item after, head :: rest = before ++ item :: after → holds before item) ↔
      holds [] head ∧ ∀ before item after, rest = before ++ item :: after → holds (head :: before) item := by
  constructor
  · exact fun every => ⟨every [] head rest rfl, fun before item after split =>
      every (head :: before) item after (by rw [split, List.cons_append])⟩
  · rintro ⟨first, later⟩ before item after split
    cases before with
    | nil =>
      obtain ⟨rfl, _⟩ := List.cons.inj split
      exact first
    | cons other before =>
      obtain ⟨rfl, remaining⟩ := List.cons.inj split
      exact later before item after remaining

section Turns

variable (pairs : List JsString → List JsString → Prop)

/-- The ids of every answer that is sent, with those of its results, are as they should be. -/
def EverySent (turns : List Turn) : Prop :=
  ∀ before message results after, turns = before ++ Turn.assistant message results :: after → message.failed = false →
    pairs (sentCallIds model normalize message)
      (results.map fun result => sentResultId model normalize (answers before ++ [message]) result.toolCallId)

/-- What a turn needs after the turns before it, in terms of the map the first pass has built. -/
private def TurnPairs (toolCallIdMap : ToolCallIdMap) (before : List Turn) : Turn → Prop
  | .user _ => True
  | .assistant message results => message.failed = false →
      pairs (sentCallIds model normalize message) (results.map fun result =>
        mappedResultId ((answers before ++ [message]).foldl (recordRenamings model normalize) toolCallIdMap)
          result.toolCallId)

variable {pairs} {holds : Turn → Prop}

private theorem forall_turn_iff (now : ℤ) (user : ∀ message, holds (.user message))
    (completed : ∀ message results, holds (.assistant message
      (results ++ insertSyntheticToolResults now message.toolCalls (results.map (·.toolCallId)))) ↔
        pairs (message.toolCalls.map (·.id)) (results.map (·.toolCallId)))
    (toolCallIdMap : ToolCallIdMap) (turns : List Turn) :
    (∀ turn ∈ (transformTurns model normalize toolCallIdMap (turns.map (downgradeTurn model))).filterMap
        (pairTurn now), holds turn) ↔
      ∀ before turn after, turns = before ++ turn :: after →
        TurnPairs model normalize pairs toolCallIdMap before turn := by
  induction turns generalizing toolCallIdMap with
  | nil => simp [transformTurns]
  | cons turn turns ih =>
    rw [forall_split_cons]
    cases turn with
    | user message =>
      have first : TurnPairs model normalize pairs toolCallIdMap [] (.user message) := trivial
      have same : ∀ before turn, TurnPairs model normalize pairs toolCallIdMap (.user message :: before) turn ↔
          TurnPairs model normalize pairs toolCallIdMap before turn := fun before turn => by cases turn <;> rfl
      simp only [first, same, true_and, ← ih]
      simp [downgradeTurn, transformTurns, pairTurn, user]
    | assistant message results =>
      have same : ∀ before turn, TurnPairs model normalize pairs toolCallIdMap (.assistant message results :: before) turn ↔
          TurnPairs model normalize pairs (recordRenamings model normalize toolCallIdMap message) before turn :=
        fun before turn => by cases turn <;> rfl
      simp only [same, ← ih, List.map_cons, downgradeTurn, transformTurns]
      have ids : (((results.map (downgradeResult model)).map
          (mapResult (recordRenamings model normalize toolCallIdMap message))).map (·.toolCallId)) =
            results.map fun result =>
              mappedResultId (recordRenamings model normalize toolCallIdMap message) result.toolCallId := by
        simp [mapResult]
      have calls : (transformAssistant model normalize message).toolCalls.map (·.id) =
          sentCallIds model normalize message := by
        simp [toolCalls_transformAssistant, sentCallIds, transformToolCall]
      have failed : (transformAssistant model normalize message).failed = message.failed := rfl
      cases status : message.failed with
      | true => simp [pairTurn, failed, status, TurnPairs]
      | false =>
        have pair : TurnPairs model normalize pairs toolCallIdMap [] (.assistant message results) ↔
            pairs ((transformAssistant model normalize message).toolCalls.map (·.id))
              (((results.map (downgradeResult model)).map
                (mapResult (recordRenamings model normalize toolCallIdMap message))).map (·.toolCallId)) := by
          rw [ids, calls]
          simp [TurnPairs, status, answers]
        rw [pair, ← completed, List.filterMap_cons_some (pairTurn_sent now (failed.trans status)), List.forall_mem_cons]

/-- What holds of the transformed turns is a matter of the ids that every answer sends, if it is one of the ids of a turn
that is completed. -/
theorem forall_transformTurns_iff (now : ℤ) (user : ∀ message, holds (.user message))
    (completed : ∀ message results, holds (.assistant message
      (results ++ insertSyntheticToolResults now message.toolCalls (results.map (·.toolCallId)))) ↔
        pairs (message.toolCalls.map (·.id)) (results.map (·.toolCallId))) (turns : List Turn) :
    (∀ turn ∈ (transformTurns model normalize [] (turns.map (downgradeTurn model))).filterMap (pairTurn now), holds turn) ↔
      EverySent model normalize pairs turns := by
  rw [forall_turn_iff model normalize now user completed]
  simp only [EverySent, ← mappedResultId_eq_sentResultId]
  constructor
  · exact fun every before message results after split sent => every before _ after split sent
  · intro every before turn after split
    cases turn with
    | user message => trivial
    | assistant message results => exact fun sent => every before message results after split sent

end Turns

/-- Every transcript of the agent loop is paired up for the target model exactly when the renaming of
its tool call ids is consistent. -/
theorem transformMessages_answered_iff (model : TargetModel) (normalize : Option IdNormalizer) (now : ℤ)
    (turns : List Turn) (recorded : ∀ turn ∈ turns, turn.Recorded) :
    EveryCallAnswered (transformMessages now (transcript turns) model normalize) ↔
      RenamingConsistent model normalize turns := by
  rw [transformMessages_transcript model normalize now recorded, everyCallAnswered_transcript]
  exact forall_transformTurns_iff model normalize now (fun _ => trivial) (completed_answered_iff now) turns

end Renaming

/-- A model behind the responses API of its own provider. -/
private def responsesModel : TargetModel :=
  { provider := js "openai", api := js "openai-responses", id := js "gpt", readsImages := true }

/-- An answer with a call to `read` under the given id, and the result of that call. -/
private def readTurn (provider api model id : String) : Turn :=
  .assistant
    { content := [.toolCall { id := js id, name := js "read", arguments := .obj [] }]
      api := js api, provider := js provider, model := js model, usage := ⟨1, 1, 0, 0, 2⟩, stopReason := .toolUse
      timestamp := .millis 0 }
    [{ toolCallId := js id, toolName := js "read", content := [], isError := false, timestamp := .millis 0 }]

/-- A foreign answer and then an answer of the target model. -/
private def mixedTurns (foreignId ownId : String) : List Turn :=
  [.user ⟨.plain (js "go"), .millis 0⟩, readTurn "anthropic" "anthropic-messages" "claude" foreignId,
    readTurn "openai" "openai-responses" "gpt" ownId]

/-- The law applied to a conversation across two models. -/
theorem transformMessages_answered_mixedTurns :
    EveryCallAnswered (transformMessages 0 (transcript (mixedTurns "call.1" "call_2")) responsesModel
        (some (normalizeToolCallId openaiToolCallProviders responsesModel))) ↔
      RenamingConsistent responsesModel (some (normalizeToolCallId openaiToolCallProviders responsesModel))
        (mixedTurns "call.1" "call_2") :=
  transformMessages_answered_iff responsesModel (some (normalizeToolCallId openaiToolCallProviders responsesModel)) 0
    (mixedTurns "call.1" "call_2") (by decide)

/-- An id that a foreign answer had to give up breaks the pairing when the target model uses it again. -/
theorem reusedId_breaks_pairing :
    (∀ turn ∈ mixedTurns "call.1" "call.1", turn.Recorded) ∧
      ¬ EveryCallAnswered (transformMessages 0 (transcript (mixedTurns "call.1" "call.1")) responsesModel
        (some (normalizeToolCallId openaiToolCallProviders responsesModel))) := by
  decide

end PieAgent.Soundness
