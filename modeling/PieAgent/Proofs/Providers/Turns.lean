import Mathlib.Data.List.Nodup
import PieAgent.Model.Providers.TransformMessages

/-! # Transcripts as turns

A turn is a user message, or an answer with the tool results that follow it. `segment` recovers the
turns of a message list. Both passes of `transformMessages` work turn by turn: the first rewrites
the ids of a turn, the second drops failed answers and completes the results of the others.
-/

namespace PieAgent.Model

open JavaScript

inductive Turn where
  | user (message : UserMessage)
  | assistant (message : AssistantMessage) (results : List ToolResultMessage)

@[simp] def Turn.messages : Turn → List Message
  | .user message => [.user message]
  | .assistant message results => .assistant message :: results.map .toolResult

/-- The messages of a list of turns. -/
def transcript (turns : List Turn) : List Message := turns.flatMap Turn.messages

@[simp] theorem transcript_nil : transcript [] = [] := rfl

@[simp] theorem transcript_cons (turn : Turn) (turns : List Turn) :
    transcript (turn :: turns) = turn.messages ++ transcript turns := rfl

/-- The turns of a message list, after the tool results that precede the first of them. -/
def segment : List Message → Option (List ToolResultMessage × List Turn)
  | [] => some ([], [])
  | .toolResult message :: rest => (segment rest).map fun (results, turns) => (message :: results, turns)
  | .assistant message :: rest => (segment rest).map fun (results, turns) => ([], .assistant message results :: turns)
  | .user message :: rest => (segment rest).bind fun (results, turns) =>
    if results.isEmpty then some ([], .user message :: turns) else none

theorem segment_results_append (results : List ToolResultMessage) {messages : List Message} {turns : List Turn}
    (rest : segment messages = some ([], turns)) :
    segment (results.map .toolResult ++ messages) = some (results, turns) := by
  induction results with
  | nil => exact rest
  | cons result results ih => simp [segment, ih]

/-- Segmentation inverts the concatenation of turns. -/
theorem segment_transcript (turns : List Turn) : segment (transcript turns) = some ([], turns) := by
  induction turns with
  | nil => rfl
  | cons turn turns ih =>
    cases turn with
    | user message => simp [segment, ih]
    | assistant message results => simp [segment, segment_results_append results ih]

/-- Every call of the turn has exactly one result with its id, and every result is for such a call. -/
def Turn.Answered : Turn → Prop
  | .user _ => True
  | .assistant message results =>
    (∀ call ∈ message.toolCalls, results.countP (fun result => result.toolCallId == call.id) = 1) ∧
      ∀ result ∈ results, ∃ call ∈ message.toolCalls, call.id = result.toolCallId

instance (turn : Turn) : Decidable turn.Answered :=
  match turn with
  | .user _ => inferInstanceAs (Decidable True)
  | .assistant _ _ => inferInstanceAs (Decidable (_ ∧ _))

/-- Every tool call of a message list is answered once before the next answer or user message, and
every tool result answers such a call. -/
def EveryCallAnswered (messages : List Message) : Prop :=
  ∃ turns, segment messages = some ([], turns) ∧ ∀ turn ∈ turns, turn.Answered

instance (messages : List Message) : Decidable (EveryCallAnswered messages) :=
  decidable_of_iff ((segment messages).any fun (results, turns) =>
      results.isEmpty && turns.all fun turn => decide turn.Answered) (by
    simp only [EveryCallAnswered, Option.any_eq_true, Prod.exists, Bool.and_eq_true, List.isEmpty_iff, List.all_eq_true,
      decide_eq_true_eq]
    constructor
    · rintro ⟨_, turns, found, rfl, every⟩
      exact ⟨turns, found, every⟩
    · rintro ⟨turns, found, every⟩
      exact ⟨[], turns, found, rfl, every⟩)

theorem everyCallAnswered_transcript (turns : List Turn) :
    EveryCallAnswered (transcript turns) ↔ ∀ turn ∈ turns, turn.Answered := by
  simp [EveryCallAnswered, segment_transcript]

/-- A turn the agent loop can record: a failed answer has no results, the results of another answer
belong to a prefix of its calls. -/
def Turn.Recorded : Turn → Prop
  | .user _ => True
  | .assistant message results =>
    results.map (·.toolCallId) <+: message.toolCalls.map (·.id) ∧ (message.failed → results = [])

instance (turn : Turn) : Decidable turn.Recorded :=
  match turn with
  | .user _ => inferInstanceAs (Decidable True)
  | .assistant _ _ => inferInstanceAs (Decidable (_ ∧ _))

section Passes

variable (model : TargetModel) (normalize : Option IdNormalizer) (now : ℤ)

def downgradeResult (result : ToolResultMessage) : ToolResultMessage :=
  if model.readsImages then result
  else { result with
    content := replaceImagesWithPlaceholder nonVisionToolImagePlaceholder false result.content }

def downgradeUser (message : UserMessage) : UserMessage :=
  if model.readsImages then message
  else match message with
    | ⟨.blocks content, timestamp⟩ =>
      ⟨.blocks (replaceImagesWithPlaceholder nonVisionUserImagePlaceholder false content), timestamp⟩
    | message => message

def downgradeTurn : Turn → Turn
  | .user message => .user (downgradeUser model message)
  | .assistant message results => .assistant message (results.map (downgradeResult model))

@[simp] theorem downgradeResult_toolCallId (result : ToolResultMessage) :
    (downgradeResult model result).toolCallId = result.toolCallId := by
  unfold downgradeResult
  split <;> rfl

private theorem downgradeImages_messages (turn : Turn) :
    turn.messages.map (downgradeImages model) = (downgradeTurn model turn).messages := by
  cases turn with
  | user message =>
    obtain ⟨content, timestamp⟩ := message
    cases content <;> cases images : model.readsImages <;>
      simp [Turn.messages, downgradeTurn, downgradeImages, downgradeUser, images]
  | assistant message results =>
    cases images : model.readsImages <;>
      simp [Turn.messages, downgradeTurn, downgradeImages, downgradeResult, images]

theorem downgradeUnsupportedImages_transcript (turns : List Turn) :
    downgradeUnsupportedImages model (transcript turns) = transcript (turns.map (downgradeTurn model)) := by
  simp only [downgradeUnsupportedImages, transcript, List.map_flatMap, List.flatMap_map, downgradeImages_messages]

/-- The result of a call after the first pass. -/
def mapResult (toolCallIdMap : ToolCallIdMap) (result : ToolResultMessage) : ToolResultMessage :=
  { result with toolCallId := mappedResultId toolCallIdMap result.toolCallId }

/-- The first pass over turns. -/
def transformTurns : ToolCallIdMap → List Turn → List Turn
  | _, [] => []
  | toolCallIdMap, .user message :: rest => .user message :: transformTurns toolCallIdMap rest
  | toolCallIdMap, .assistant message results :: rest =>
    let recorded := recordRenamings model normalize toolCallIdMap message
    .assistant (transformAssistant model normalize message) (results.map (mapResult recorded)) ::
      transformTurns recorded rest

private theorem transformPass_results (toolCallIdMap : ToolCallIdMap) (results : List ToolResultMessage)
    (rest : List Message) :
    transformPass model normalize toolCallIdMap (results.map .toolResult ++ rest) =
      (results.map (mapResult toolCallIdMap)).map .toolResult ++ transformPass model normalize toolCallIdMap rest := by
  induction results with
  | nil => rfl
  | cons result results ih => simp [transformPass, mapResult, ih]

theorem transformPass_transcript (toolCallIdMap : ToolCallIdMap) (turns : List Turn) :
    transformPass model normalize toolCallIdMap (transcript turns) =
      transcript (transformTurns model normalize toolCallIdMap turns) := by
  induction turns generalizing toolCallIdMap with
  | nil => rfl
  | cons turn turns ih =>
    cases turn with
    | user message => simp [transformPass, transformTurns, ih]
    | assistant message results => simp [transformPass, transformTurns, transformPass_results, ih]

/-- The second pass over a turn. -/
def pairTurn : Turn → Option Turn
  | .user message => some (.user message)
  | .assistant message results =>
    if message.failed then none
    else some (.assistant message (results ++
      insertSyntheticToolResults now message.toolCalls (results.map (·.toolCallId))))

theorem pairTurn_sent {message : AssistantMessage} {results : List ToolResultMessage} (sent : message.failed = false) :
    pairTurn now (.assistant message results) = some (.assistant message (results ++
      insertSyntheticToolResults now message.toolCalls (results.map (·.toolCallId)))) := by
  simp [pairTurn, sent]

private theorem pairPass_results (pending : List ToolCall) (existing : List JsString)
    (results : List ToolResultMessage) (rest : List Message) :
    pairPass now pending existing (results.map .toolResult ++ rest) =
      results.map .toolResult ++ pairPass now pending ((results.map (·.toolCallId)).reverse ++ existing) rest := by
  induction results generalizing existing with
  | nil => rfl
  | cons result results ih =>
    refine (congrArg (Message.toolResult result :: ·) (ih (result.toolCallId :: existing))).trans ?_
    simp

private theorem insertSyntheticToolResults_congr (pending : List ToolCall) {existing other : List JsString}
    (same : ∀ id, id ∈ existing ↔ id ∈ other) :
    insertSyntheticToolResults now pending existing = insertSyntheticToolResults now pending other := by
  simp [insertSyntheticToolResults, same]

/-- The second pass first completes the pending calls, then handles each turn on its own. -/
theorem pairPass_transcript (pending : List ToolCall) (existing : List JsString) (turns : List Turn)
    (recorded : ∀ message results, Turn.assistant message results ∈ turns → message.failed → results = []) :
    pairPass now pending existing (transcript turns) =
      (insertSyntheticToolResults now pending existing).map .toolResult ++
        transcript (turns.filterMap (pairTurn now)) := by
  induction turns generalizing pending existing with
  | nil => simp [transcript, pairPass]
  | cons turn turns ih =>
    have ih := fun pending existing => ih pending existing fun message results member =>
      recorded message results (List.mem_cons_of_mem _ member)
    cases turn with
    | user message => simp [pairPass, ih, pairTurn, insertSyntheticToolResults]
    | assistant message results =>
      rw [transcript_cons, Turn.messages, List.cons_append, pairPass]
      cases failed : message.failed with
      | true =>
        have none := recorded message results List.mem_cons_self failed
        subst none
        simp [ih, pairTurn, failed, insertSyntheticToolResults]
      | false =>
        have order : ∀ id, id ∈ (results.map (·.toolCallId)).reverse ++ [] ↔ id ∈ results.map (·.toolCallId) := by
          simp
        cases calls : message.toolCalls with
        | nil => simp [ih, pairPass_results, pairTurn, failed, calls, insertSyntheticToolResults]
        | cons call rest =>
          have complete := insertSyntheticToolResults_congr now (call :: rest) order
          simp [ih, pairPass_results, pairTurn, failed, calls, ← complete]

private theorem transformTurns_failed (toolCallIdMap : ToolCallIdMap) (turns : List Turn)
    (recorded : ∀ message results, Turn.assistant message results ∈ turns → message.failed → results = []) :
    ∀ message results, Turn.assistant message results ∈ transformTurns model normalize toolCallIdMap turns →
      message.failed → results = [] := by
  induction turns generalizing toolCallIdMap with
  | nil => simp [transformTurns]
  | cons turn turns ih =>
    have ih := fun toolCallIdMap => ih toolCallIdMap fun message results member =>
      recorded message results (List.mem_cons_of_mem _ member)
    intro message results member failed
    cases turn with
    | user other =>
      simp only [transformTurns, List.mem_cons, reduceCtorEq, false_or] at member
      exact ih _ message results member failed
    | assistant other otherResults =>
      simp only [transformTurns, List.mem_cons, Turn.assistant.injEq] at member
      rcases member with ⟨rfl, rfl⟩ | member
      · have none := recorded other otherResults List.mem_cons_self failed
        rw [none, List.map_nil]
      · exact ih _ message results member failed

/-- The whole transformation, turn by turn. -/
theorem transformMessages_transcript {turns : List Turn} (recorded : ∀ turn ∈ turns, turn.Recorded) :
    transformMessages now (transcript turns) model normalize =
      transcript ((transformTurns model normalize [] (turns.map (downgradeTurn model))).filterMap (pairTurn now)) := by
  rw [transformMessages, downgradeUnsupportedImages_transcript, transformPass_transcript, pairPass_transcript]
  · simp [insertSyntheticToolResults]
  · refine transformTurns_failed model normalize [] _ fun message results member failed => ?_
    obtain ⟨turn, origin, same⟩ := List.mem_map.mp member
    cases turn with
    | user other => cases same
    | assistant other otherResults =>
      cases same
      rw [(recorded _ origin).2 failed, List.map_nil]

end Passes

end PieAgent.Model
