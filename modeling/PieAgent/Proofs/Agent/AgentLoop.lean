import PieAgent.Async.Core.Logic
import PieAgent.Model.Agent.AgentLoop

/-! # What the agent loop keeps

The loop itself only calls its callbacks. What all of them keep while a thread holds a share, the loop
keeps, and it throws only what they throw or what an abort or a tool batch makes it throw.
-/

namespace PieAgent.Model

open JavaScript Async

variable {I : Interface} {σ κ γ : Type} [AddCommMonoid γ]

/-- The callbacks of a loop hold a share throughout; `fails` names what they and the loop may throw. -/
structure AgentLoop.CallbacksKeep (loop : AgentLoop I σ) (discipline : Discipline I σ κ γ)
    (rests : Option I.Request → γ → Prop) (share : γ) (fails : JsString → Prop) : Prop where
  halts : rests none share
  emit : ∀ event, (loop.emit event).Keeps discipline rests share fails
  transformContext : ∀ transform, loop.transformContext = some transform →
    ∀ messages, (transform messages).Keeps discipline rests share fails
  convertToLlm : ∀ messages, (loop.convertToLlm messages).Keeps discipline rests share fails
  getApiKey : ∀ getApiKey, loop.getApiKey = some getApiKey →
    ∀ provider, (getApiKey provider).Keeps discipline rests share fails
  streamFn : ∀ model reasoning context key,
    (loop.streamFn model reasoning context key).Keeps discipline rests share fails
  readEvent : ∀ stream, (loop.readEvent stream).Keeps discipline rests share fails
  executeToolCalls : ∀ context message,
    (loop.executeToolCalls context message).Keeps discipline rests share fails
  shouldStopAfterTurn : ∀ shouldStop, loop.shouldStopAfterTurn = some shouldStop →
    ∀ turn, (shouldStop turn).Keeps discipline rests share fails
  prepareNextTurn : ∀ prepare, loop.prepareNextTurn = some prepare →
    ∀ turn, (prepare turn).Keeps discipline rests share fails
  getSteeringMessages : ∀ poll, loop.getSteeringMessages = some poll → poll.Keeps discipline rests share fails
  getFollowUpMessages : ∀ poll, loop.getFollowUpMessages = some poll → poll.Keeps discipline rests share fails

variable {loop : AgentLoop I σ} {discipline : Discipline I σ κ γ} {rests : Option I.Request → γ → Prop} {share : γ}
  {fails : JsString → Prop} {fuel : ℕ}

theorem callOr_keeps {α : Type} {callback : Option (Program I σ JsString α)} {default : α}
    (kept : ∀ program, callback = some program → program.Keeps discipline rests share fails) :
    (callOr callback default).Keeps discipline rests share fails := by
  cases callback with
  | none => exact keeps_pure default
  | some program => exact kept program rfl

private theorem callOr_map_keeps {α β : Type} {callback : Option (β → Program I σ JsString α)} {argument : β}
    {default : α}
    (kept : ∀ function, callback = some function → ∀ argument,
      (function argument).Keeps discipline rests share fails) :
    (callOr (callback.map fun function => function argument) default).Keeps discipline rests share fails := by
  apply callOr_keeps
  intro program same
  obtain ⟨function, present, rfl⟩ := Option.map_eq_some_iff.mp same
  exact kept function present argument

/-- The end of a response keeps what its parts keep. -/
theorem finishResponse_keeps (emit : ∀ event, (loop.emit event).Keeps discipline rests share fails)
    (result : loop.result.Keeps discipline rests share fails) (stream : StreamState) :
    (loop.finishResponse stream).Keeps discipline rests share fails := by
  apply keeps_bind result
  intro finalMessage
  apply keeps_bind (keeps_when (emit _))
  intro _
  apply keeps_bind (emit _)
  exact fun _ => keeps_pure _

/-- A round of the race between the abort signal and the response. -/
theorem readEvent_keeps (emit : ∀ event, (loop.emit event).Keeps discipline rests share fails)
    (result : loop.result.Keeps discipline rests share fails)
    (race : ∀ next : RaceWinner → Program I σ JsString (StreamState ⊕ (AssistantMessage × AgentContext)),
      (∀ winner, winner = .aborted ∨ (next winner).Keeps discipline rests share fails) →
        (loop.race >>= next).Keeps discipline rests share fails) (stream : StreamState) :
    (loop.readEvent stream).Keeps discipline rests share fails := by
  apply race
  intro winner
  cases winner with
  | aborted => exact Or.inl rfl
  | exhausted => exact Or.inr (keeps_map (finishResponse_keeps emit result stream))
  | event event =>
    refine Or.inr ?_
    cases event with
    | start message => exact keeps_bind (emit _) fun _ => keeps_pure _
    | progress type message =>
      dsimp only
      split
      · exact keeps_bind (emit _) fun _ => keeps_pure _
      · exact keeps_pure _
    | opening type message => exact keeps_pure _
    | finished type message => exact keeps_map (finishResponse_keeps emit result stream)

namespace AgentLoop.CallbacksKeep

variable (keep : loop.CallbacksKeep discipline rests share fails)

include keep

theorem emitAll {β : Type} (items : List β) (first last : β → LoopEvent) :
    (Program.each (fun item => do
      loop.emit (first item)
      loop.emit (last item)) items).Keeps discipline rests share fails :=
  keeps_each items fun item _ => keeps_bind (keep.emit (first item)) fun _ => keep.emit (last item)

theorem streamAssistantResponse (context : AgentContext) (model : ModelRef) (reasoning : Option ThinkingLevel) :
    (loop.streamAssistantResponse fuel context model reasoning).Keeps discipline rests share fails := by
  apply keeps_bind (callOr_map_keeps keep.transformContext)
  intro messages
  apply keeps_bind (keep.convertToLlm messages)
  intro llmMessages
  apply keeps_bind (callOr_map_keeps keep.getApiKey)
  intro key
  apply keeps_bind (keep.streamFn _ _ _ _)
  exact fun _ => keeps_loop keep.halts keep.readEvent fuel _

theorem respond (state : LoopState) : (loop.respond fuel state).Keeps discipline rests share fails := by
  apply keeps_bind (keeps_when (keep.emit .turnStart))
  intro _
  apply keeps_bind (keeps_bind (keep.emitAll _ _ _) fun _ => keeps_pure _)
  intro state
  apply keeps_bind (keep.streamAssistantResponse _ _ _)
  rintro ⟨message, context⟩
  refine keeps_bind ?_ fun batch => keeps_pure _
  unfold AgentLoop.answerToolCalls
  split
  · exact keeps_pure _
  · exact keep.executeToolCalls context message

theorem finish {τ : Type} (newMessages : List AgentMessage) :
    (loop.finish newMessages : Program I σ JsString (τ ⊕ List AgentMessage)).Keeps discipline rests share fails :=
  keeps_bind (keep.emit _) fun _ => keeps_pure _

theorem pollQueues (continues : Bool) : (loop.pollQueues continues).Keeps discipline rests share fails := by
  apply keeps_bind (callOr_keeps keep.getSteeringMessages)
  intro steering
  split
  · exact callOr_keeps keep.getFollowUpMessages
  · exact keeps_pure steering

theorem decide (turn : FinishedTurn) : (loop.decide turn).Keeps discipline rests share fails := by
  apply keeps_bind (keep.emit _)
  intro _
  split
  · exact keep.finish _
  · apply keeps_bind (callOr_map_keeps keep.shouldStopAfterTurn)
    intro stop
    split
    · exact keep.finish _
    · apply keeps_bind (callOr_map_keeps keep.prepareNextTurn)
      intro snapshot
      apply keeps_bind (keep.pollQueues _)
      intro queued
      dsimp only
      split
      · exact keeps_pure _
      · exact keep.finish _

theorem runLoop (context : AgentContext) (newMessages : List AgentMessage) (model : ModelRef)
    (reasoning : Option ThinkingLevel) :
    (loop.runLoop fuel context newMessages model reasoning).Keeps discipline rests share fails := by
  apply keeps_bind (callOr_keeps keep.getSteeringMessages)
  intro pendingMessages
  apply keeps_loop keep.halts
  exact fun state => keeps_bind (keep.respond state) fun turn => keep.decide turn

theorem runAgentLoop (prompts : List AgentMessage) (context : AgentContext) (model : ModelRef)
    (reasoning : Option ThinkingLevel) :
    (loop.runAgentLoop fuel prompts context model reasoning).Keeps discipline rests share fails := by
  apply keeps_bind (keep.emit _)
  intro _
  apply keeps_bind (keep.emit _)
  intro _
  exact keeps_bind (keep.emitAll _ _ _) fun _ => keep.runLoop _ _ _ _

theorem runAgentLoopContinue (context : AgentContext) (nonempty : context.messages.isEmpty = false) (model : ModelRef)
    (reasoning : Option ThinkingLevel) :
    (loop.runAgentLoopContinue fuel context model reasoning).Keeps discipline rests share fails := by
  rw [AgentLoop.runAgentLoopContinue, nonempty, if_neg Bool.false_ne_true]
  apply keeps_bind (keep.emit _)
  intro _
  exact keeps_bind (keep.emit _) fun _ => keep.runLoop _ _ _ _

end AgentLoop.CallbacksKeep

end PieAgent.Model
