import PieAgent.Async.Core.Program
import PieAgent.Model.Agent.AgentLoop
import PieAgent.Proofs.Agent.ToolBatches
import PieAgent.Soundness.ToolGate

/-! # Tool results match tool calls

A run of the agent loop is a sequence of turns: pending messages, the answer of the model, and the
results of its tool calls. The results are one for each call, in the order of the calls, or those of a
prefix of the calls when the abort signal ended the batch. An answer that ends the run with an error
keeps its tool calls without results. Both execution modes give the same results.
-/

namespace PieAgent.Soundness

open JavaScript Async Effects Model

variable {I : Interface} {σ : Type} {loop : AgentLoop I σ} {fuel : ℕ} {state : LoopState} {turn : FinishedTurn}
  {stream : StreamState} {message : AssistantMessage} {context : AgentContext}

/-- No batch of the loop finds the abort signal set after one of its calls. -/
def AgentLoop.NeverAborted (loop : AgentLoop I σ) : Prop :=
  ∀ context message world, (loop.world context message).Yields (.ok world) →
    ∀ position, world.aborted position .afterCall = false

/-- The results answer the calls of the message: each has the id and the name of its call. -/
structure Matches (loop : AgentLoop I σ) (message : AssistantMessage) (results : List ToolResultMessage) : Prop where
  leading : results.map (fun result => (result.toolCallId, result.toolName)) <+:
    message.toolCalls.map fun call => (call.id, call.name)
  complete : message.endsRun = false → AgentLoop.NeverAborted loop →
    results.map (fun result => (result.toolCallId, result.toolName)) =
      message.toolCalls.map fun call => (call.id, call.name)
  unanswered : message.endsRun = true → results = []

/-- The new messages of a turn. -/
structure Turn where
  pending : List AgentMessage
  message : AssistantMessage
  toolResults : List ToolResultMessage

def Turn.transcript (turn : Turn) : List AgentMessage :=
  turn.pending ++ AgentMessage.assistant turn.message :: turn.toolResults.map .toolResult

/-- The messages are those of a sequence of turns, each with results that match its calls. -/
def Transcript (loop : AgentLoop I σ) (messages : List AgentMessage) : Prop :=
  ∃ turns : List Turn, messages = turns.flatMap Turn.transcript ∧
    ∀ turn ∈ turns, Matches loop turn.message turn.toolResults

private theorem answerToolCalls_matches {batch : ExecutedToolCallBatch}
    (yields : (loop.answerToolCalls context message).Yields (.ok batch)) : Matches loop message batch.messages := by
  unfold AgentLoop.answerToolCalls at yields
  split at yields
  · next skipped =>
    cases yields
    refine ⟨List.nil_prefix, fun goesOn _ => ?_, fun _ => rfl⟩
    rw [goesOn, Bool.false_or, List.isEmpty_iff] at skipped
    rw [skipped, List.map_nil, List.map_nil]
  · next executed =>
    obtain ⟨goesOn, _⟩ := Bool.or_eq_false_iff.mp (Bool.not_eq_true _ ▸ executed)
    obtain ⟨world, chosen, rest⟩ := yields_bind.mp yields
    obtain ⟨⟨⟩, _, returned⟩ := yields_bind.mp rest
    have answers := answers_of_executeToolCalls (yields_lift.mp returned)
    refine ⟨answers.answered, fun _ never => ?_, fun ends => by rw [goesOn] at ends; cases ends⟩
    apply answers.answered.eq_of_length
    rcases answers.complete with all | ⟨last, _, aborted⟩
    · simpa using all
    · cases aborted.symm.trans (never context message world chosen last)

private theorem finishResponse_yields
    (yields : (loop.finishResponse stream).Yields (.ok (message, context))) :
    ∃ before, context.messages = before ++ [AgentMessage.assistant message] := by
  obtain ⟨final, _, rest⟩ := yields_bind.mp yields
  obtain ⟨⟨⟩, _, rest⟩ := yields_bind.mp rest
  obtain ⟨⟨⟩, _, finished⟩ := yields_bind.mp rest
  cases finished
  split
  · exact ⟨_, rfl⟩
  · exact ⟨_, rfl⟩

private theorem readEvent_yields
    (yields : (loop.readEvent stream).Yields (.ok (.inr (message, context)))) :
    ∃ before, context.messages = before ++ [AgentMessage.assistant message] := by
  obtain ⟨winner, _, rest⟩ := yields_bind.mp yields
  have finished : ∀ {stream : StreamState},
      (Sum.inr (α := StreamState) <$> loop.finishResponse stream).Yields (.ok (.inr (message, context))) →
        ∃ before, context.messages = before ++ [AgentMessage.assistant message] := by
    intro stream yields
    obtain ⟨pair, finished, same⟩ := yields_map.mp yields
    cases same
    exact finishResponse_yields finished
  cases winner with
  | aborted => cases rest
  | exhausted => exact finished rest
  | event event =>
    cases event with
    | start first =>
      obtain ⟨_, _, ended⟩ := yields_bind.mp rest
      cases ended
    | progress type first =>
      dsimp only at rest
      split at rest
      · obtain ⟨_, _, ended⟩ := yields_bind.mp rest
        cases ended
      · cases rest
    | opening type first => cases rest
    | finished type first => exact finished rest

/-- The context that a response leaves ends with the response. -/
private theorem streamAssistantResponse_yields {model : ModelRef} {reasoning : Option ThinkingLevel}
    {start : AgentContext}
    (yields : (loop.streamAssistantResponse fuel start model reasoning).Yields (.ok (message, context))) :
    ∃ before, context.messages = before ++ [AgentMessage.assistant message] := by
  obtain ⟨_, _, rest⟩ := yields_bind.mp yields
  obtain ⟨_, _, rest⟩ := yields_bind.mp rest
  obtain ⟨_, _, rest⟩ := yields_bind.mp rest
  obtain ⟨_, _, rest⟩ := yields_bind.mp rest
  exact @yields_loop _ _ _ _ _ _ (fun _ => True)
    (fun pair => ∃ before, pair.2.messages = before ++ [AgentMessage.assistant pair.1])
    (fun _ _ _ _ => trivial) (fun _ pair _ yields => readEvent_yields yields) _ _ trivial _ rest

/-- What a turn adds: its results follow its message in the context and in the new messages. -/
structure Appended (loop : AgentLoop I σ) (state : LoopState) (turn : FinishedTurn) : Prop where
  context : ∃ before, turn.state.context.messages =
    before ++ AgentMessage.assistant turn.message :: turn.toolResults.map .toolResult
  newMessages : turn.state.newMessages =
    state.newMessages ++ Turn.transcript ⟨state.pendingMessages, turn.message, turn.toolResults⟩
  results : Matches loop turn.message turn.toolResults

theorem respond_appended (yields : (loop.respond fuel state).Yields (.ok turn)) : Appended loop state turn := by
  obtain ⟨⟨⟩, _, rest⟩ := yields_bind.mp yields
  obtain ⟨injected, pending, rest⟩ := yields_bind.mp rest
  obtain ⟨⟨⟩, _, same⟩ := yields_bind.mp pending
  cases same
  obtain ⟨⟨message, context⟩, streamed, rest⟩ := yields_bind.mp rest
  obtain ⟨batch, answered, finished⟩ := yields_bind.mp rest
  cases finished
  obtain ⟨before, ends⟩ := streamAssistantResponse_yields streamed
  refine ⟨⟨before, ?_⟩, ?_, answerToolCalls_matches answered⟩
  · simp [AgentContext.push, ends]
  · simp [Turn.transcript]

private theorem finish_yields {τ : Type} {newMessages : List AgentMessage} {next : τ ⊕ List AgentMessage}
    (yields : (loop.finish newMessages : Program I σ JsString (τ ⊕ List AgentMessage)).Yields (.ok next)) :
    next = .inr newMessages := by
  obtain ⟨_, _, finished⟩ := yields_bind.mp yields
  cases finished
  rfl

private theorem advance_yields {next : LoopState ⊕ List AgentMessage}
    (yields : (loop.advance turn).Yields (.ok next)) :
    (∃ later, next = .inl later ∧ later.newMessages = turn.state.newMessages) ∨ next = .inr turn.state.newMessages := by
  obtain ⟨snapshot, _, rest⟩ := yields_bind.mp yields
  obtain ⟨queued, _, rest⟩ := yields_bind.mp rest
  have kept : (turn.state.prepared snapshot).newMessages = turn.state.newMessages := by cases snapshot <;> rfl
  dsimp only at rest
  split at rest
  · cases rest
    exact Or.inl ⟨_, rfl, kept⟩
  · rw [finish_yields rest, kept]
    exact Or.inr rfl

/-- What follows a turn keeps the new messages. -/
private theorem decide_yields {next : LoopState ⊕ List AgentMessage}
    (yields : (loop.decide turn).Yields (.ok next)) :
    (∃ later, next = .inl later ∧ later.newMessages = turn.state.newMessages) ∨ next = .inr turn.state.newMessages := by
  obtain ⟨_, _, rest⟩ := yields_bind.mp yields
  split at rest
  · exact Or.inr (finish_yields rest)
  · obtain ⟨stop, _, rest⟩ := yields_bind.mp rest
    split at rest
    · exact Or.inr (finish_yields rest)
    · exact advance_yields rest

private theorem Transcript.nil : Transcript loop [] := ⟨[], rfl, List.forall_mem_nil _⟩

private theorem Transcript.concat {messages : List AgentMessage} (transcript : Transcript loop messages) (turn : Turn)
    (matching : Matches loop turn.message turn.toolResults) : Transcript loop (messages ++ turn.transcript) := by
  obtain ⟨turns, rfl, each⟩ := transcript
  refine ⟨turns ++ [turn], by simp, fun other member => ?_⟩
  rcases List.mem_append.mp member with earlier | last
  · exact each other earlier
  · obtain rfl := List.mem_singleton.mp last
    exact matching

/-- A turn extends the transcript, whether the run goes on or ends with it. -/
private theorem runTurn_yields {prompts messages : List AgentMessage} {next : LoopState ⊕ List AgentMessage}
    (so_far : state.newMessages = prompts ++ messages) (transcript : Transcript loop messages)
    (yields : (loop.runTurn fuel state).Yields (.ok next)) :
    ∃ longer, Transcript loop longer ∧
      ((∃ later, next = .inl later ∧ later.newMessages = prompts ++ longer) ∨ next = .inr (prompts ++ longer)) := by
  obtain ⟨turn, responded, decided⟩ := yields_bind.mp yields
  have appended := respond_appended responded
  refine ⟨_, transcript.concat ⟨state.pendingMessages, turn.message, turn.toolResults⟩ appended.results, ?_⟩
  rw [← List.append_assoc, ← so_far, ← appended.newMessages]
  exact decide_yields decided

/-- The messages that the loop returns are the ones it starts with and a transcript. -/
private theorem runLoop_yields {prompts messages : List AgentMessage} {model : ModelRef}
    {reasoning : Option ThinkingLevel}
    (yields : (loop.runLoop fuel context prompts model reasoning).Yields (.ok messages)) :
    ∃ added, messages = prompts ++ added ∧ Transcript loop added := by
  obtain ⟨pending, _, looped⟩ := yields_bind.mp yields
  refine @yields_loop _ _ _ _ _ _ (fun state => ∃ added, state.newMessages = prompts ++ added ∧ Transcript loop added)
    (fun messages => ∃ added, messages = prompts ++ added ∧ Transcript loop added)
    ?_ ?_ _ _ ⟨[], (List.append_nil _).symm, Transcript.nil⟩ _ looped
  · rintro state later ⟨added, so_far, transcript⟩ turned
    obtain ⟨longer, extended, ⟨other, same, kept⟩ | same⟩ := runTurn_yields so_far transcript turned
    · cases same
      exact ⟨longer, kept, extended⟩
    · cases same
  · rintro state messages ⟨added, so_far, transcript⟩ turned
    obtain ⟨longer, extended, ⟨other, same, kept⟩ | same⟩ := runTurn_yields so_far transcript turned
    · cases same
    · cases same
      exact ⟨longer, rfl, extended⟩

theorem runAgentLoop_transcript {prompts messages : List AgentMessage} {model : ModelRef}
    {reasoning : Option ThinkingLevel}
    (yields : (loop.runAgentLoop fuel prompts context model reasoning).Yields (.ok messages)) :
    ∃ added, messages = prompts ++ added ∧ Transcript loop added := by
  obtain ⟨_, _, rest⟩ := yields_bind.mp yields
  obtain ⟨_, _, rest⟩ := yields_bind.mp rest
  obtain ⟨_, _, rest⟩ := yields_bind.mp rest
  exact runLoop_yields rest

theorem runAgentLoopContinue_transcript {messages : List AgentMessage} {model : ModelRef}
    {reasoning : Option ThinkingLevel}
    (yields : (loop.runAgentLoopContinue fuel context model reasoning).Yields (.ok messages)) :
    Transcript loop messages := by
  unfold AgentLoop.runAgentLoopContinue at yields
  split at yields
  · cases yields
  · obtain ⟨_, _, rest⟩ := yields_bind.mp yields
    obtain ⟨_, _, rest⟩ := yields_bind.mp rest
    obtain ⟨added, rfl, transcript⟩ := runLoop_yields rest
    exact transcript

/-- A result without its time. -/
def timeless (result : ToolResultMessage) : ToolResultMessage := { result with timestamp := .millis 0 }

/-- The results of two batches in the same world are the same, whatever mode, order of settling and clock
each of them has; and with one clock, one batch returns if the other does. -/
structure SameResults (world : ToolLoop) (message : AssistantMessage) : Prop where
  results : ∀ mode settling now batch mode' settling' now' batch',
    (ToolLoop.executeToolCalls { world with sequential := mode, settling, now } message).outcome = .ok batch →
    (ToolLoop.executeToolCalls { world with sequential := mode', settling := settling', now := now' } message).outcome =
      .ok batch' →
    batch.messages.map timeless = batch'.messages.map timeless ∧ batch.terminate = batch'.terminate
  returns : ∀ mode settling mode' settling' batch,
    (ToolLoop.executeToolCalls { world with sequential := mode, settling } message).outcome = .ok batch →
    (ToolLoop.executeToolCalls { world with sequential := mode', settling := settling' } message).outcome = .ok batch

theorem sameResults {world : ToolLoop} (calm : ∀ position, world.aborted position .afterCall = false)
    (message : AssistantMessage) : SameResults world message where
  results mode settling now batch mode' settling' now' batch' first second := by
    obtain ⟨finalizedCalls, settles, rfl⟩ :=
      (@executeToolCalls_ok_iff { world with sequential := mode, settling, now } calm).mp first
    obtain ⟨others, again, rfl⟩ :=
      (@executeToolCalls_ok_iff { world with sequential := mode', settling := settling', now := now' } calm).mp second
    obtain rfl := settles.unique again
    refine ⟨?_, rfl⟩
    rw [List.map_map, List.map_map]
    rfl
  returns mode settling mode' settling' batch first := by
    obtain ⟨finalizedCalls, settles, rfl⟩ :=
      (@executeToolCalls_ok_iff { world with sequential := mode, settling } calm).mp first
    exact (@executeToolCalls_ok_iff { world with sequential := mode', settling := settling' } calm).mpr
      ⟨finalizedCalls, settles.unscheduled, rfl⟩

/-- Tool results match tool calls. After every turn the results stand behind the answer in the context and
in the new messages, and match its calls; what a run returns is its prompts and such turns; and in a world
where the outcome of a call depends on its position only, the modes give the same results. -/
theorem toolResults_match (loop : AgentLoop I σ) (fuel : ℕ) :
    (∀ state turn, (loop.respond fuel state).Yields (.ok turn) → Appended loop state turn) ∧
      (∀ prompts context model reasoning messages,
        (loop.runAgentLoop fuel prompts context model reasoning).Yields (.ok messages) →
          ∃ added, messages = prompts ++ added ∧ Transcript loop added) ∧
      (∀ context model reasoning messages,
        (loop.runAgentLoopContinue fuel context model reasoning).Yields (.ok messages) → Transcript loop messages) ∧
      ∀ world message, (∀ position, world.aborted position .afterCall = false) → SameResults world message :=
  ⟨fun _ _ => respond_appended, fun _ _ _ _ _ => runAgentLoop_transcript,
    fun _ _ _ _ => runAgentLoopContinue_transcript, fun _ message calm => sameResults calm message⟩

/-- An answer with one tool call that the provider ended with an error. -/
private def failedAnswer : AssistantMessage where
  content := [.toolCall { id := js "a", name := js "read", arguments := .obj [] }]
  api := js "openai-responses"
  provider := js "openai"
  model := js "gpt"
  usage := ⟨1, 1, 0, 0, 2⟩
  stopReason := .error
  errorMessage := some (js "overloaded")
  timestamp := .millis 0

/-- A world without tools, in which nothing throws and nothing is aborted. -/
private def calmWorld : ToolLoop where
  tools := []
  sequential := false
  validateToolArguments _ _ call := .ok call.arguments
  beforeToolCall := none
  onControlPlanePrompt := none
  afterToolCall := none
  emit _ _ := .ok ()
  aborted _ _ := false
  sha256 _ := []
  settling := []
  now := 0

/-- A loop whose model gives the failed answer. -/
private def failingLoop : AgentLoop ⟨Empty, nofun⟩ Unit where
  toolExecutionSequential := false
  apiKey := none
  emit _ := pure ()
  transformContext := none
  convertToLlm messages := pure (Model.convertToLlm messages)
  getApiKey := none
  streamFn _ _ _ _ := pure ()
  race := pure .exhausted
  result := pure failedAnswer
  world _ _ := pure calmWorld
  observe _ := pure ()
  shouldStopAfterTurn := none
  prepareNextTurn := none
  getSteeringMessages := none
  getFollowUpMessages := none

/-- A run that is not aborted can leave a tool call without a result: the answer ended with an error. -/
theorem failedAnswer_unanswered :
    ¬ ∀ (loop : AgentLoop ⟨Empty, nofun⟩ Unit) (fuel : ℕ) (state : LoopState) (turn : FinishedTurn),
      AgentLoop.NeverAborted loop → (loop.respond fuel state).Yields (.ok turn) →
        turn.toolResults.map (·.toolCallId) = turn.message.toolCalls.map (·.id) := by
  intro always
  have never : AgentLoop.NeverAborted failingLoop := by
    intro context message world chosen position
    cases chosen
    rfl
  have same := always failingLoop 1 ⟨⟨[], [], []⟩, [], ⟨[], []⟩, none, true, []⟩
    ⟨⟨⟨[], [.assistant failedAnswer], []⟩, [.assistant failedAnswer], ⟨[], []⟩, none, false, []⟩, failedAnswer, [], false⟩
    never rfl
  cases same

end PieAgent.Soundness
