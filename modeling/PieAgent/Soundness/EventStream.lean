import PieAgent.Model.Agent.EventStream
import PieAgent.Proofs.Agent.AgentLoop
import PieAgent.Proofs.Agent.ToolBatches

/-! # The event stream of a run ends

The stream is ended by the callback of `then`, and nothing catches a rejection of the loop: when a
callback throws, a response rejects or the abort signal wins the race against it, the loop rejects and
the stream stays open. In every run without such an answer the loop that has settled has ended its
stream: the result is there, no pull waits, and the iteration finishes after the queued events.
-/

namespace PieAgent.Soundness

open JavaScript Async Effects Model

/-- The answer makes the loop throw: a rejection, or an abort that wins the race. -/
def Fails : (request : LoopRequest) → request.Answer → Prop
  | .emitted, _ => False
  | .getSteeringMessages, answer => ∃ error, answer = .error error
  | .getFollowUpMessages, answer => ∃ error, answer = .error error
  | .transformContext _, answer => ∃ error, answer = .error error
  | .convertToLlm _, answer => ∃ error, answer = .error error
  | .getApiKey _, answer => ∃ error, answer = .error error
  | .streamFn .., answer => ∃ error, answer = .error error
  | .race, answer => (∃ error, answer = .error error) ∨ answer = .ok .aborted
  | .result, answer => ∃ error, answer = .error error
  | .executeToolCalls .., _ => False
  | .shouldStopAfterTurn _, answer => ∃ error, answer = .error error
  | .prepareNextTurn _, answer => ∃ error, answer = .error error
  | .resolved, _ => False

abbrev StreamPool := Pool LoopInterface AgentStream JsString Unit StreamCall

/-- An event that answers a request, if it does, with no failure. -/
def Calm (pool : StreamPool) : Pool.Event LoopInterface StreamCall → Prop
  | .begin _ => True
  | .resume index answers => ∀ call request next, pool.threads[index]? = some ⟨call, .ask request next⟩ →
    ¬ Fails request (answers request)

/-- The loop behind the stream of a call of `agentLoop` or `agentLoopContinue`. -/
inductive Producer (settings : LoopSettings) (fuel : ℕ) : StreamProgram Unit → Prop
  | agentLoop (prompts : List AgentMessage) (context : AgentContext) (model : ModelRef)
      (reasoning : Option ThinkingLevel) :
      Producer settings fuel (Model.agentLoop settings fuel prompts context model reasoning)
  | agentLoopContinue {context : AgentContext} {model : ModelRef} {reasoning : Option ThinkingLevel}
      {producer : StreamProgram Unit} :
      Model.agentLoopContinue settings fuel context model reasoning = .ok producer → Producer settings fuel producer

/-- The stream has ended: its result is settled, and no pull waits. -/
structure Ended (stream : AgentStream) : Prop where
  done : stream.done = true
  settled : stream.finalResult.isSome = true
  answered : stream.waiting = []

section Stream

variable {stream : AgentStream}

theorem Ended.push (ended : Ended stream) (event : LoopEvent) : Ended (stream.push completion event) := by
  rw [EventStream.push, if_pos ended.done]
  exact ended

theorem Ended.finish (stream : AgentStream) (messages : List AgentMessage) : Ended (stream.finish messages) where
  done := rfl
  settled := by simp [EventStream.finish, EventStream.resolve]
  answered := rfl

theorem Ended.pull (ended : Ended stream) : Ended stream.pull := by
  unfold EventStream.pull
  split
  · exact ⟨ended.done, ended.settled, ended.answered⟩
  · rw [if_pos ended.done]
    exact ⟨ended.done, ended.settled, ended.answered⟩

/-- The iteration of an ended stream finishes: after the queued events a pull is answered with none. -/
theorem Ended.iteration (ended : Ended stream) :
    ∃ number, (EventStream.pull^[stream.queue.length + 1] stream).answers.getLast? = some (number, none) := by
  obtain ⟨length, same⟩ : ∃ length, stream.queue.length = length := ⟨_, rfl⟩
  rw [same]
  induction length generalizing stream with
  | zero =>
    have empty := List.eq_nil_of_length_eq_zero same
    refine ⟨stream.pulls, ?_⟩
    rw [Function.iterate_one, EventStream.pull, empty]
    simp [ended.done]
  | succ length ih =>
    rw [Function.iterate_succ_apply]
    apply ih ended.pull
    obtain ⟨event, queue, queued⟩ := List.exists_cons_of_length_eq_add_one same
    rw [EventStream.pull, queued]
    rw [queued, List.length_cons] at same
    exact Nat.succ.inj same

end Stream

section Run

variable {settings : LoopSettings} {fuel : ℕ} {producer : StreamProgram Unit}

/-- The loop holds nothing while it runs, and one share when it has ended the stream. -/
private def discipline : Discipline LoopInterface AgentStream StreamCall ℕ where
  invariant total stream := 0 < total → Ended stream
  allowed _ request answer := ¬ Fails request answer
  admits _ call := call = .pull

private def anywhere (_ : Option LoopRequest) (_ : ℕ) : Prop := True

private def settles : StreamCall → Except JsString Unit → ℕ → Prop
  | .produce, outcome, share => outcome = .ok () ∧ 0 < share
  | .pull, _, _ => True

/-- A run that never throws. -/
private abbrev Calmly {α : Type} (program : StreamProgram α) : Prop :=
  program.Keeps discipline anywhere 0 fun _ => False

private theorem pushEvent_calmly (event : LoopEvent) : Calmly (pushEvent event) :=
  keeps_update fun _ _ kept positive => (kept positive).push event

private theorem emitToStream_calmly (event : LoopEvent) : Calmly (emitToStream event) :=
  keeps_bind (pushEvent_calmly event) fun _ => keeps_request (I := LoopInterface) trivial

private theorem callback_calmly {α : Type} {request : LoopRequest} {next : request.Answer → StreamProgram α}
    (returns : ∀ answer, ¬ Fails request answer → Calmly (next answer)) : Calmly (await request >>= next) :=
  keeps_ask (I := LoopInterface) trivial fun answer _ allowed => returns answer allowed

private theorem lift_calmly {α : Type} {answer : Except JsString α} (fine : ¬ ∃ error, answer = .error error) :
    Calmly (Program.lift answer : StreamProgram α) :=
  keeps_lift fun error same => fine ⟨error, same⟩

private theorem configured_calmly {α β : Type} {present : Bool} {callback : β → StreamProgram α}
    (calmly : ∀ argument, Calmly (callback argument)) :
    ∀ function, configured present callback = some function → ∀ argument, Calmly (function argument) := by
  intro function same
  unfold configured at same
  split at same
  · cases same
    exact calmly
  · cases same

private theorem configured_queue_calmly {present : Bool} {callback : StreamProgram (List AgentMessage)}
    (calmly : Calmly callback) : ∀ poll, configured present callback = some poll → Calmly poll := by
  intro poll same
  unfold configured at same
  split at same
  · cases same
    exact calmly
  · cases same

private theorem result_calmly : Calmly settings.loop.result :=
  @callback_calmly _ LoopRequest.result _ fun _ fine => lift_calmly fine

private theorem readEvent_calmly (stream : StreamState) : Calmly (settings.loop.readEvent stream) := by
  apply readEvent_keeps emitToStream_calmly result_calmly
  intro next goesOn frame state kept
  rw [wp_bind]
  show Program.wp _ _ _ (await .race >>= fun answer => Program.lift answer) frame state
  rw [wp_bind]
  refine wp_request (I := LoopInterface) 0 trivial kept fun answer frame state kept allowed => ?_
  rw [follows_ok, wp_lift]
  cases answer with
  | error error => exact absurd (Or.inl ⟨error, rfl⟩) allowed
  | ok winner =>
    rcases goesOn winner with rfl | calmly
    · exact absurd (Or.inr rfl) allowed
    · exact calmly frame state kept

/-- A world whose sink accepts every event, as the sink of a stream does. -/
private def accepting (world : ToolLoop) : ToolLoop := { world with emit := fun _ _ => .ok () }

private theorem batch_calmly (context : AgentContext) (message : AssistantMessage) (world : ToolLoop) :
    Calmly (Program.lift ((settings.loop.toolLoop context (accepting world)).executeToolCalls message).outcome) := by
  obtain ⟨batch, returned⟩ :=
    @executeToolCalls_returns (settings.loop.toolLoop context (accepting world)) (fun _ _ => rfl) message
  rw [returned]
  exact keeps_pure batch

private theorem executeToolCalls_calmly (context : AgentContext) (message : AssistantMessage) :
    Calmly (settings.loop.executeToolCalls context message) := by
  intro frame state kept
  rw [AgentLoop.executeToolCalls, wp_bind]
  show Program.wp _ _ _ (await (.executeToolCalls context message) >>= fun world => pure (accepting world)) frame state
  rw [wp_bind]
  refine wp_request (I := LoopInterface) 0 trivial kept fun world frame state kept _ => ?_
  rw [follows_ok, wp_pure, follows_ok]
  have pushes := keeps_bind (keeps_each (emittedEvents ((settings.loop.toolLoop context (accepting world)).executeToolCalls
    message).trace) fun event _ => pushEvent_calmly (.tool event)) fun _ => @batch_calmly settings context message world
  exact pushes frame state kept

private theorem callbacks_calmly : settings.loop.CallbacksKeep discipline anywhere 0 fun _ => False where
  halts := trivial
  emit := emitToStream_calmly
  transformContext := configured_calmly fun messages =>
    @callback_calmly _ (LoopRequest.transformContext messages) _ fun _ fine => lift_calmly fine
  convertToLlm messages := @callback_calmly _ (LoopRequest.convertToLlm messages) _ fun _ fine => lift_calmly fine
  getApiKey := configured_calmly fun provider =>
    @callback_calmly _ (LoopRequest.getApiKey provider) _ fun _ fine => lift_calmly fine
  streamFn model reasoning context key :=
    @callback_calmly _ (LoopRequest.streamFn model reasoning context key) _ fun _ fine => lift_calmly fine
  readEvent := readEvent_calmly
  executeToolCalls := executeToolCalls_calmly
  shouldStopAfterTurn := configured_calmly fun turn =>
    @callback_calmly _ (LoopRequest.shouldStopAfterTurn turn) _ fun _ fine => lift_calmly fine
  prepareNextTurn := configured_calmly fun turn =>
    @callback_calmly _ (LoopRequest.prepareNextTurn turn) _ fun _ fine => lift_calmly fine
  getSteeringMessages := configured_queue_calmly <|
    @callback_calmly _ LoopRequest.getSteeringMessages _ fun _ fine => lift_calmly fine
  getFollowUpMessages := configured_queue_calmly <|
    @callback_calmly _ LoopRequest.getFollowUpMessages _ fun _ fine => lift_calmly fine

/-- The loop behind a stream never throws, and it ends the stream. -/
private theorem producer_calmly (producing : Producer settings fuel producer) (frame : ℕ) (stream : AgentStream)
    (kept : discipline.invariant frame stream) :
    producer.wp discipline anywhere
      (fun outcome frame stream => ∃ share, settles .produce outcome share ∧
        discipline.invariant (share + frame) stream) frame stream := by
  have ends : ∀ run : StreamProgram (List AgentMessage), Calmly run →
      (endStreamAfter run).wp discipline anywhere
        (fun outcome frame stream => ∃ share, settles .produce outcome share ∧
          discipline.invariant (share + frame) stream) frame stream := by
    intro run calmly
    rw [endStreamAfter, wp_bind]
    refine (calmly frame stream (by rwa [Nat.zero_add])).mono fun outcome frame stream ends => ?_
    cases outcome with
    | error error => exact (ends.1 error rfl).elim
    | ok messages =>
      rw [follows_ok, wp_bind]
      refine wp_request (I := LoopInterface) 0 trivial ends.2 fun _ frame stream _ _ => ?_
      exact ⟨1, ⟨rfl, Nat.one_pos⟩, fun _ => Ended.finish stream messages⟩
  cases producing with
  | agentLoop prompts context model reasoning =>
    exact ends _ (callbacks_calmly.runAgentLoop prompts context model reasoning)
  | agentLoopContinue opened =>
    unfold Model.agentLoopContinue at opened
    split at opened
    · cases opened
    · next nonempty =>
      cases opened
      exact ends _ (callbacks_calmly.runAgentLoopContinue _ (by simpa using nonempty) _ _)

private theorem disciplined (producer : StreamProgram Unit) :
    Disciplined discipline (fun _ => anywhere) settles (streamEntry producer) := by
  intro call frame stream kept admitted
  cases admitted
  exact ⟨0, trivial, fun positive => (kept (by omega)).pull⟩

/-- A calm run, with no second loop behind the stream, is one that the discipline permits. -/
private theorem permitted_of_calm {pool : StreamPool} {events : List (Pool.Event LoopInterface StreamCall)}
    (single : .begin .produce ∉ events) (calm : Machine.Meets (Pool.step? (streamEntry producer)) Calm pool events) :
    Machine.Meets (Pool.step? (streamEntry producer)) (Pool.Permitted discipline) pool events := by
  induction events generalizing pool with
  | nil => exact Machine.meets_nil
  | cons event events ih =>
    refine ⟨?_, fun next stepped => ih (fun member => single (List.mem_cons_of_mem _ member)) (calm.tail stepped)⟩
    cases event with
    | begin call =>
      cases call with
      | produce => exact absurd List.mem_cons_self single
      | pull => rfl
    | resume index answers => exact calm.1

end Run

section Runs

/-- The answer of a model that stops at once. -/
private def stopped : AssistantMessage where
  content := [.text { text := js "done" }]
  api := js "openai-responses"
  provider := js "openai"
  model := js "gpt"
  usage := ⟨1, 1, 0, 0, 2⟩
  stopReason := .stop
  timestamp := .millis 0

/-- A world without tools. -/
private def toolless : ToolLoop where
  tools := []
  sequential := false
  validateToolArguments _ _ call := .ok call.arguments
  beforeToolCall := none
  onControlPlanePrompt := none
  afterToolCall := none
  emit _ _ := .ok ()
  aborted _ _ := false
  sha256 _ := []
  settling := []
  now := 0

/-- Answers without a failure, but for the end of the race. -/
private def answersWith (winner : RaceWinner) : (request : LoopRequest) → request.Answer
  | .emitted => ()
  | .getSteeringMessages => .ok []
  | .getFollowUpMessages => .ok []
  | .transformContext messages => .ok messages
  | .convertToLlm messages => .ok (convertToLlm messages)
  | .getApiKey _ => .ok none
  | .streamFn .. => .ok ()
  | .race => .ok winner
  | .result => .ok stopped
  | .executeToolCalls .. => toolless
  | .shouldStopAfterTurn _ => .ok false
  | .prepareNextTurn _ => .ok none
  | .resolved => ()

private def plainLoop : StreamProgram Unit := Model.agentLoop {} 1 [] ⟨[], [], []⟩ ⟨js "openai", js "gpt"⟩ none

/-- A consumer pulls, the answer of the model is read, and the loop returns. -/
private def plainRun : List (Pool.Event LoopInterface StreamCall) :=
  .begin .pull :: List.replicate 11 (.resume 0 (answersWith .exhausted))

private theorem plainRun_calm (pool : StreamPool) (count : ℕ) :
    Machine.Meets (Pool.step? (streamEntry plainLoop)) Calm pool
      (List.replicate count (.resume 0 (answersWith .exhausted))) := by
  induction count generalizing pool with
  | zero => exact Machine.meets_nil
  | succ count ih =>
    refine ⟨fun call request next found fails => ?_, fun next _ => ih next⟩
    cases request <;> simp [Fails, answersWith] at fails

end Runs

end PieAgent.Soundness
