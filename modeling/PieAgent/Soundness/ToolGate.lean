import PieAgent.Proofs.Agent.ToolGate

/-! # The tool gate is fail-closed

In both execution modes, and for every answer or throw of the classifier, the hook and the prompt, a
tool is invoked only for a call that passed every stage of the gate. The results of a batch answer
its calls in order, and a call whose tool was not invoked has an error result. An abort signal makes
the batch leave out the calls it has not reached: these are not invoked, and have no result either.
-/

namespace PieAgent.Soundness

open JavaScript Effects Model

/-- A tool is invoked only for a call of the message, and only after that call was cleared. -/
def Gated (loop : ToolLoop) (toolCalls : List ToolCall) (earlier : List Observation) : Observation → Prop
  | .executed position tool call args =>
    toolCalls[position]? = some call ∧ Cleared loop earlier position tool call args
  | _ => True

/-- The results `messages` answer a prefix of the calls, left early only by an abort; a result without
an error belongs to a call whose tool was invoked. -/
structure Answers (loop : ToolLoop) (toolCalls : List ToolCall) (seen : List Observation)
    (messages : List ToolResultMessage) : Prop where
  answered : messages.map (fun message => (message.toolCallId, message.toolName)) <+:
    toolCalls.map fun call => (call.id, call.name)
  complete : messages.length = toolCalls.length ∨
    ∃ last, messages.length = last + 1 ∧ loop.aborted last .afterCall = true
  refused : ∀ position call message, toolCalls[position]? = some call → messages[position]? = some message →
    (∀ tool args, .executed position tool call args ∉ seen) → message.isError = true

variable {loop : ToolLoop} {toolCalls : List ToolCall} {earlier : List Observation} {position : ℕ}

private theorem gated_of_avoids {α : Type} {run : Run α} (harmless : Traced.Avoids Observation.IsExecution run) :
    Traced.Guarded (Gated loop toolCalls) earlier run := by
  refine Traced.Guarded.of_avoids harmless fun earlier seen other => ?_
  cases seen with
  | executed => exact absurd trivial other
  | _ => trivial

private theorem gated_log_executed {tool : AgentTool} {call : ToolCall} {args : Json}
    (found : toolCalls[position]? = some call) (cleared : Cleared loop earlier position tool call args) :
    Traced.Guarded (Gated loop toolCalls) earlier (Traced.log [.executed position tool call args] : Run Unit) := by
  refine Traced.Guarded.log fun more seen member => ?_
  obtain rfl := List.mem_singleton.mp member
  exact ⟨found, cleared.mono (List.subset_append_left _ _)⟩

/-- The calls `handled` are a prefix of the calls, left early only by an abort. -/
def Reaches (loop : ToolLoop) (position : ℕ) (calls handled : List ToolCall) : Prop :=
  handled <+: calls ∧
    (handled.length = calls.length ∨
      ∃ last, handled.length = last + 1 ∧ loop.aborted (position + last) .afterCall = true)

private theorem Reaches.nil : Reaches loop position [] [] := ⟨List.prefix_rfl, Or.inl rfl⟩

private theorem Reaches.stop {call : ToolCall} {calls : List ToolCall}
    (aborted : loop.aborted position .afterCall = true) : Reaches loop position (call :: calls) [call] :=
  ⟨⟨calls, rfl⟩, Or.inr ⟨0, rfl, aborted⟩⟩

private theorem Reaches.cons {call : ToolCall} {calls handled : List ToolCall}
    (rest : Reaches loop (position + 1) calls handled) :
    Reaches loop position (call :: calls) (call :: handled) := by
  obtain ⟨leading, complete⟩ := rest
  refine ⟨List.cons_prefix_cons.mpr ⟨rfl, leading⟩, complete.imp (congrArg (· + 1)) ?_⟩
  rintro ⟨last, length, aborted⟩
  exact ⟨last + 1, congrArg (· + 1) length, by rwa [Nat.add_right_comm] at aborted⟩

private theorem Reaches.getElem? {calls handled : List ToolCall} (reaches : Reaches loop position calls handled)
    {index : ℕ} {call : ToolCall} (present : handled[index]? = some call) : calls[index]? = some call := by
  obtain ⟨inside, same⟩ := List.getElem?_eq_some_iff.mp present
  rw [List.prefix_iff_getElem?.mp reaches.1 index inside, same]

/-- An outcome without an error belongs to an invoked call. -/
def OnlyExecutedSucceed (seen : List Observation) (position : ℕ) (finalizedCalls : List FinalizedToolCall) : Prop :=
  ∀ index finalized, finalizedCalls[index]? = some finalized → finalized.isError = false →
    ∃ tool args, .executed (position + index) tool finalized.toolCall args ∈ seen

private theorem answers_of_finalized {seen : List Observation} {finalizedCalls : List FinalizedToolCall}
    (reaches : Reaches loop 0 toolCalls (finalizedCalls.map (·.toolCall)))
    (executed : OnlyExecutedSucceed seen 0 finalizedCalls) :
    Answers loop toolCalls seen (finalizedCalls.map (createToolResultMessage loop.now)) where
  answered := by
    have leading := reaches.1.map fun call => (call.id, call.name)
    rw [List.map_map] at leading ⊢
    exact leading
  complete := by
    simpa using reaches.2
  refused position call message found answered unexecuted := by
    rw [List.getElem?_map, Option.map_eq_some_iff] at answered
    obtain ⟨finalized, present, rfl⟩ := answered
    obtain rfl : call = finalized.toolCall :=
      Option.some.inj (found.symm.trans (reaches.getElem? (by rw [List.getElem?_map, present, Option.map_some])))
    by_contra fine
    obtain ⟨tool, args, member⟩ := executed position finalized present (by simpa [createToolResultMessage] using fine)
    exact unexecuted tool args (by rwa [Nat.zero_add] at member)

section Sequential

private theorem runCall_gated {call : ToolCall} (found : toolCalls[position]? = some call) :
    Traced.Guarded (Gated loop toolCalls) earlier (loop.runCall position call) := by
  refine Traced.Guarded.bind (gated_of_avoids emitToolExecutionStart_avoids) fun _ _ =>
    Traced.Guarded.bind (gated_of_avoids prepareToolCall_avoids) fun preparation prepared => ?_
  cases preparation with
  | immediate result isError => exact gated_of_avoids (Traced.Avoids.pure _)
  | prepared tool args =>
    refine Traced.Guarded.bind (gated_log_executed found ?_) fun _ _ => gated_of_avoids completeCall_avoids
    exact (prepareToolCall_prepared prepared).mono (List.subset_append_right _ _)

private theorem runSequential_gated {calls : List ToolCall} (rest : toolCalls.drop position = calls) :
    Traced.Guarded (Gated loop toolCalls) earlier (loop.runSequential position calls) := by
  induction calls generalizing position earlier with
  | nil => exact gated_of_avoids (Traced.Avoids.pure _)
  | cons call calls ih =>
    have found : toolCalls[position]? = some call := by rw [← List.head?_drop, rest, List.head?_cons]
    refine Traced.Guarded.bind (runCall_gated found) fun finalized _ =>
      Traced.Guarded.bind (gated_of_avoids (emitToolExecutionEnd_avoids _)) fun _ _ =>
      Traced.Guarded.bind (gated_of_avoids (emitToolResultMessage_avoids _)) fun _ _ => ?_
    split
    · exact gated_of_avoids (Traced.Avoids.pure _)
    · refine Traced.Guarded.bind (ih ?_) fun _ _ => gated_of_avoids (Traced.Avoids.pure _)
      rw [← List.drop_drop, rest, List.drop_one, List.tail_cons]

private theorem runCall_ok {call : ToolCall} {finalized : FinalizedToolCall}
    (success : (loop.runCall position call).outcome = .ok finalized) :
    finalized.toolCall = call ∧ (finalized.isError = false →
      ∃ tool args, .executed position tool call args ∈ (loop.runCall position call).trace) := by
  obtain ⟨_, _, rest, first⟩ := Traced.bind_ok success
  obtain ⟨preparation, prepared, rest, second⟩ := Traced.bind_ok rest
  rw [ToolLoop.runCall, first, second]
  cases preparation with
  | immediate result isError =>
    cases rest
    refine ⟨rfl, fun fine => ?_⟩
    cases fine.symm.trans (prepareToolCall_immediate prepared)
  | prepared tool args =>
    obtain ⟨_, _, completed, third⟩ := Traced.bind_ok rest
    refine ⟨completeCall_toolCall completed, fun _ => ⟨tool, args, ?_⟩⟩
    simp only [third, Traced.trace_log, List.mem_append, List.mem_singleton, true_or, or_true]

private theorem runSequential_ok {calls : List ToolCall} {finalizedCalls : List FinalizedToolCall}
    (success : (loop.runSequential position calls).outcome = .ok finalizedCalls) :
    Reaches loop position calls (finalizedCalls.map (·.toolCall)) ∧
      OnlyExecutedSucceed (loop.runSequential position calls).trace position finalizedCalls := by
  induction calls generalizing position finalizedCalls with
  | nil =>
    cases success
    exact ⟨Reaches.nil, fun index finalized present => nomatch present⟩
  | cons call calls ih =>
    obtain ⟨first, ran, rest, one⟩ := Traced.bind_ok success
    obtain ⟨_, _, rest, two⟩ := Traced.bind_ok rest
    obtain ⟨_, _, rest, three⟩ := Traced.bind_ok rest
    obtain ⟨rfl, executed⟩ := runCall_ok ran
    rw [ToolLoop.runSequential, one, two, three]
    split at rest
    · next aborted =>
      cases rest
      refine ⟨Reaches.stop aborted, fun index finalized present fine => ?_⟩
      obtain ⟨rfl, rfl⟩ : index = 0 ∧ first = finalized := by
        cases index with
        | zero => exact ⟨rfl, Option.some.inj present⟩
        | succ index => cases present
      obtain ⟨tool, args, member⟩ := executed fine
      exact ⟨tool, args, List.mem_append_left _ member⟩
    · next goesOn =>
      obtain ⟨others, reached, finished, four⟩ := Traced.bind_ok rest
      cases finished
      obtain ⟨reaches, succeeded⟩ := ih reached
      refine ⟨Reaches.cons reaches, fun index finalized present fine => ?_⟩
      rw [if_neg goesOn, four]
      cases index with
      | zero =>
        cases present
        obtain ⟨tool, args, member⟩ := executed fine
        exact ⟨tool, args, List.mem_append_left _ member⟩
      | succ index =>
        obtain ⟨tool, args, member⟩ := succeeded index finalized present fine
        rw [Nat.add_right_comm, Nat.add_assoc] at member
        exact ⟨tool, args, by simp [member]⟩

private theorem executeToolCallsSequential_gated :
    Traced.Guarded (Gated loop toolCalls) [] (loop.executeToolCallsSequential toolCalls) :=
  Traced.Guarded.bind (runSequential_gated rfl) fun _ _ => gated_of_avoids (Traced.Avoids.pure _)

private theorem executeToolCallsSequential_answers {batch : ExecutedToolCallBatch}
    (success : (loop.executeToolCallsSequential toolCalls).outcome = .ok batch) :
    Answers loop toolCalls (loop.executeToolCallsSequential toolCalls).trace batch.messages := by
  obtain ⟨finalizedCalls, ran, finished, trace⟩ := Traced.bind_ok success
  cases finished
  obtain ⟨reaches, succeeded⟩ := runSequential_ok ran
  rw [ToolLoop.executeToolCallsSequential, trace, Traced.trace_pure, List.append_nil]
  exact answers_of_finalized reaches succeeded

end Sequential

section Parallel

/-- The call of an entry. -/
def entryCall : BatchEntry → ToolCall
  | .finished finalized => finalized.toolCall
  | .waiting _ call _ => call

private theorem enterCall_avoids {call : ToolCall} :
    Traced.Avoids Observation.IsExecution (loop.enterCall position call) := by
  refine Traced.Avoids.bind emitToolExecutionStart_avoids fun _ _ =>
    Traced.Avoids.bind prepareToolCall_avoids fun preparation _ => ?_
  cases preparation with
  | immediate result isError =>
    exact Traced.Avoids.bind (emitToolExecutionEnd_avoids _) fun _ _ => Traced.Avoids.pure _
  | prepared tool args => exact Traced.Avoids.pure _

private theorem prepareParallel_avoids {calls : List ToolCall} :
    Traced.Avoids Observation.IsExecution (loop.prepareParallel position calls) := by
  induction calls generalizing position with
  | nil => exact Traced.Avoids.pure _
  | cons call calls ih =>
    refine Traced.Avoids.bind enterCall_avoids fun entry _ => ?_
    split
    · exact Traced.Avoids.pure _
    · exact Traced.Avoids.bind ih fun _ _ => Traced.Avoids.pure _

/-- What preparation knows of an entry: a finished one has an error, a waiting one was cleared. -/
def EntrySound (loop : ToolLoop) (seen : List Observation) (position : ℕ) : BatchEntry → Prop
  | .finished finalized => finalized.isError = true
  | .waiting tool call args => Cleared loop seen position tool call args

private theorem EntrySound.mono {seen more : List Observation} {entry : BatchEntry}
    (sound : EntrySound loop seen position entry) (subset : seen ⊆ more) : EntrySound loop more position entry := by
  cases entry with
  | finished finalized => exact sound
  | waiting tool call args => exact Cleared.mono sound subset

private theorem enterCall_ok {call : ToolCall} {entry : BatchEntry}
    (success : (loop.enterCall position call).outcome = .ok entry) :
    entryCall entry = call ∧ EntrySound loop (loop.enterCall position call).trace position entry := by
  obtain ⟨_, _, rest, first⟩ := Traced.bind_ok success
  obtain ⟨preparation, prepared, rest, second⟩ := Traced.bind_ok rest
  rw [ToolLoop.enterCall, first, second]
  cases preparation with
  | immediate result isError =>
    obtain ⟨_, _, finished, _⟩ := Traced.bind_ok rest
    cases finished
    exact ⟨rfl, prepareToolCall_immediate prepared⟩
  | prepared tool args =>
    cases rest
    exact ⟨rfl, (prepareToolCall_prepared prepared).mono fun seen member => by simp [member]⟩

private theorem prepareParallel_ok {calls : List ToolCall} {entries : List BatchEntry}
    (success : (loop.prepareParallel position calls).outcome = .ok entries) :
    Reaches loop position calls (entries.map entryCall) ∧
      ∀ index entry, entries[index]? = some entry →
        EntrySound loop (loop.prepareParallel position calls).trace (position + index) entry := by
  induction calls generalizing position entries with
  | nil =>
    cases success
    exact ⟨Reaches.nil, fun index entry present => nomatch present⟩
  | cons call calls ih =>
    obtain ⟨first, entered, rest, one⟩ := Traced.bind_ok success
    obtain ⟨rfl, sound⟩ := enterCall_ok entered
    rw [ToolLoop.prepareParallel, one]
    split at rest
    · next aborted =>
      cases rest
      refine ⟨Reaches.stop aborted, fun index entry present => ?_⟩
      cases index with
      | zero =>
        cases present
        exact sound.mono (List.subset_append_left _ _)
      | succ index => cases present
    · next goesOn =>
      obtain ⟨others, reached, finished, two⟩ := Traced.bind_ok rest
      cases finished
      obtain ⟨reaches, sounds⟩ := ih reached
      refine ⟨Reaches.cons reaches, fun index entry present => ?_⟩
      rw [if_neg goesOn, two]
      cases index with
      | zero =>
        cases present
        exact sound.mono (List.subset_append_left _ _)
      | succ index =>
        have later := sounds index entry present
        rw [Nat.add_right_comm, Nat.add_assoc] at later
        exact later.mono fun seen member => by simp [member]

private theorem settleEntry_avoids (entry : BatchEntry) :
    Traced.Avoids Observation.IsExecution (loop.settleEntry position entry) := by
  cases entry with
  | finished finalized => exact Traced.Avoids.pure _
  | waiting tool call args =>
    exact Traced.Avoids.bind completeCall_avoids fun _ _ =>
      Traced.Avoids.bind (emitToolExecutionEnd_avoids _) fun _ _ => Traced.Avoids.pure _

private theorem emitResults_avoids (finalizedCalls : List FinalizedToolCall) :
    Traced.Avoids Observation.IsExecution (loop.emitResults position finalizedCalls) := by
  induction finalizedCalls generalizing position with
  | nil => exact Traced.Avoids.pure _
  | cons finalized rest ih => exact Traced.Avoids.bind (emitToolResultMessage_avoids _) fun _ _ => ih

private theorem mem_invocations {entries : List BatchEntry} {seen : Observation} :
    seen ∈ entries.zipIdx.flatMap (fun (entry, position) => entry.invocation position) ↔
      ∃ position tool call args, entries[position]? = some (.waiting tool call args) ∧
        seen = .executed position tool call args := by
  rw [List.mem_flatMap]
  constructor
  · rintro ⟨⟨entry, position⟩, member, invoked⟩
    have present := List.mem_zipIdx_iff_getElem?.mp member
    cases entry with
    | finished finalized => cases invoked
    | waiting tool call args => exact ⟨position, tool, call, args, present, List.mem_singleton.mp invoked⟩
  · rintro ⟨position, tool, call, args, present, rfl⟩
    exact ⟨(.waiting tool call args, position), List.mem_zipIdx_iff_getElem?.mpr present, List.mem_singleton.mpr rfl⟩

private theorem executeToolCallsParallel_gated :
    Traced.Guarded (Gated loop toolCalls) [] (loop.executeToolCallsParallel toolCalls) := by
  refine Traced.Guarded.bind (gated_of_avoids prepareParallel_avoids) fun entries prepared =>
    Traced.Guarded.bind (Traced.Guarded.log fun more seen member => ?_) fun _ _ =>
    Traced.Guarded.bind (gated_of_avoids (Traced.Avoids.all fun task member => ?_)) fun finalizedCalls _ =>
    Traced.Guarded.bind (gated_of_avoids (emitResults_avoids _)) fun _ _ =>
    gated_of_avoids (Traced.Avoids.pure _)
  · obtain ⟨reaches, sounds⟩ := prepareParallel_ok prepared
    obtain ⟨position, tool, call, args, present, rfl⟩ := (mem_invocations).mp member
    refine ⟨reaches.getElem? (by rw [List.getElem?_map, present]; rfl), ?_⟩
    have cleared := sounds position _ present
    rw [Nat.zero_add] at cleared
    exact Cleared.mono cleared fun seen member => by simp [member]
  · obtain ⟨⟨entry, position⟩, _, rfl⟩ := List.mem_map.mp member
    exact settleEntry_avoids entry

private theorem settleEntry_ok {entry : BatchEntry} {finalized : FinalizedToolCall}
    (success : (loop.settleEntry position entry).outcome = .ok finalized) :
    finalized.toolCall = entryCall entry ∧
      (entry = .finished finalized ∨ ∃ tool args, entry = .waiting tool finalized.toolCall args) := by
  cases entry with
  | finished other =>
    cases success
    exact ⟨rfl, Or.inl rfl⟩
  | waiting tool call args =>
    obtain ⟨other, completed, rest, _⟩ := Traced.bind_ok success
    obtain ⟨_, _, finished, _⟩ := Traced.bind_ok rest
    cases finished
    obtain rfl := completeCall_toolCall completed
    exact ⟨rfl, Or.inr ⟨tool, args, rfl⟩⟩

private theorem settleEntries_ok {entries : List BatchEntry} {finalizedCalls : List FinalizedToolCall}
    (settled : List.Forall₂ (fun (task : Run FinalizedToolCall) finalized => task.outcome = .ok finalized)
      ((entries.zipIdx position).map fun (entry, position) => loop.settleEntry position entry) finalizedCalls) :
    finalizedCalls.map (·.toolCall) = entries.map entryCall ∧
      ∀ (index : ℕ) (finalized : FinalizedToolCall), finalizedCalls[index]? = some finalized →
        entries[index]? = some (BatchEntry.finished finalized) ∨
          ∃ tool args, entries[index]? = some (BatchEntry.waiting tool finalized.toolCall args) := by
  induction entries generalizing position finalizedCalls with
  | nil =>
    cases settled
    exact ⟨rfl, fun index finalized present => nomatch present⟩
  | cons entry entries ih =>
    rw [List.zipIdx_cons, List.map_cons] at settled
    cases settled with
    | cons first rest =>
      obtain ⟨same, shape⟩ := settleEntry_ok first
      obtain ⟨others, shapes⟩ := ih rest
      refine ⟨by rw [List.map_cons, List.map_cons, same, others], fun index finalized present => ?_⟩
      cases index with
      | zero =>
        cases present
        exact shape.imp (congrArg some) fun ⟨tool, args, same⟩ => ⟨tool, args, congrArg some same⟩
      | succ index => exact shapes index finalized present

private theorem executeToolCallsParallel_answers {batch : ExecutedToolCallBatch}
    (success : (loop.executeToolCallsParallel toolCalls).outcome = .ok batch) :
    Answers loop toolCalls (loop.executeToolCallsParallel toolCalls).trace batch.messages := by
  obtain ⟨entries, prepared, rest, first⟩ := Traced.bind_ok success
  obtain ⟨_, _, rest, second⟩ := Traced.bind_ok rest
  obtain ⟨finalizedCalls, settled, rest, _⟩ := Traced.bind_ok rest
  obtain ⟨_, _, finished, _⟩ := Traced.bind_ok rest
  cases finished
  obtain ⟨reaches, sounds⟩ := prepareParallel_ok prepared
  obtain ⟨same, shapes⟩ := settleEntries_ok (Traced.all_ok settled)
  rw [ToolLoop.executeToolCallsParallel, first, second]
  refine answers_of_finalized (same ▸ reaches) fun index finalized present fine => ?_
  rcases shapes index finalized present with ended | ⟨tool, args, waiting⟩
  · cases fine.symm.trans (sounds index _ ended)
  · refine ⟨tool, args, List.mem_append_right _ (List.mem_append_left _ ?_)⟩
    rw [Nat.zero_add]
    exact (mem_invocations).mpr ⟨index, tool, finalized.toolCall, args, waiting, rfl⟩

end Parallel

private theorem executeToolCalls_mode (message : AssistantMessage) :
    loop.executeToolCalls message = loop.executeToolCallsSequential message.toolCalls ∨
      loop.executeToolCalls message = loop.executeToolCallsParallel message.toolCalls := by
  rw [ToolLoop.executeToolCalls]
  exact ite_eq_or_eq _ _ _

/-- The results that a batch returns answer its calls, in both modes. -/
theorem answers_of_executeToolCalls {message : AssistantMessage} {batch : ExecutedToolCallBatch}
    (success : (loop.executeToolCalls message).outcome = .ok batch) :
    Answers loop message.toolCalls (loop.executeToolCalls message).trace batch.messages := by
  rcases @executeToolCalls_mode loop message with sequential | parallel
  · rw [sequential] at success ⊢
    exact executeToolCallsSequential_answers success
  · rw [parallel] at success ⊢
    exact executeToolCallsParallel_answers success

/-- A loop without tools whose abort signal is set. -/
private def abortedLoop : ToolLoop where
  tools := []
  sequential := false
  validateToolArguments _ _ call := .ok call.arguments
  beforeToolCall := none
  onControlPlanePrompt := none
  afterToolCall := none
  emit _ _ := .ok ()
  aborted _ _ := true
  sha256 _ := []
  settling := []
  now := 0

/-- An answer with two calls. -/
private def twoCalls : AssistantMessage where
  content :=
    [.toolCall { id := js "a", name := js "read", arguments := .obj [] },
      .toolCall { id := js "b", name := js "read", arguments := .obj [] }]
  api := js "openai-responses"
  provider := js "openai"
  model := js "gpt"
  usage := ⟨1, 1, 0, 0, 2⟩
  stopReason := .toolUse
  timestamp := .millis 0

end PieAgent.Soundness
