import PieAgent.Model.Agent.ToolExecution

/-! # What a batch of tool calls returns

While the abort signal is not seen, a batch returns exactly when each of its calls, taken by itself,
is run, finalized and reported; and then it returns these outcomes in the order of the calls. This
holds of the sequential and of the parallel mode, in whatever order the calls of the latter settle.
-/

namespace PieAgent.Model

open JavaScript Effects

/-- The call at a position ends with this outcome, and the outcome is reported. -/
structure ToolLoop.Settles (loop : ToolLoop) (position : ℕ) (call : ToolCall) (finalized : FinalizedToolCall) :
    Prop where
  ran : (loop.runCall position call).outcome = .ok finalized
  ended : (loop.emitToolExecutionEnd position finalized).outcome = .ok ()
  reported :
    (loop.emitToolResultMessage position (createToolResultMessage loop.now finalized)).outcome = .ok ()

/-- The calls from a position on end with these outcomes. -/
inductive ToolLoop.SettlesAll (loop : ToolLoop) : ℕ → List ToolCall → List FinalizedToolCall → Prop
  | nil (position : ℕ) : SettlesAll loop position [] []
  | cons {position : ℕ} {call : ToolCall} {calls : List ToolCall} {finalized : FinalizedToolCall}
      {others : List FinalizedToolCall} :
      loop.Settles position call finalized → SettlesAll loop (position + 1) calls others →
      SettlesAll loop position (call :: calls) (finalized :: others)

variable {loop : ToolLoop} {position : ℕ} {call : ToolCall} {calls : List ToolCall}
  {finalized : FinalizedToolCall} {finalizedCalls : List FinalizedToolCall}

/-- The outcome of a call does not depend on the mode, the clock or the order of settling. -/
theorem ToolLoop.runCall_unscheduled (sequential : Bool) (settling : List ℕ) (now : ℤ) :
    ToolLoop.runCall { loop with sequential, settling, now } position call = loop.runCall position call := rfl

theorem runSequential_ok_iff (calm : ∀ position, loop.aborted position .afterCall = false) :
    (loop.runSequential position calls).outcome = .ok finalizedCalls ↔
      loop.SettlesAll position calls finalizedCalls := by
  induction calls generalizing position finalizedCalls with
  | nil =>
    constructor
    · intro success
      cases success
      exact .nil position
    · intro settles
      cases settles
      rfl
  | cons call calls ih =>
    rw [ToolLoop.runSequential]
    simp only [calm, Bool.false_eq_true, ↓reduceIte, Traced.outcome_bind_ok, ih]
    constructor
    · rintro ⟨finalized, ran, ⟨⟩, ended, ⟨⟩, reported, others, rest, finished⟩
      cases finished
      exact .cons ⟨ran, ended, reported⟩ rest
    · intro settles
      cases settles with
      | cons first rest => exact ⟨_, first.ran, (), first.ended, (), first.reported, _, rest, rfl⟩

theorem executeToolCallsSequential_ok_iff (calm : ∀ position, loop.aborted position .afterCall = false)
    {batch : ExecutedToolCallBatch} : (loop.executeToolCallsSequential calls).outcome = .ok batch ↔
      ∃ finalizedCalls, loop.SettlesAll 0 calls finalizedCalls ∧
        batch = ⟨finalizedCalls.map (createToolResultMessage loop.now), shouldTerminateToolBatch finalizedCalls⟩ := by
  rw [ToolLoop.executeToolCallsSequential, Traced.outcome_bind_ok]
  simp only [runSequential_ok_iff calm, Traced.outcome_pure, Except.ok.injEq, eq_comm]

/-- The calls from a position on are entered with these entries. -/
inductive ToolLoop.Enters (loop : ToolLoop) : ℕ → List ToolCall → List BatchEntry → Prop
  | nil (position : ℕ) : Enters loop position [] []
  | cons {position : ℕ} {call : ToolCall} {calls : List ToolCall} {entry : BatchEntry} {entries : List BatchEntry} :
      (loop.enterCall position call).outcome = .ok entry → Enters loop (position + 1) calls entries →
      Enters loop position (call :: calls) (entry :: entries)

private theorem prepareParallel_ok_iff (calm : ∀ position, loop.aborted position .afterCall = false)
    {entries : List BatchEntry} :
    (loop.prepareParallel position calls).outcome = .ok entries ↔ loop.Enters position calls entries := by
  induction calls generalizing position entries with
  | nil =>
    constructor
    · intro success
      cases success
      exact .nil position
    · intro enters
      cases enters
      rfl
  | cons call calls ih =>
    rw [ToolLoop.prepareParallel]
    simp only [calm, Bool.false_eq_true, ↓reduceIte, Traced.outcome_bind_ok, ih]
    constructor
    · rintro ⟨entry, entered, others, rest, finished⟩
      cases finished
      exact .cons entered rest
    · intro enters
      cases enters with
      | cons first rest => exact ⟨_, first, _, rest, rfl⟩

/-- Entering and settling a call is running it and reporting its end. -/
private theorem enter_settle_iff :
    (∃ entry, (loop.enterCall position call).outcome = .ok entry ∧
        (loop.settleEntry position entry).outcome = .ok finalized) ↔
      (loop.runCall position call).outcome = .ok finalized ∧
        (loop.emitToolExecutionEnd position finalized).outcome = .ok () := by
  unfold ToolLoop.enterCall ToolLoop.runCall
  simp only [Traced.outcome_bind_ok]
  constructor
  · rintro ⟨entry, ⟨⟨⟩, started, preparation, prepared, entered⟩, settled⟩
    cases preparation with
    | immediate result isError =>
      obtain ⟨⟨⟩, ended, finished⟩ := Traced.outcome_bind_ok.mp entered
      cases finished
      cases settled
      exact ⟨⟨(), started, _, prepared, rfl⟩, ended⟩
    | prepared tool args =>
      cases entered
      obtain ⟨other, completed, rest⟩ := Traced.outcome_bind_ok.mp settled
      obtain ⟨⟨⟩, ended, finished⟩ := Traced.outcome_bind_ok.mp rest
      cases finished
      exact ⟨⟨(), started, _, prepared, Traced.outcome_bind_ok.mpr ⟨(), rfl, completed⟩⟩, ended⟩
  · rintro ⟨⟨⟨⟩, started, preparation, prepared, ran⟩, ended⟩
    cases preparation with
    | immediate result isError =>
      cases ran
      exact ⟨.finished ⟨call, result, isError⟩,
        ⟨(), started, _, prepared, Traced.outcome_bind_ok.mpr ⟨(), ended, rfl⟩⟩, rfl⟩
    | prepared tool args =>
      obtain ⟨⟨⟩, _, completed⟩ := Traced.outcome_bind_ok.mp ran
      refine ⟨.waiting tool call args, ⟨(), started, _, prepared, rfl⟩, ?_⟩
      exact Traced.outcome_bind_ok.mpr ⟨finalized, completed, Traced.outcome_bind_ok.mpr ⟨(), ended, rfl⟩⟩

private theorem emitResults_cons_ok :
    (loop.emitResults position (finalized :: finalizedCalls)).outcome = .ok () ↔
      (loop.emitToolResultMessage position (createToolResultMessage loop.now finalized)).outcome = .ok () ∧
        (loop.emitResults (position + 1) finalizedCalls).outcome = .ok () := by
  rw [ToolLoop.emitResults, Traced.outcome_bind_ok]
  exact ⟨fun ⟨_, reported, rest⟩ => ⟨reported, rest⟩, fun ⟨reported, rest⟩ => ⟨(), reported, rest⟩⟩

/-- Entering all calls, settling all entries and reporting all results is settling every call. -/
private theorem enters_settles_iff :
    (∃ entries, loop.Enters position calls entries ∧
        List.Forall₂ (fun (task : Run FinalizedToolCall) finalized => task.outcome = .ok finalized)
          ((entries.zipIdx position).map fun (entry, position) => loop.settleEntry position entry) finalizedCalls ∧
        (loop.emitResults position finalizedCalls).outcome = .ok ()) ↔
      loop.SettlesAll position calls finalizedCalls := by
  induction calls generalizing position finalizedCalls with
  | nil =>
    constructor
    · rintro ⟨entries, enters, settled, _⟩
      cases enters
      cases settled
      exact .nil position
    · intro settles
      cases settles
      exact ⟨[], .nil position, .nil, rfl⟩
  | cons call calls ih =>
    constructor
    · rintro ⟨entries, enters, settled, reported⟩
      cases enters with
      | cons entered rest =>
        rw [List.zipIdx_cons, List.map_cons] at settled
        cases settled with
        | cons first others =>
          obtain ⟨ran, ended⟩ := (enter_settle_iff).mp ⟨_, entered, first⟩
          obtain ⟨one, more⟩ := (emitResults_cons_ok).mp reported
          exact .cons ⟨ran, ended, one⟩ (ih.mp ⟨_, rest, others, more⟩)
    · intro settles
      cases settles with
      | cons first rest =>
        obtain ⟨entries, enters, settled, reported⟩ := ih.mpr rest
        obtain ⟨entry, entered, finished⟩ := (enter_settle_iff).mpr ⟨first.ran, first.ended⟩
        refine ⟨entry :: entries, .cons entered enters, ?_, (emitResults_cons_ok).mpr ⟨first.reported, reported⟩⟩
        rw [List.zipIdx_cons, List.map_cons]
        exact .cons finished settled

theorem executeToolCallsParallel_ok_iff (calm : ∀ position, loop.aborted position .afterCall = false)
    {batch : ExecutedToolCallBatch} : (loop.executeToolCallsParallel calls).outcome = .ok batch ↔
      ∃ finalizedCalls, loop.SettlesAll 0 calls finalizedCalls ∧
        batch = ⟨finalizedCalls.map (createToolResultMessage loop.now), shouldTerminateToolBatch finalizedCalls⟩ := by
  rw [ToolLoop.executeToolCallsParallel]
  simp only [Traced.outcome_bind_ok, prepareParallel_ok_iff calm, Traced.all_ok_iff]
  constructor
  · rintro ⟨entries, entered, ⟨⟩, _, finalizedCalls, settled, ⟨⟩, reported, finished⟩
    cases finished
    exact ⟨finalizedCalls, (enters_settles_iff).mp ⟨entries, entered, settled, reported⟩, rfl⟩
  · rintro ⟨finalizedCalls, settles, rfl⟩
    obtain ⟨entries, entered, settled, reported⟩ := (enters_settles_iff).mpr settles
    exact ⟨entries, entered, (), rfl, finalizedCalls, settled, (), reported, rfl⟩

/-- What a batch returns is determined by its calls, each taken by itself. -/
theorem executeToolCalls_ok_iff (calm : ∀ position, loop.aborted position .afterCall = false)
    {message : AssistantMessage} {batch : ExecutedToolCallBatch} :
    (loop.executeToolCalls message).outcome = .ok batch ↔
      ∃ finalizedCalls, loop.SettlesAll 0 message.toolCalls finalizedCalls ∧
        batch = ⟨finalizedCalls.map (createToolResultMessage loop.now), shouldTerminateToolBatch finalizedCalls⟩ := by
  rw [ToolLoop.executeToolCalls]
  split
  · exact executeToolCallsSequential_ok_iff calm
  · exact executeToolCallsParallel_ok_iff calm

/-- The calls of a batch end in one way only, under whatever clock they are reported. -/
theorem ToolLoop.SettlesAll.unique {sequential : Bool} {settling : List ℕ} {now : ℤ}
    {others : List FinalizedToolCall} (settles : loop.SettlesAll position calls finalizedCalls)
    (again : ToolLoop.SettlesAll { loop with sequential, settling, now } position calls others) :
    finalizedCalls = others := by
  induction settles generalizing others with
  | nil position =>
    cases again
    rfl
  | cons first _ ih =>
    cases again with
    | cons other rest =>
      have ran := other.ran
      rw [ToolLoop.runCall_unscheduled, first.ran] at ran
      rw [Except.ok.inj ran, ih rest]

/-- The mode and the order of settling do not matter for how the calls of a batch end. -/
theorem ToolLoop.SettlesAll.unscheduled {sequential : Bool} {settling : List ℕ}
    (settles : loop.SettlesAll position calls finalizedCalls) :
    ToolLoop.SettlesAll { loop with sequential, settling } position calls finalizedCalls := by
  induction settles with
  | nil position => exact .nil position
  | cons first _ ih => exact .cons ⟨first.ran, first.ended, first.reported⟩ ih

/-- Preparing a call never throws: what its stages throw becomes an error result. -/
private theorem prepareToolCall_ok (loop : ToolLoop) (position : ℕ) (call : ToolCall) :
    ∃ preparation, (loop.prepareToolCall position call).outcome = .ok preparation := by
  unfold ToolLoop.prepareToolCall
  split
  · exact ⟨_, rfl⟩
  · unfold Traced.handle
    split
    · exact ⟨_, rfl⟩
    · exact ⟨_, rfl⟩

section Accepting

variable (accepts : ∀ position event, loop.emit position event = .ok ()) (position) (call) (calls)

include accepts

private theorem emitUpdates_ok (updates : List AgentToolResult) :
    (loop.emitUpdates position call updates).outcome = .ok () := by
  unfold ToolLoop.emitUpdates
  dsimp only
  induction updates with
  | nil => rfl
  | cons update updates ih =>
    rw [List.map_cons, List.map_cons, List.foldl_cons, accepts]
    exact ih

private theorem completeCall_ok (tool : AgentTool) (args : Json) :
    ∃ finalized, (loop.completeCall position tool call args).outcome = .ok finalized := by
  have executed : ∀ run : ToolRun, ∃ executed, (loop.awaitExecution position call run).outcome = .ok executed := by
    intro run
    have updated := emitUpdates_ok position call accepts run.updates
    cases ends : run.outcome with
    | ok result => exact ⟨(result, false), Traced.outcome_bind_ok.mpr ⟨(), updated, by rw [ends]; rfl⟩⟩
    | error error =>
      exact ⟨(createErrorToolResult error, true), Traced.outcome_bind_ok.mpr ⟨(), updated, by rw [ends]; rfl⟩⟩
  obtain ⟨ran, awaited⟩ := executed (tool.execute position call.id args)
  have finalizes : ∃ finalized, (loop.finalizeExecutedToolCall position call args ran).outcome = .ok finalized := by
    unfold ToolLoop.finalizeExecutedToolCall
    split
    · exact ⟨_, rfl⟩
    · unfold Traced.handle
      split
      · exact ⟨_, rfl⟩
      · exact ⟨_, rfl⟩
  obtain ⟨finalized, finished⟩ := finalizes
  exact ⟨finalized, Traced.outcome_bind_ok.mpr ⟨ran, awaited, finished⟩⟩

private theorem emitEvent_ok (event : AgentEvent) : (loop.emitEvent position event).outcome = .ok () :=
  accepts position event

private theorem emitToolResultMessage_ok (message : ToolResultMessage) :
    (loop.emitToolResultMessage position message).outcome = .ok () :=
  Traced.outcome_bind_ok.mpr ⟨(), emitEvent_ok _ accepts _, emitEvent_ok _ accepts _⟩

private theorem runCall_ok : ∃ finalized, (loop.runCall position call).outcome = .ok finalized := by
  obtain ⟨preparation, prepared⟩ := prepareToolCall_ok loop position call
  cases preparation with
  | immediate result isError =>
    exact ⟨_, Traced.outcome_bind_ok.mpr
      ⟨(), emitEvent_ok _ accepts _, Traced.outcome_bind_ok.mpr ⟨_, prepared, rfl⟩⟩⟩
  | prepared tool args =>
    obtain ⟨finalized, completed⟩ := completeCall_ok position call accepts tool args
    exact ⟨finalized, Traced.outcome_bind_ok.mpr ⟨(), emitEvent_ok _ accepts _,
      Traced.outcome_bind_ok.mpr ⟨_, prepared, Traced.outcome_bind_ok.mpr ⟨(), rfl, completed⟩⟩⟩⟩

private theorem runSequential_returns :
    ∃ finalizedCalls, (loop.runSequential position calls).outcome = .ok finalizedCalls := by
  induction calls generalizing position with
  | nil => exact ⟨[], rfl⟩
  | cons call calls ih =>
    obtain ⟨finalized, ran⟩ := runCall_ok position call accepts
    obtain ⟨others, rest⟩ := ih (position + 1)
    rw [ToolLoop.runSequential]
    simp only [Traced.outcome_bind_ok]
    by_cases aborted : loop.aborted position .afterCall = true
    · exact ⟨[finalized], finalized, ran, (), emitEvent_ok _ accepts _, (), emitToolResultMessage_ok _ accepts _,
        by rw [if_pos aborted]; rfl⟩
    · refine ⟨finalized :: others, finalized, ran, (), emitEvent_ok _ accepts _, (), emitToolResultMessage_ok _ accepts _, ?_⟩
      rw [if_neg aborted]
      exact Traced.outcome_bind_ok.mpr ⟨others, rest, rfl⟩

private theorem enterCall_ok : ∃ entry, (loop.enterCall position call).outcome = .ok entry := by
  obtain ⟨preparation, prepared⟩ := prepareToolCall_ok loop position call
  cases preparation with
  | immediate result isError =>
    exact ⟨_, Traced.outcome_bind_ok.mpr ⟨(), emitEvent_ok _ accepts _, Traced.outcome_bind_ok.mpr
      ⟨_, prepared, Traced.outcome_bind_ok.mpr ⟨(), emitEvent_ok _ accepts _, rfl⟩⟩⟩⟩
  | prepared tool args =>
    exact ⟨_, Traced.outcome_bind_ok.mpr ⟨(), emitEvent_ok _ accepts _,
      Traced.outcome_bind_ok.mpr ⟨_, prepared, rfl⟩⟩⟩

private theorem settleEntry_ok (entry : BatchEntry) :
    ∃ finalized, (loop.settleEntry position entry).outcome = .ok finalized := by
  cases entry with
  | finished finalized => exact ⟨finalized, rfl⟩
  | waiting tool call args =>
    obtain ⟨finalized, completed⟩ := completeCall_ok position call accepts tool args
    exact ⟨finalized, Traced.outcome_bind_ok.mpr ⟨finalized, completed,
      Traced.outcome_bind_ok.mpr ⟨(), emitEvent_ok _ accepts _, rfl⟩⟩⟩

private theorem prepareParallel_returns : ∃ entries, (loop.prepareParallel position calls).outcome = .ok entries := by
  induction calls generalizing position with
  | nil => exact ⟨[], rfl⟩
  | cons call calls ih =>
    obtain ⟨entry, entered⟩ := enterCall_ok position call accepts
    obtain ⟨others, rest⟩ := ih (position + 1)
    rw [ToolLoop.prepareParallel]
    simp only [Traced.outcome_bind_ok]
    by_cases aborted : loop.aborted position .afterCall = true
    · exact ⟨[entry], entry, entered, by rw [if_pos aborted]; rfl⟩
    · refine ⟨entry :: others, entry, entered, ?_⟩
      rw [if_neg aborted]
      exact Traced.outcome_bind_ok.mpr ⟨others, rest, rfl⟩

private theorem settleAll_returns (entries : List BatchEntry) :
    ∃ finalizedCalls, List.Forall₂ (fun (task : Run FinalizedToolCall) finalized => task.outcome = .ok finalized)
      ((entries.zipIdx position).map fun (entry, position) => loop.settleEntry position entry) finalizedCalls := by
  induction entries generalizing position with
  | nil => exact ⟨[], .nil⟩
  | cons entry entries ih =>
    obtain ⟨finalized, settled⟩ := settleEntry_ok position accepts entry
    obtain ⟨others, rest⟩ := ih (position + 1)
    rw [List.zipIdx_cons, List.map_cons]
    exact ⟨finalized :: others, .cons settled rest⟩

private theorem emitResults_ok (finalizedCalls : List FinalizedToolCall) :
    (loop.emitResults position finalizedCalls).outcome = .ok () := by
  induction finalizedCalls generalizing position with
  | nil => rfl
  | cons finalized rest ih => exact (emitResults_cons_ok).mpr ⟨emitToolResultMessage_ok _ accepts _, ih (position + 1)⟩

/-- A batch whose sink accepts every event returns, aborted or not. -/
theorem executeToolCalls_returns (message : AssistantMessage) :
    ∃ batch, (loop.executeToolCalls message).outcome = .ok batch := by
  rw [ToolLoop.executeToolCalls]
  split
  · obtain ⟨finalizedCalls, ran⟩ := runSequential_returns 0 message.toolCalls accepts
    exact ⟨_, Traced.outcome_bind_ok.mpr ⟨finalizedCalls, ran, rfl⟩⟩
  · obtain ⟨entries, prepared⟩ := prepareParallel_returns 0 message.toolCalls accepts
    obtain ⟨finalizedCalls, settled⟩ := settleAll_returns 0 accepts entries
    refine ⟨_, Traced.outcome_bind_ok.mpr ⟨entries, prepared, Traced.outcome_bind_ok.mpr ⟨(), rfl,
      Traced.outcome_bind_ok.mpr ⟨finalizedCalls, Traced.all_ok_iff.mpr settled, Traced.outcome_bind_ok.mpr
        ⟨(), emitResults_ok 0 accepts finalizedCalls, rfl⟩⟩⟩⟩⟩

end Accepting

end PieAgent.Model
