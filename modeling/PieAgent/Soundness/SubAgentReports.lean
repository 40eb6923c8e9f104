import PieAgent.Model.Triggers.SubAgents
import PieAgent.Proofs.Triggers.CronScheduler

/-! # What is reported of a sub-agent

A dispatch is reported as completed whenever its sub-agent has started, since the agent never throws. So the report is
true of the runs that succeed, and of a dispatch that has no model.
-/

namespace PieAgent.Soundness.SubAgentReports

open JavaScript Model Model.SubAgents

def lastAssistant? (messages : List AgentMessage) : Option AssistantMessage :=
  messages.reverse.findSome? fun
    | .assistant message => some message
    | _ => none

/-- The last assistant message has not failed. -/
def Succeeded (messages : List AgentMessage) : Prop :=
  ∃ message, lastAssistant? messages = some message ∧ message.stopReason ≠ .error ∧ message.stopReason ≠ .aborted

/-- The messages of the sub-agent of a dispatch. -/
def messagesOf (model : Option SubAgentModel) (now : ℤ) (run : LoopRun) : List AgentMessage :=
  model.elim [] fun model => runWithLifecycle model now run

/-- A completion is reported of a success only; else a failure is, and the job of the trigger shows it. -/
structure ReportedTruly (state : CronState) (trigger : Trigger) (how : DispatchEnd) (messages : List AgentMessage) :
    Prop where
  completed : how = .triggerCompleted ↔ Succeeded messages
  failed : ¬Succeeded messages → ∃ reason, how = .triggerFailed reason ∧
    ∀ completedAt outcome job, state.registry.jobs.find? (·.runningTraceId = some trigger.traceId) = some job →
      ∃ done ∈ (state.settle trigger how completedAt outcome).registry.jobs, done.id = job.id ∧ done.lastError = some reason

variable {model : Option SubAgentModel} {messages : List AgentMessage}

private theorem mem_updateFirst_of_find? {α : Type} {test : α → Bool} {change : α → α} {items : List α} {item : α}
    (found : items.find? test = some item) : change item ∈ updateFirst test change items := by
  induction items with
  | nil => cases found
  | cons head items ih =>
    rw [List.find?_cons] at found
    rw [Proofs.updateFirst_cons]
    cases hit : test head with
    | true =>
      rw [hit] at found
      cases found
      exact List.mem_cons_self
    | false =>
      rw [hit] at found
      exact List.mem_cons_of_mem _ (ih found)

private theorem not_succeeded_failure (model : SubAgentModel) (now : ℤ) (error : JsString) (aborted : Bool) :
    ¬Succeeded (messages ++ [AgentMessage.assistant (handleRunFailure model now error aborted)]) := by
  rintro ⟨message, last, fine⟩
  rw [lastAssistant?, List.reverse_concat, List.findSome?_cons] at last
  cases last
  cases aborted with
  | true => exact fine.2 rfl
  | false => exact fine.1 rfl

private theorem succeeded_iff (model : SubAgentModel) (now : ℤ) (run : LoopRun) :
    Succeeded (runWithLifecycle model now run) ↔ run.thrown = none ∧ Succeeded run.messages := by
  rw [runWithLifecycle]
  cases thrown : run.thrown with
  | none => simp
  | some error => exact iff_of_false (not_succeeded_failure model now error run.aborted) nofun

/-- The report of a dispatch is true exactly when there is no model or the run succeeds. -/
theorem reported_truly_iff (state : CronState) (trigger : Trigger) (model : Option SubAgentModel) (now : ℤ) (run : LoopRun) :
    ReportedTruly state trigger (dispatchEnd model now run) (messagesOf model now run) ↔
      model = none ∨ run.thrown = none ∧ Succeeded run.messages := by
  cases model with
  | none =>
    have silent : ¬Succeeded [] := by rintro ⟨_, last, _⟩; cases last
    refine iff_of_true ⟨iff_of_false nofun silent, fun _ => ⟨_, rfl, fun completedAt outcome job found => ?_⟩⟩ (.inl rfl)
    refine ⟨job.complete (some (js "no model configured")) completedAt, ?_, rfl, rfl⟩
    rw [CronState.settle, Proofs.jobs_markCompleted]
    exact mem_updateFirst_of_find? found
  | some model =>
    rw [← succeeded_iff model now run]
    constructor
    · exact fun truly => .inr (truly.completed.mp rfl)
    · rintro (none_ | succeeded)
      · cases none_
      · exact ⟨iff_of_true rfl succeeded, fun failed => absurd succeeded failed⟩

/-- A sub-agent whose provider fails is reported as completed. -/
theorem failed_run_is_completed : ∃ run, dispatchEnd (some ⟨js "api", js "p", js "m"⟩) 0 run = .triggerCompleted ∧
    ∀ state trigger, ¬ReportedTruly state trigger (dispatchEnd (some ⟨js "api", js "p", js "m"⟩) 0 run)
      (messagesOf (some ⟨js "api", js "p", js "m"⟩) 0 run) :=
  ⟨⟨[], some (js "529"), false⟩, rfl, fun _ _ truly =>
    not_succeeded_failure _ 0 (js "529") false (truly.completed.mp rfl)⟩

end PieAgent.Soundness.SubAgentReports
