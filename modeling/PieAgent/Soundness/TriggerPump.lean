import PieAgent.Model.Triggers.TriggerPump

/-! # The trigger pump handles every trigger

A pump that no hook stops handles every trigger of its stream: one evaluation, one decision record or
persistence error, and a dispatch exactly if the decision was to allow it. A hook that throws is caught
around the whole pump only, so that it ends the pump: the triggers behind it are never looked at. The
pump meets its contract exactly when no trigger but possibly the last one makes a hook throw.
-/

namespace PieAgent.Soundness

open JavaScript Effects Model

/-- The trigger that an observation evaluates. -/
def evaluation? : TriggerObservation → Option Trigger
  | .evaluated trigger _ => some trigger
  | _ => none

/-- The context of an error that stands for a decision record. -/
def replacesRecord (context : JsString) : Bool :=
  context = js "trigger_audit" || context = js "notification_hook_pump"

/-- A decision record, or the persistence error in its place. -/
def decision? : TriggerObservation → Option TriggerObservation
  | .appended (.trigger record) => some (.appended (.trigger record))
  | .persistenceError context message =>
    if replacesRecord context then some (.persistenceError context message) else none
  | _ => none

/-- The trigger that an observation dispatches. -/
def dispatch? : TriggerObservation → Option Trigger
  | .dispatched trigger => some trigger
  | _ => none

/-- The observations show that the decision on a trigger with this outcome was to allow it. -/
def Permitted (world : TriggerWorld) (outcome : EvaluationOutcome) (seen : List TriggerObservation) : Prop :=
  outcome = .accept ∧
    (world.beforeTrigger = none ∨ .permission (.ok .allow) ∈ seen ∨
      (∃ reason, .permission (.ok (.prompt reason)) ∈ seen) ∧ .promptAnswered (.ok .allow) ∈ seen)

/-- All that is observed of one trigger: one evaluation, one decision record or persistence error, and a
dispatch exactly if the decision was to allow it. -/
structure Handles (world : TriggerWorld) (trigger : Trigger) (segment : List TriggerObservation) : Prop where
  evaluatedOnce : segment.filterMap evaluation? = [trigger]
  decidedOnce : (segment.filterMap decision?).length = 1
  recorded : ∀ record, .appended (.trigger record) ∈ segment → ∃ state decision,
    record = { triggerRecordReceivedFrom trigger with state, evaluatorDecision := some decision }
  dispatched : ∃ outcome, .evaluated trigger outcome ∈ segment ∧
    (Permitted world outcome segment ∧ segment.filterMap dispatch? = [trigger] ∨
      ¬ Permitted world outcome segment ∧ segment.filterMap dispatch? = [])

/-- Every trigger was handled, in order, and nothing else was observed. -/
def AllHandled (world : TriggerWorld) (triggers : List Trigger) (trail : List TriggerObservation) : Prop :=
  ∃ segments : List (List TriggerObservation), trail = segments.flatten ∧
    List.Forall₂ (Handles world) triggers segments

/-- A hook throws while an accepted trigger is handled. -/
def permissionThrows (world : TriggerWorld) (position : ℕ) (trigger : Trigger) (runtime : TriggerRuntime) : Prop :=
  match world.beforeTrigger with
  | none => False
  | some hook =>
    match hook position trigger runtime.snapshot with
    | .error _ => True
    | .ok (.prompt reason) =>
      match world.buildTriggerPromptRequest position trigger reason with
      | .error _ => True
      | .ok request => ∃ ask error, world.onTriggerPrompt = some ask ∧ ask position request = .error error
    | .ok _ => False

/-- No trigger that has a successor makes a hook throw. -/
def Quiet (world : TriggerWorld) : ℕ → TriggerRuntime → List Trigger → Prop
  | _, _, [] => True
  | _, _, [_] => True
  | position, runtime, trigger :: triggers =>
    ¬ ((world.evaluate position trigger runtime).2 = .accept ∧
        permissionThrows world position trigger (world.evaluate position trigger runtime).1) ∧
      Quiet world (position + 1) (world.evaluate position trigger runtime).1 triggers

variable {world : TriggerWorld} {position : ℕ} {trigger : Trigger} {runtime : TriggerRuntime}
  {outcome : EvaluationOutcome}

/-- An observation of the parts that Handles counts. -/
private def Counted (seen : TriggerObservation) : Prop :=
  evaluation? seen ≠ none ∨ decision? seen ≠ none ∨ dispatch? seen ≠ none

private theorem audit_prompt_avoids (request : TriggerPromptRequest) (decision : TriggerPromptDecision) :
    Traced.Avoids Counted (world.writeTriggerPromptAudit position request decision) := by
  have other : replacesRecord (js "trigger_prompt") = false := by decide
  unfold TriggerWorld.writeTriggerPromptAudit TriggerWorld.audit
  split
  · refine Traced.Avoids.bind (fun seen member => ?_) fun _ _ => Traced.Avoids.pure _
    obtain rfl := List.mem_singleton.mp member
    simp [Counted, evaluation?, decision?, dispatch?]
  · refine Traced.Avoids.bind (fun seen member => ?_) fun _ _ => Traced.Avoids.pure _
    obtain rfl := List.mem_singleton.mp member
    simp [Counted, evaluation?, decision?, dispatch?, other]

/-- The permission stages leave nothing that is counted. -/
private theorem judge_avoids : Traced.Avoids Counted (world.judge position trigger runtime outcome) := by
  cases outcome with
  | deduped replacementPolicy previousTraceId => exact Traced.Avoids.pure _
  | cycleSuppressed hopCount => exact Traced.Avoids.pure _
  | accept =>
    refine Traced.Avoids.bind ?_ fun permission _ => ?_
    · unfold TriggerWorld.runBeforeTriggerHook
      split
      · exact Traced.Avoids.pure _
      · exact Traced.Avoids.call (by simp [Counted, evaluation?, decision?, dispatch?])
    · cases permission with
      | allow => exact Traced.Avoids.pure _
      | deny reason => exact Traced.Avoids.pure _
      | prompt reason =>
        refine Traced.Avoids.bind (Traced.Avoids.bind (Traced.Avoids.lift _) fun request _ =>
          Traced.Avoids.bind (fun seen member => ?_) fun _ _ => Traced.Avoids.bind ?_ fun decision _ =>
          Traced.Avoids.bind (audit_prompt_avoids request decision) fun _ _ => Traced.Avoids.pure _)
          fun _ _ => Traced.Avoids.pure _
        · obtain rfl := List.mem_singleton.mp member
          simp [Counted, evaluation?, decision?, dispatch?]
        · unfold TriggerWorld.askTriggerPrompt
          split
          · exact Traced.Avoids.call (by simp [Counted, evaluation?, decision?, dispatch?])
          · exact Traced.Avoids.pure _

/-- An answer that the permission stages log. -/
private def Answer (seen : TriggerObservation) : Prop :=
  (∃ answer, seen = .permission answer) ∨ ∃ answer, seen = .promptAnswered answer

private theorem audit_avoids_answers (entry : AuditEntry) (context failure : JsString) :
    Traced.Avoids Answer (world.audit position entry context failure) := by
  unfold TriggerWorld.audit
  split
  · refine Traced.Avoids.bind (fun seen member => ?_) fun _ _ => Traced.Avoids.pure _
    obtain rfl := List.mem_singleton.mp member
    simp [Answer]
  · refine Traced.Avoids.bind (fun seen member => ?_) fun _ _ => Traced.Avoids.pure _
    obtain rfl := List.mem_singleton.mp member
    simp [Answer]

/-- What a resolved prompt leaves behind: its answer, when there is a hook, and no permission. -/
private theorem resolveTriggerPrompt_ok {reason : JsString} {request : TriggerPromptRequest}
    {decision : TriggerPromptDecision}
    (success : (world.resolveTriggerPrompt position trigger reason).outcome = .ok (request, decision)) :
    (decision = .allow ↔
        .promptAnswered (.ok .allow) ∈ (world.resolveTriggerPrompt position trigger reason).trace) ∧
      ∀ answer, .permission answer ∉ (world.resolveTriggerPrompt position trigger reason).trace := by
  obtain ⟨asked, _, rest, first⟩ := Traced.bind_ok success
  obtain ⟨_, _, rest, second⟩ := Traced.bind_ok rest
  obtain ⟨answered, answer, rest, third⟩ := Traced.bind_ok rest
  obtain ⟨_, _, finished, fourth⟩ := Traced.bind_ok rest
  cases finished
  have unlogged := @audit_avoids_answers world position
  have noPrompt : ∀ decision answer,
      .promptAnswered answer ∉ (world.writeTriggerPromptAudit position request decision).trace :=
    fun decision answer member => unlogged _ _ _ _ member (Or.inr ⟨answer, rfl⟩)
  have noPermission : ∀ decision answer,
      .permission answer ∉ (world.writeTriggerPromptAudit position request decision).trace :=
    fun decision answer member => unlogged _ _ _ _ member (Or.inl ⟨answer, rfl⟩)
  rw [TriggerWorld.resolveTriggerPrompt, first, second, third, fourth]
  unfold TriggerWorld.askTriggerPrompt at answer ⊢
  cases hook : world.onTriggerPrompt with
  | none =>
    rw [hook] at answer
    cases answer
    simp [noPrompt, noPermission]
  | some ask =>
    rw [hook, Traced.outcome_call] at answer
    simp [noPrompt, noPermission, answer, eq_comm]

/-- A trigger is accepted exactly when the observations show the permission. -/
private theorem judge_ok {state : TriggerState} {decision : EvaluatorDecision}
    (success : (world.judge position trigger runtime outcome).outcome = .ok (state, decision)) :
    state = .accepted ↔ Permitted world outcome (world.judge position trigger runtime outcome).trace := by
  cases outcome with
  | deduped replacementPolicy previousTraceId =>
    cases success
    simp [Permitted]
  | cycleSuppressed hopCount =>
    cases success
    simp [Permitted]
  | accept =>
    obtain ⟨permission, asked, rest, trace⟩ := Traced.bind_ok success
    rw [TriggerWorld.judge, TriggerWorld.permit, trace]
    unfold TriggerWorld.runBeforeTriggerHook at asked ⊢
    cases hook : world.beforeTrigger with
    | none =>
      rw [hook] at asked
      cases asked
      cases rest
      simp [Permitted, hook]
    | some ask =>
      rw [hook, Traced.outcome_call] at asked
      cases permission with
      | allow =>
        cases rest
        simp [Permitted, asked]
      | deny reason =>
        cases rest
        simp [Permitted, hook, asked]
      | prompt reason =>
        obtain ⟨⟨request, decided⟩, resolved, finished, resolution⟩ := Traced.bind_ok rest
        cases finished
        obtain ⟨allowed, noPermission⟩ := resolveTriggerPrompt_ok resolved
        simp only [resolution]
        simp [Permitted, hook, asked, noPermission, ← allowed]

private theorem audit_returns (entry : AuditEntry) (context failure : JsString) :
    ∃ id, (world.audit position entry context failure).outcome = .ok id := by
  unfold TriggerWorld.audit
  split
  · exact ⟨_, rfl⟩
  · exact ⟨_, rfl⟩

/-- A prompt throws when its request cannot be built or its hook throws; its audit never does. -/
private theorem resolveTriggerPrompt_error_iff {reason : JsString} :
    (∃ error, (world.resolveTriggerPrompt position trigger reason).outcome = .error error) ↔
      match world.buildTriggerPromptRequest position trigger reason with
      | .error _ => True
      | .ok request => ∃ ask error, world.onTriggerPrompt = some ask ∧ ask position request = .error error := by
  unfold TriggerWorld.resolveTriggerPrompt
  simp only [Traced.outcome_bind_error, Traced.outcome_lift]
  cases built : world.buildTriggerPromptRequest position trigger reason with
  | error error => exact ⟨fun _ => trivial, fun _ => ⟨error, Or.inl rfl⟩⟩
  | ok request =>
    constructor
    · rintro ⟨error, impossible | ⟨_, same, noted | ⟨_, _, asked⟩⟩⟩
      · cases impossible
      · cases noted
      · cases same
        rcases asked with thrown | ⟨decision, _, audited⟩
        · unfold TriggerWorld.askTriggerPrompt at thrown
          split at thrown
          · next ask present => exact ⟨ask, error, present, thrown⟩
          · cases thrown
        · rcases audited with thrown | ⟨_, _, finished⟩
          · obtain ⟨id, returned⟩ := @audit_returns world position (.triggerPrompt _) _ _
            cases returned.symm.trans thrown
          · cases finished
    · rintro ⟨ask, error, present, thrown⟩
      refine ⟨error, Or.inr ⟨request, rfl, Or.inr ⟨(), rfl, Or.inl ?_⟩⟩⟩
      rw [TriggerWorld.askTriggerPrompt, present]
      exact thrown

/-- Handling throws exactly when a hook throws. -/
private theorem judge_error_iff :
    (∃ error, (world.judge position trigger runtime outcome).outcome = .error error) ↔
      outcome = .accept ∧ permissionThrows world position trigger runtime := by
  cases outcome with
  | deduped replacementPolicy previousTraceId => simp [TriggerWorld.judge]
  | cycleSuppressed hopCount => simp [TriggerWorld.judge]
  | accept =>
    rw [TriggerWorld.judge, TriggerWorld.permit, permissionThrows, TriggerWorld.runBeforeTriggerHook]
    simp only [Traced.outcome_bind_error, true_and]
    cases world.beforeTrigger with
    | none => simp
    | some hook =>
      simp only [Traced.outcome_call]
      cases hook position trigger runtime.snapshot with
      | error error => simp
      | ok permission =>
        cases permission with
        | allow => simp
        | deny reason => simp
        | prompt reason =>
          refine Iff.trans ?_ resolveTriggerPrompt_error_iff
          simp [Traced.outcome_bind_error]

private theorem filterMap_of_avoids {β : Type} {run : TriggerRun β} (avoids : Traced.Avoids Counted run) :
    run.trace.filterMap evaluation? = [] ∧ run.trace.filterMap decision? = [] ∧ run.trace.filterMap dispatch? = [] := by
  refine ⟨?_, ?_, ?_⟩
  all_goals
    rw [List.filterMap_eq_nil_iff]
    intro seen member
    have uncounted := avoids seen member
    unfold Counted at uncounted
    tauto

private theorem conclude_trace (trigger : Trigger) (state : TriggerState) (decision : EvaluatorDecision) :
    ∃ recorded auditEntryId, (world.conclude position trigger state decision).trace =
        recorded :: .handled trigger state auditEntryId decision ::
          (if state = .accepted then [.dispatched trigger] else []) ∧
      (world.conclude position trigger state decision).outcome = .ok () ∧
      (recorded = .appended
          (.trigger { triggerRecordReceivedFrom trigger with state, evaluatorDecision := some decision }) ∨
        ∃ message, recorded = .persistenceError (js "trigger_audit") message) := by
  unfold TriggerWorld.conclude TriggerWorld.audit
  dsimp only
  split
  · exact ⟨_, _, rfl, rfl, Or.inl rfl⟩
  · exact ⟨_, _, rfl, rfl, Or.inr ⟨_, rfl⟩⟩

/-- A hook that throws gives no permission. -/
private theorem not_permitted_of_error (throws : permissionThrows world position trigger runtime) :
    ¬ Permitted world .accept (world.judge position trigger runtime .accept).trace := by
  rw [TriggerWorld.judge, TriggerWorld.permit, TriggerWorld.runBeforeTriggerHook]
  unfold permissionThrows at throws
  cases configured : world.beforeTrigger with
  | none => simp [configured] at throws
  | some hook =>
    simp only [configured] at throws
    dsimp only
    cases answer : hook position trigger runtime.snapshot with
    | error error => simp [Traced.call_error_bind, Permitted, configured]
    | ok permission =>
      rw [answer] at throws
      cases permission with
      | allow => exact throws.elim
      | deny reason => exact throws.elim
      | prompt reason =>
        rw [Traced.call_ok_bind]
        dsimp only at throws ⊢
        rw [TriggerWorld.resolveTriggerPrompt]
        cases built : world.buildTriggerPromptRequest position trigger reason with
        | error error => simp [Permitted, configured, Bind.bind, Traced.bind]
        | ok request =>
          rw [built] at throws
          obtain ⟨ask, error, present, thrown⟩ := throws
          rw [Traced.lift_ok_bind, TriggerWorld.askTriggerPrompt, present]
          dsimp only
          rw [thrown, Traced.call_error_bind, Traced.log_bind]
          simp [Permitted, configured, Bind.bind, Traced.bind]

private theorem permitted_iff {before after seen : List TriggerObservation}
    (silentBefore : ∀ seen ∈ before, ¬ Answer seen) (silentAfter : ∀ seen ∈ after, ¬ Answer seen) :
    Permitted world outcome (before ++ seen ++ after) ↔ Permitted world outcome seen := by
  have permission : ∀ answer, .permission answer ∈ before ++ seen ++ after ↔ .permission answer ∈ seen := by
    intro answer
    have first : .permission answer ∉ before := fun member => silentBefore _ member (Or.inl ⟨answer, rfl⟩)
    have last : .permission answer ∉ after := fun member => silentAfter _ member (Or.inl ⟨answer, rfl⟩)
    simp [first, last]
  have prompt : ∀ answer, .promptAnswered answer ∈ before ++ seen ++ after ↔ .promptAnswered answer ∈ seen := by
    intro answer
    have first : .promptAnswered answer ∉ before := fun member => silentBefore _ member (Or.inr ⟨answer, rfl⟩)
    have last : .promptAnswered answer ∉ after := fun member => silentAfter _ member (Or.inr ⟨answer, rfl⟩)
    simp [first, last]
  simp only [Permitted, permission, prompt]

/-- The observations of one trigger: its evaluation, the permission stages, and how they end. -/
private theorem handles_of_trace {judged ends : List TriggerObservation}
    (uncounted : judged.filterMap evaluation? = [] ∧ judged.filterMap decision? = [] ∧ judged.filterMap dispatch? = [])
    (noEvaluation : ends.filterMap evaluation? = []) (oneDecision : (ends.filterMap decision?).length = 1)
    (recorded : ∀ record, .appended (.trigger record) ∈ ends → ∃ state decision,
      record = { triggerRecordReceivedFrom trigger with state, evaluatorDecision := some decision })
    (noAnswer : ∀ seen ∈ ends, ¬ Answer seen)
    (dispatched : Permitted world outcome judged ∧ ends.filterMap dispatch? = [trigger] ∨
      ¬ Permitted world outcome judged ∧ ends.filterMap dispatch? = []) :
    Handles world trigger ([TriggerObservation.handlingStart trigger, .evaluated trigger outcome] ++ judged ++ ends) := by
  obtain ⟨unevaluated, undecided, undispatched⟩ := uncounted
  have dispatches : List.filterMap dispatch?
      ([TriggerObservation.handlingStart trigger, .evaluated trigger outcome] ++ judged ++ ends) = ends.filterMap dispatch? := by
    simp [List.filterMap_cons, dispatch?, undispatched]
  refine ⟨?_, ?_, fun record member => ?_, outcome, by simp, ?_⟩
  · simp [List.filterMap_cons, evaluation?, unevaluated, noEvaluation]
  · simp [List.filterMap_cons, decision?, undecided, oneDecision]
  · rcases List.mem_append.mp member with before | after
    · rcases List.mem_append.mp before with first | middle
      · simp at first
      · cases List.filterMap_eq_nil_iff.mp undecided _ middle
    · exact recorded record after
  · rw [permitted_iff (by simp [Answer]) noAnswer, dispatches]
    exact dispatched

/-- A trigger whose permission stages do not throw is handled. -/
private theorem handleEvaluated_ok {state : TriggerState} {decision : EvaluatorDecision}
    (judged : (world.judge position trigger runtime outcome).outcome = .ok (state, decision)) :
    (world.handleEvaluated position trigger runtime outcome).outcome = .ok () ∧
      Handles world trigger (world.handleEvaluated position trigger runtime outcome).trace := by
  obtain ⟨recorded, auditEntryId, concluded, returned, kind⟩ :=
    @conclude_trace world position trigger state decision
  have ran : (world.handleEvaluated position trigger runtime outcome).outcome = .ok () :=
    Traced.outcome_bind_ok.mpr ⟨(), rfl, Traced.outcome_bind_ok.mpr ⟨(state, decision), judged, returned⟩⟩
  refine ⟨ran, ?_⟩
  obtain ⟨⟨⟩, _, rest, first⟩ := Traced.bind_ok ran
  obtain ⟨reached, same, rest, second⟩ := Traced.bind_ok rest
  obtain rfl := Except.ok.inj (judged.symm.trans same)
  rw [TriggerWorld.handleEvaluated, first, second, Traced.trace_log, ← List.append_assoc]
  dsimp only
  rw [concluded]
  have auditReplaces : replacesRecord (js "trigger_audit") = true := by decide
  apply handles_of_trace (filterMap_of_avoids judge_avoids)
  · rcases kind with rfl | ⟨message, rfl⟩ <;> split <;> simp [List.filterMap_cons, evaluation?]
  · rcases kind with rfl | ⟨message, rfl⟩ <;> split <;> simp [List.filterMap_cons, decision?, auditReplaces]
  · intro record member
    rcases kind with rfl | ⟨message, rfl⟩
    · refine ⟨state, decision, ?_⟩
      split at member <;> simpa using member
    · split at member <;> simp at member
  · intro seen member
    rcases kind with rfl | ⟨message, rfl⟩ <;> split at member <;> simp at member <;>
      rcases member with rfl | rfl | rfl <;> simp [Answer]
  · rw [← judge_ok judged]
    by_cases accepted : state = .accepted
    · refine Or.inl ⟨accepted, ?_⟩
      rcases kind with rfl | ⟨message, rfl⟩ <;> simp [List.filterMap_cons, accepted, dispatch?]
    · refine Or.inr ⟨accepted, ?_⟩
      rcases kind with rfl | ⟨message, rfl⟩ <;> simp [List.filterMap_cons, accepted, dispatch?]

/-- A trigger that makes a hook throw is handled too when the error is reported behind it. -/
private theorem handleEvaluated_error (thrown : outcome = .accept ∧ permissionThrows world position trigger runtime) :
    ∃ error, (world.handleEvaluated position trigger runtime outcome).outcome = .error error ∧
      Handles world trigger ((world.handleEvaluated position trigger runtime outcome).trace ++
        [TriggerObservation.persistenceError (js "notification_hook_pump") error]) := by
  obtain ⟨error, failed⟩ := (judge_error_iff).mpr thrown
  obtain ⟨rfl, throws⟩ := thrown
  refine ⟨error, Traced.outcome_bind_error.mpr (Or.inr ⟨(), rfl, Traced.outcome_bind_error.mpr (Or.inl failed)⟩), ?_⟩
  have trace : (world.handleEvaluated position trigger runtime .accept).trace =
      [TriggerObservation.handlingStart trigger, .evaluated trigger .accept] ++ (world.judge position trigger runtime .accept).trace := by
    rw [TriggerWorld.handleEvaluated, Traced.log_bind]
    dsimp only
    rcases Traced.trace_bind_cases (world.judge position trigger runtime .accept) (fun decided =>
      world.conclude position trigger decided.1 decided.2) with same | ⟨value, reached, _⟩
    · exact congrArg _ same
    · cases failed.symm.trans reached
  have pumpReplaces : replacesRecord (js "notification_hook_pump") = true := by decide
  rw [trace]
  apply handles_of_trace (filterMap_of_avoids judge_avoids)
  · simp [List.filterMap_cons, evaluation?]
  · simp [decision?, pumpReplaces]
  · intro record member
    simp at member
  · simp [Answer]
  · exact Or.inr ⟨not_permitted_of_error throws, by simp [List.filterMap_cons, dispatch?]⟩

/-- What the pump observes from a position on. -/
private def trail (world : TriggerWorld) (position : ℕ) (runtime : TriggerRuntime) (triggers : List Trigger) :
    List TriggerObservation :=
  ((world.pump position runtime triggers).handle fun error =>
    Traced.log [.persistenceError (js "notification_hook_pump") error]).trace

/-- A trigger that is handled hands over to the next one. -/
private theorem trail_cons_ok {triggers : List Trigger}
    (returned : (world.handleTrigger position trigger runtime).outcome = .ok ()) :
    trail world position runtime (trigger :: triggers) = (world.handleTrigger position trigger runtime).trace ++
      trail world (position + 1) (world.evaluate position trigger runtime).1 triggers := by
  unfold trail
  rw [TriggerWorld.pump]
  generalize world.handleTrigger position trigger runtime = handled at returned
  obtain ⟨outcome, trace⟩ := handled
  cases returned
  simp only [Bind.bind, Traced.bind, Traced.handle]
  split
  · rw [List.append_assoc]
  · rfl

/-- A trigger whose handling throws ends the pump. -/
private theorem trail_cons_error {triggers : List Trigger} {error : JsString}
    (thrown : (world.handleTrigger position trigger runtime).outcome = .error error) :
    trail world position runtime (trigger :: triggers) = (world.handleTrigger position trigger runtime).trace ++
      [TriggerObservation.persistenceError (js "notification_hook_pump") error] := by
  unfold trail
  rw [TriggerWorld.pump]
  generalize world.handleTrigger position trigger runtime = handled at thrown
  obtain ⟨outcome, trace⟩ := handled
  cases thrown
  rfl

/-- The first trigger throws, or is handled. -/
private theorem throws_or_handled (world : TriggerWorld) (position : ℕ) (trigger : Trigger) (runtime : TriggerRuntime) :
    ((world.evaluate position trigger runtime).2 = .accept ∧
        permissionThrows world position trigger (world.evaluate position trigger runtime).1) ∨
      (world.handleTrigger position trigger runtime).outcome = .ok () ∧
        Handles world trigger (world.handleTrigger position trigger runtime).trace := by
  by_cases thrown : (world.evaluate position trigger runtime).2 = .accept ∧
      permissionThrows world position trigger (world.evaluate position trigger runtime).1
  · exact Or.inl thrown
  · refine Or.inr ?_
    cases judged : (world.judge position trigger (world.evaluate position trigger runtime).1
        (world.evaluate position trigger runtime).2).outcome with
    | error error => exact absurd ((judge_error_iff).mp ⟨error, judged⟩) thrown
    | ok decided => exact handleEvaluated_ok judged

/-- A quiet pump handles every trigger of its stream. -/
private theorem allHandled_of_quiet (triggers : List Trigger) (position : ℕ) (runtime : TriggerRuntime)
    (quiet : Quiet world position runtime triggers) :
    AllHandled world triggers (trail world position runtime triggers) := by
  induction triggers generalizing position runtime with
  | nil => exact ⟨[], rfl, .nil⟩
  | cons trigger triggers ih =>
    rcases throws_or_handled world position trigger runtime with thrown | ⟨returned, handles⟩
    · cases triggers with
      | cons next triggers => exact absurd thrown quiet.1
      | nil =>
        obtain ⟨error, failed, handles⟩ := handleEvaluated_error thrown
        exact ⟨[_], by rw [trail_cons_error failed]; simp [TriggerWorld.handleTrigger], .cons handles .nil⟩
    · have later : Quiet world (position + 1) (world.evaluate position trigger runtime).1 triggers := by
        cases triggers with
        | nil => trivial
        | cons next triggers => exact quiet.2
      obtain ⟨segments, flattened, each⟩ := ih _ _ later
      refine ⟨_ :: segments, ?_, .cons handles each⟩
      rw [trail_cons_ok returned, flattened, List.flatten_cons]

/-- A pump whose evaluations are those of its stream is quiet. -/
private theorem quiet_of_evaluated (triggers : List Trigger) (position : ℕ) (runtime : TriggerRuntime)
    (evaluated : (trail world position runtime triggers).filterMap evaluation? = triggers) :
    Quiet world position runtime triggers := by
  induction triggers generalizing position runtime with
  | nil => trivial
  | cons trigger triggers ih =>
    cases triggers with
    | nil => trivial
    | cons next triggers =>
      rcases throws_or_handled world position trigger runtime with thrown | ⟨returned, handles⟩
      · obtain ⟨error, failed, handles⟩ := handleEvaluated_error thrown
        have once := handles.evaluatedOnce
        rw [trail_cons_error failed, TriggerWorld.handleTrigger, once] at evaluated
        simp at evaluated
      · rw [trail_cons_ok returned, List.filterMap_append, handles.evaluatedOnce] at evaluated
        refine ⟨fun thrown => ?_, ih _ _ (List.cons.inj evaluated).2⟩
        obtain ⟨error, failed, _⟩ := handleEvaluated_error thrown
        cases returned.symm.trans failed

private theorem evaluated_of_allHandled {triggers : List Trigger} {seen : List TriggerObservation}
    (handled : AllHandled world triggers seen) : seen.filterMap evaluation? = triggers := by
  obtain ⟨segments, rfl, each⟩ := handled
  induction each with
  | nil => rfl
  | cons first _ ih => rw [List.flatten_cons, List.filterMap_append, first.evaluatedOnce, ih]; rfl

/-- The pump handles every trigger of its stream exactly when no trigger with a successor makes a hook throw. -/
theorem pump_handles_all_iff (world : TriggerWorld) (runtime : TriggerRuntime) (triggers : List Trigger) :
    AllHandled world triggers (world.runPump runtime triggers).trace ↔ Quiet world 0 runtime triggers :=
  ⟨fun handled => quiet_of_evaluated triggers 0 runtime (evaluated_of_allHandled handled),
    allHandled_of_quiet triggers 0 runtime⟩

/-- A local trigger with the given key. -/
private def pushedTrigger (key : String) : Trigger where
  source := .local (js "cron")
  sourceKind := .local
  sourceLabel := js "cron"
  eventLabel := js "tick"
  payloadVisibility := .local
  payloadSummary := none
  idempotencyKey := js key
  replacementPolicy := .drop
  traceId := js key
  authority := ⟨js "p", js "p", .user, [], none⟩
  receivedAt := ⟨js "t", some 0⟩

/-- The permission hook throws for the first trigger and allows the others. -/
private def throwingOnce : TriggerWorld where
  beforeTrigger := some fun position _ _ => if position = 0 then .error (js "hook failed") else .ok .allow
  buildTriggerPromptRequest _ _ _ := .error (js "no agent id")
  onTriggerPrompt := none
  appendCustomEntry _ _ := .ok (js "entry")
  others _ runtime := runtime

/-- A trigger behind one whose permission hook throws is not handled. -/
theorem throw_ends_pump :
    ¬ AllHandled throwingOnce [pushedTrigger "a", pushedTrigger "b"]
      (throwingOnce.runPump (TriggerRuntime.new {}) [pushedTrigger "a", pushedTrigger "b"]).trace := by
  intro handled
  have evaluated := evaluated_of_allHandled handled
  exact absurd (congrArg List.length evaluated) (by decide)

end PieAgent.Soundness
