import Mathlib.Algebra.Order.Group.Multiset
import PieAgent.Async.Core.Logic
import PieAgent.Model.Triggers.TriggerActions

/-! # The registry of running triggers

Entries are keyed by trace, set when a sub-agent starts and deleted when its delivery is over. An error
of the setup or of the promotion leaves the entry behind, and of two deliveries of one trace the first
to finish deletes the entry of both. In every run without such an error in which no sub-agent starts
for a trace that has one, the registry holds a trace exactly while a sub-agent of it is in flight.
-/

namespace PieAgent.Soundness

open JavaScript Async Model TriggerActions

/-- A sub-agent delivery of the trace has started and has not settled. -/
def InFlight (pool : ActionPool) (traceId : JsString) : Prop :=
  ∃ thread ∈ pool.threads, ∃ trigger action, thread.call = .deliver trigger action ∧ action.delivery = .subAgent ∧
    trigger.traceId = traceId ∧ ∀ outcome, thread.program ≠ .done outcome

/-- The answer makes the delivery throw: the setup of the sub-agent, the digest of a template, a listener. -/
def Throws : (request : ActionRequest) → request.Answer → Prop
  | .createTurnState, answer => ∃ error, answer = .error error
  | .subAgent .., _ => False
  | .appendCustomEntry _, _ => False
  | .appendMessage _, _ => False
  | .emitQueueUpdate _, answer => ∃ error, answer = .error error
  | .sha256Hex _, answer => ∃ error, answer = .error error

/-- No sub-agent starts for a trace that has one in flight, and nothing makes the delivery of one throw. -/
def Orderly (pool : ActionPool) : Pool.Event ActionInterface ActionCall → Prop
  | .begin (.deliver trigger action) => action.delivery = .subAgent → ¬ InFlight pool trigger.traceId
  | .begin _ => True
  | .resume index answers => ∀ call request next,
    pool.threads[index]? = some ⟨call, .ask (.subAgent, request) next⟩ → ¬ Throws request (answers (.subAgent, request))

section Shares

/-- The trace that a call registers. -/
private def traces : ActionCall → Multiset JsString
  | .deliver trigger action => if action.delivery = .subAgent then {trigger.traceId} else 0
  | _ => 0

/-- The registry holds the traces of the shares, each of them once. -/
private def actionDiscipline : Discipline ActionInterface ActionState ActionCall (Multiset JsString) where
  invariant total state := total.Nodup ∧ ∀ traceId, traceId ∈ total ↔ (state.runningTriggers.get? traceId).isSome
  allowed _ request answer := request.1 = .subAgent → ¬ Throws request.2 answer
  admits state call := ∀ traceId ∈ traces call, state.runningTriggers.get? traceId = none

private def holding (call : ActionCall) (_ : Option (TriggerDelivery × ActionRequest)) (share : Multiset JsString) :
    Prop :=
  share = traces call

private def settlesCall (_ : ActionCall) (_ : Except JsString Unit) (share : Multiset JsString) : Prop := share = 0

variable {call : ActionCall} {delivery : TriggerDelivery}

/-- The program leaves the registry alone; it throws for other deliveries only. -/
private abbrev Steady {α : Type} (call : ActionCall) (delivery : TriggerDelivery) (program : ActionProgram α) : Prop :=
  program.Keeps actionDiscipline (holding call) (traces call) fun _ => delivery ≠ .subAgent

private theorem emitHarnessEvent_steady (event : ActionEvent) : Steady call delivery (emitHarnessEvent event) :=
  keeps_update fun _ _ kept => kept

private theorem answered_steady {α : Type} {request : ActionRequest} {next : request.Answer → ActionProgram α}
    (goesOn : ∀ answer, (delivery = .subAgent → ¬ Throws request answer) → Steady call delivery (next answer)) :
    Steady call delivery (ask delivery request >>= next) :=
  keeps_ask (I := ActionInterface) rfl fun answer _ allowed => goesOn answer allowed

private theorem lift_steady {α : Type} {answer : Except JsString α}
    (fine : delivery = .subAgent → ¬ ∃ error, answer = .error error) :
    Steady call delivery (Program.lift answer : ActionProgram α) :=
  keeps_lift fun error same isSubAgent => fine isSubAgent ⟨error, same⟩

private theorem audit_steady (data : ActionAudit) (context failure : JsString) :
    Steady call delivery (audit delivery data context failure) := by
  apply answered_steady
  intro answer _
  cases answer with
  | ok id => exact keeps_pure ()
  | error error => exact emitHarnessEvent_steady _

private theorem queueFollowUp_steady (message : AgentMessage) : Steady call delivery (queueFollowUp delivery message) := by
  refine keeps_bind ?_ fun _ => keeps_bind (keeps_read _) fun followUp => ?_
  · exact keeps_update fun _ _ kept => kept
  apply answered_steady
  exact fun answer fine => lift_steady fine

private theorem recordPromotion_steady (trigger : Trigger) (rendered : RenderedPromotion) (state redactionStatus : JsString)
    (insertedEntryId : Option JsString) :
    Steady call delivery (recordPromotion delivery trigger rendered state redactionStatus insertedEntryId) :=
  keeps_bind (audit_steady _ _ _) fun _ => emitHarnessEvent_steady _

private theorem injectPromotion_steady (trigger : Trigger) (rendered : RenderedPromotion) :
    Steady call delivery (injectPromotion delivery trigger rendered) := by
  apply keeps_bind (keeps_read _)
  intro userMessage
  apply keeps_bind (keeps_read _)
  intro queuedForFollowUp
  cases queuedForFollowUp with
  | true => exact keeps_bind (queueFollowUp_steady userMessage) fun _ => recordPromotion_steady _ _ _ _ _
  | false =>
    apply answered_steady
    intro answer _
    cases answer with
    | ok insertedEntryId => exact recordPromotion_steady _ _ _ _ _
    | error error => exact keeps_bind (emitHarnessEvent_steady _) fun _ => audit_steady _ _ _

private theorem promoteSummary_steady (trigger : Trigger) (params : PromotionParams) (promoteKind : JsString)
    (templateBody : Option JsString) :
    Steady call delivery (promoteSummary delivery trigger params promoteKind templateBody) := by
  apply answered_steady
  intro answer fine
  apply keeps_bind (lift_steady fine)
  intro templateHash
  generalize (if templateBody = none then js "default" else js "inline:" ++ templateHash.take 8) = templateName
  cases renderPromotionTemplate _ _ with
  | error failure => exact keeps_bind (audit_steady _ _ _) fun _ => emitHarnessEvent_steady _
  | ok value =>
    dsimp only
    split
    · exact keeps_bind (audit_steady _ _ _) fun _ => emitHarnessEvent_steady _
    · exact injectPromotion_steady _ _

private theorem applyPromotion_steady (trigger : Trigger) (params : PromotionParams) :
    Steady call delivery (applyPromotion delivery trigger params) := by
  unfold applyPromotion
  split
  · exact keeps_pure ()
  · exact promoteSummary_steady _ _ _ _
  · split
    · exact promoteSummary_steady _ _ _ _
    · exact keeps_pure ()
  · exact audit_steady _ _ _

private theorem runInjectSummaryDelivery_steady (trigger : Trigger) (action : TriggerAction) :
    Steady call .injectSummary (runInjectSummaryDelivery trigger action) :=
  keeps_bind (emitHarnessEvent_steady _) fun _ => keeps_bind (audit_steady _ _ _) fun _ =>
    keeps_bind (emitHarnessEvent_steady _) fun _ => applyPromotion_steady _ _

private theorem appendToConversation_steady (message : AgentMessage) :
    Steady call .injectAndRun (appendToConversation message) := by
  apply answered_steady
  intro answer _
  cases answer with
  | ok id => exact keeps_pure ()
  | error error => exact emitHarnessEvent_steady _

private theorem runInjectAndRunDelivery_steady (trigger : Trigger) (action : TriggerAction) :
    Steady call .injectAndRun (runInjectAndRunDelivery trigger action) := by
  apply keeps_bind (emitHarnessEvent_steady _)
  intro _
  apply keeps_bind (keeps_read _)
  intro userMessage
  apply keeps_bind (keeps_read _)
  intro queuedForFollowUp
  refine keeps_bind ?_ fun _ => keeps_bind (audit_steady _ _ _) fun _ => keeps_bind (emitHarnessEvent_steady _) fun _ =>
    keeps_when (emitHarnessEvent_steady _)
  cases queuedForFollowUp with
  | true => exact queueFollowUp_steady userMessage
  | false => exact appendToConversation_steady userMessage

private theorem reportSubAgent_steady (trigger : Trigger) (action : TriggerAction) (outcome : Except JsString Unit)
    (observedMessages : List AgentMessage) :
    Steady call .subAgent (reportSubAgent trigger action outcome observedMessages) :=
  keeps_bind (audit_steady _ _ _) fun _ => keeps_bind (emitHarnessEvent_steady _) fun _ => applyPromotion_steady _ _

/-- The program gives the share of its call back, and never throws. -/
private def Releases (call : ActionCall) (program : ActionProgram Unit) : Prop :=
  ∀ frame state, actionDiscipline.invariant (traces call + frame) state →
    program.wp actionDiscipline (holding call)
      (fun outcome frame state => outcome = .ok () ∧ actionDiscipline.invariant frame state) frame state

private theorem releases_bind {α : Type} {first : ActionProgram α} {next : α → ActionProgram Unit}
    (steady : Steady call .subAgent first) (rest : ∀ value, Releases call (next value)) :
    Releases call (first >>= next) := by
  intro frame state kept
  rw [wp_bind]
  refine (steady frame state kept).mono fun outcome frame state ends => ?_
  cases outcome with
  | error error => exact absurd rfl (ends.1 error rfl)
  | ok value => exact rest value frame state ends.2

private theorem releases_ask {request : ActionRequest} {next : request.Answer → ActionProgram Unit}
    (goesOn : ∀ answer, ¬ Throws request answer → Releases call (next answer)) :
    Releases call (ask .subAgent request >>= next) := by
  intro frame state kept
  rw [wp_bind]
  refine wp_request (I := ActionInterface) (traces call) rfl kept fun answer frame state kept allowed => ?_
  exact goesOn answer (allowed rfl) frame state kept

variable {trigger : Trigger} {action : TriggerAction}

private theorem unregister_releases (owned : traces call = {trigger.traceId}) : Releases call (unregister trigger) := by
  intro frame state kept
  rw [owned] at kept
  obtain ⟨distinct, listed⟩ := kept
  rw [Multiset.singleton_add, Multiset.nodup_cons] at distinct
  refine ⟨rfl, distinct.2, fun traceId => ?_⟩
  by_cases same : traceId = trigger.traceId
  · subst same
    simp [distinct.1]
  · rw [JsMap.get?_delete_of_ne _ same, ← listed traceId]
    simp [same]

private theorem registered_kept {frame : Multiset JsString} {state : ActionState} {running : RunningTrigger}
    (kept : actionDiscipline.invariant frame state) (fresh : state.runningTriggers.get? trigger.traceId = none) :
    actionDiscipline.invariant ({trigger.traceId} + frame)
      { state with runningTriggers := state.runningTriggers.set trigger.traceId running } := by
  obtain ⟨distinct, listed⟩ := kept
  have unlisted : trigger.traceId ∉ frame := by
    intro member
    have present := (listed trigger.traceId).mp member
    rw [fresh] at present
    cases present
  refine ⟨by rw [Multiset.singleton_add]; exact Multiset.nodup_cons.mpr ⟨unlisted, distinct⟩, fun traceId => ?_⟩
  by_cases same : traceId = trigger.traceId
  · subst same
    simp
  · rw [JsMap.get?_set_of_ne _ _ same, ← listed traceId]
    simp [same]

/-- A sub-agent delivery owns the entry of its trace from its start to its end. -/
private theorem runSubAgentDelivery_wp {frame : Multiset JsString} {state : ActionState}
    (owned : traces call = {trigger.traceId}) (kept : actionDiscipline.invariant frame state)
    (fresh : state.runningTriggers.get? trigger.traceId = none) :
    (runSubAgentDelivery trigger action).wp actionDiscipline (holding call)
      (fun outcome frame state => outcome = .ok () ∧ actionDiscipline.invariant frame state) frame state := by
  rw [runSubAgentDelivery, wp_bind, register, wp_update, follows_ok]
  have rest : Releases call (do
      emitStarted trigger (previewForBanner action.prompt 80)
      let answer ← ask .subAgent .createTurnState
      let turnState ← Program.lift answer
      let prompt ← Program.read fun state => createUserMessage action.prompt state.now
      let reply ← ask .subAgent
        (.subAgent prompt ⟨turnState.systemPrompt, [], turnState.activeTools⟩ turnState.model turnState.thinkingLevel)
      reportSubAgent trigger action reply.1 reply.2
      unregister trigger) := by
    apply releases_bind (emitHarnessEvent_steady _)
    intro _
    apply releases_ask
    intro answer fine
    apply releases_bind (lift_steady fun _ => fine)
    intro turnState
    apply releases_bind (keeps_read _)
    intro prompt
    apply releases_ask
    intro answer _
    exact releases_bind (reportSubAgent_steady _ _ _ _) fun _ => unregister_releases owned
  apply rest
  rw [owned]
  exact registered_kept kept fresh

private theorem aborted_kept {total : Multiset JsString} {state : ActionState} (traceId : JsString)
    (kept : actionDiscipline.invariant total state) : actionDiscipline.invariant total (state.abortTrigger traceId) := by
  obtain ⟨distinct, listed⟩ := kept
  refine ⟨distinct, fun other => ?_⟩
  rw [listed other]
  unfold ActionState.abortTrigger
  cases found : state.runningTriggers.get? traceId with
  | none => rfl
  | some running =>
    dsimp only
    by_cases same : other = traceId
    · subst same
      simp [found]
    · rw [JsMap.get?_set_of_ne _ _ same]

private theorem allAborted_kept {total : Multiset JsString} {state : ActionState}
    (kept : actionDiscipline.invariant total state) : actionDiscipline.invariant total state.abortAllTriggers := by
  unfold ActionState.abortAllTriggers
  generalize state.runningTriggers.keys = known
  induction known generalizing state with
  | nil => exact kept
  | cons traceId known ih => exact ih (aborted_kept traceId kept)

private theorem handled_wp {frame : Multiset JsString} {state : ActionState} {delivery : TriggerDelivery}
    {body : ActionProgram Unit} (unowned : traces call = 0) (steady : Steady call delivery body)
    (kept : actionDiscipline.invariant frame state) (traceId : JsString) :
    (body.handle fun error => emitHarnessEvent (.triggerFailed traceId error)).wp actionDiscipline (holding call)
      (fun outcome frame state => ∃ share, settlesCall call outcome share ∧ actionDiscipline.invariant (share + frame) state)
      frame state := by
  rw [wp_handle]
  refine (steady frame state (by rwa [unowned, zero_add])).mono fun outcome frame state ends => ?_
  rw [unowned] at ends
  cases outcome with
  | ok value => exact ⟨0, rfl, ends.2⟩
  | error error => exact ⟨0, rfl, ends.2⟩

private theorem actions_disciplined : Disciplined actionDiscipline holding settlesCall actionEntry := by
  intro call frame state kept admitted
  cases call with
  | abortTrigger traceId => exact ⟨0, rfl, by rw [zero_add]; exact aborted_kept traceId kept⟩
  | abortAllTriggers => exact ⟨0, rfl, by rw [zero_add]; exact allAborted_kept kept⟩
  | parent phase followUpQueue now => exact ⟨0, rfl, by rw [zero_add]; exact kept⟩
  | deliver trigger action =>
    show (TriggerActions.deliver trigger action).wp _ _ _ _ _
    cases kind : action.delivery with
    | injectSummary =>
      have unowned : traces (.deliver trigger action) = 0 := if_neg (by simp [kind])
      rw [deliver, runTriggerAction, kind]
      exact handled_wp unowned (runInjectSummaryDelivery_steady trigger action) kept trigger.traceId
    | injectAndRun =>
      have unowned : traces (.deliver trigger action) = 0 := if_neg (by simp [kind])
      rw [deliver, runTriggerAction, kind]
      exact handled_wp unowned (runInjectAndRunDelivery_steady trigger action) kept trigger.traceId
    | subAgent =>
      have owned : traces (.deliver trigger action) = {trigger.traceId} := if_pos kind
      rw [deliver, runTriggerAction, kind, wp_handle]
      refine (runSubAgentDelivery_wp owned kept (admitted _ (by simp [owned]))).mono fun outcome frame state ends => ?_
      obtain ⟨rfl, kept⟩ := ends
      exact ⟨0, rfl, by rwa [zero_add]⟩

end Shares

section Runs

variable {pool : ActionPool}

private theorem mem_traces {call : ActionCall} {traceId : JsString} :
    traceId ∈ traces call ↔ ∃ trigger action, call = .deliver trigger action ∧ action.delivery = .subAgent ∧
      trigger.traceId = traceId := by
  cases call with
  | abortTrigger traceId => simp [traces]
  | abortAllTriggers => simp [traces]
  | parent phase followUpQueue now => simp [traces]
  | deliver trigger action =>
    constructor
    · intro member
      by_cases kind : action.delivery = .subAgent
      · exact ⟨trigger, action, rfl, kind, by simpa [traces, kind, eq_comm] using member⟩
      · simp [traces, kind] at member
    · rintro ⟨_, _, same, kind, rfl⟩
      cases same
      simp [traces, kind]

/-- The traces of the shares are those in flight. -/
private theorem mem_total {threads : List (Thread ActionInterface ActionState JsString Unit ActionCall)}
    {total : Multiset JsString} (accounted : Accounted actionDiscipline holding settlesCall threads total) (traceId : JsString) :
    traceId ∈ total ↔ ∃ thread ∈ threads, ∃ trigger action, thread.call = .deliver trigger action ∧
      action.delivery = .subAgent ∧ trigger.traceId = traceId ∧ ∀ outcome, thread.program ≠ .done outcome := by
  induction accounted with
  | nil => simp
  | @cons thread threads share total resting _ ih =>
    obtain ⟨call, program⟩ := thread
    have own : traceId ∈ share ↔ ∃ trigger action, call = .deliver trigger action ∧ action.delivery = .subAgent ∧
        trigger.traceId = traceId ∧ ∀ outcome, program ≠ .done outcome := by
      cases program with
      | done outcome =>
        obtain rfl : share = 0 := resting
        simp
      | act change next => exact resting.elim
      | halted =>
        obtain rfl : share = traces call := resting
        simpa using mem_traces
      | ask request next =>
        obtain rfl : share = traces call := resting.1
        simpa using mem_traces
    rw [Multiset.mem_add, ih, own]
    simp only [List.mem_cons, exists_eq_or_imp]

/-- The registry of a sound pool holds what is in flight. -/
private theorem registered_iff (sound : pool.Sound actionDiscipline holding settlesCall) (traceId : JsString) :
    (pool.shared.runningTriggers.get? traceId).isSome ↔ InFlight pool traceId := by
  obtain ⟨total, accounted, _, listed⟩ := sound
  rw [← listed traceId]
  exact mem_total accounted traceId

private theorem permitted_of_orderly (sound : pool.Sound actionDiscipline holding settlesCall)
    {event : Pool.Event ActionInterface ActionCall} (orderly : Orderly pool event) : pool.Permitted actionDiscipline event := by
  cases event with
  | begin call =>
    intro traceId member
    cases call with
    | abortTrigger other => simp [traces] at member
    | abortAllTriggers => simp [traces] at member
    | parent phase followUpQueue now => simp [traces] at member
    | deliver trigger action =>
      by_cases kind : action.delivery = .subAgent
      · obtain rfl : traceId = trigger.traceId := by simpa [traces, kind] using member
        rw [← Option.not_isSome_iff_eq_none, registered_iff sound]
        exact orderly kind
      · simp [traces, kind] at member
  | resume index answers =>
    intro call request next found isSubAgent
    obtain ⟨delivery, request⟩ := request
    obtain rfl : delivery = .subAgent := isSubAgent
    exact orderly call request next found

/-- A trigger whose key, label and trace are the given text. -/
private def dispatchedTrigger (traceId : String) : Trigger where
  source := .local (js "cron")
  sourceKind := .local
  sourceLabel := js "cron"
  eventLabel := js "tick"
  payloadVisibility := .local
  payloadSummary := none
  idempotencyKey := js traceId
  replacementPolicy := .drop
  traceId := js traceId
  authority := ⟨js "p", js "p", .user, [], none⟩
  receivedAt := ⟨js "t", some 0⟩

/-- A sub-agent starts for the trace. -/
private def start (traceId : String) : Pool.Event ActionInterface ActionCall :=
  .begin (.deliver (dispatchedTrigger traceId) (defaultTriggerAction (dispatchedTrigger traceId)))

/-- Answers without an error, but for the setup of a sub-agent. -/
private def answersOf (setup : Except JsString SubAgentSetup) :
    (request : TriggerDelivery × ActionRequest) → request.2.Answer
  | (_, .createTurnState) => setup
  | (_, .subAgent ..) => (.ok (), [])
  | (_, .appendCustomEntry _) => .ok (js "entry")
  | (_, .appendMessage _) => .ok (js "entry")
  | (_, .emitQueueUpdate _) => .ok ()
  | (_, .sha256Hex _) => .ok []

private def fineSetup : Except JsString SubAgentSetup := .ok ⟨⟨js "openai", js "gpt"⟩, none, [], []⟩

end Runs

end PieAgent.Soundness
