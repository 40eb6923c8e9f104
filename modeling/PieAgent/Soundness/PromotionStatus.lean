import PieAgent.Async.Core.Program
import PieAgent.Model.Triggers.TriggerActions
import PieAgent.Proofs.Triggers.Promotion

/-! # What is recorded of a promoted text

A rendered body gets a prefix with its trace, is cut to a number of bytes and is then offered, queued or appended. The
offer compares lengths in code units, so a loss as long as the marker is recorded as none; the delivery that injects a
prompt adds the prefix behind the cut, so its text may exceed the limit.
-/

namespace PieAgent.Soundness.PromotionStatus

open JavaScript Async Model TriggerActions Proofs.Promotion

abbrev ActionStep := Step ActionInterface ActionState

/-- The step offers a text for approval, queues it or appends it to the conversation. -/
def Promotes : ActionStep → JsString → Prop
  | .changed before after, text =>
    (∃ traceId promoteKind templateName,
      after.events = before.events ++ [.promotionPending traceId promoteKind templateName text]) ∨
    ∃ now, after.followUpQueue = before.followUpQueue ++ [createUserMessage text now]
  | .asked (_, .appendMessage message) (.ok _), text => ∃ now, message = createUserMessage text now
  | .asked _ _, _ => False

/-- The step records a promotion with a redaction status. -/
def Records : ActionStep → JsString → Prop
  | .asked (_, .appendCustomEntry (.triggerPromotion data)) _, status => data.redactionStatus = status
  | _, _ => False

def Promoted (trail : List ActionStep) (text : JsString) : Prop := ∃ step ∈ trail, Promotes step text

def Recorded (trail : List ActionStep) (status : JsString) : Prop := ∃ step ∈ trail, Records step status

/-- Characters of a body are missing from the text that is promoted for it. -/
def Dropped (traceId body text : JsString) : Prop := body ≠ [] ∧ text ≠ (ensureTriggerPrefix body traceId).1

/-- A promoted text is within the limit, and its recorded status tells whether characters of the body were dropped. -/
structure Truthful (traceId body : JsString) (trail : List ActionStep) : Prop where
  capped : ∀ text, Promoted trail text → (utf8Bytes text).length ≤ promotionBodyCapBytes
  status : ∀ text status, Promoted trail text → Recorded trail status →
    (status = js "truncated" ↔ Dropped traceId body text)

/-- The ways of a text into the conversation: a result, which is offered for approval or injected, or a prompt. -/
inductive Promotion where
  | result (delivery : TriggerDelivery) (params : PromotionParams)
  | injectAndRun (action : TriggerAction)

namespace Promotion

def program (trigger : Trigger) : Promotion → ActionProgram Unit
  | result delivery params => applyPromotion delivery trigger params
  | injectAndRun action => runInjectAndRunDelivery trigger action

/-- The template of a result that is promoted. -/
def template? (params : PromotionParams) : Option JsString :=
  match params.promote with
  | .promoteSummaryNow templateBody => some (templateBody.getD defaultPromoteSummaryTemplate)
  | .promoteSummaryWhenSummaryContains templateBody requiredSubstrings =>
    if requiredSubstrings.any (· <:+: params.summary.getD []) then
      some (templateBody.getD defaultPromoteSummaryTemplate)
    else none
  | _ => none

/-- The body that is promoted. -/
def Renders (trigger : Trigger) (body : JsString) : Promotion → Prop
  | result _ params => ∃ template, template? params = some template ∧ renderPromotionTemplate
    (buildTemplateContext trigger.traceId trigger params.success params.summary params.messageCount) template = .ok body
  | injectAndRun action => action.prompt = body

end Promotion

/-- What the marker leaves of the limit. -/
def keptBytes : ℕ := 4082

def Fits (text : JsString) : Prop := (utf8Bytes text).length ≤ promotionBodyCapBytes

/-- A result is all right when the prefixed body fits. Otherwise its body must not be empty, and for an offer the part
that is cut off must not be as long as the marker. A prompt has to fit with its prefix, or to begin with it. -/
def Promotion.Fine (traceId body : JsString) : Promotion → Prop
  | result _ params =>
    Fits (ensureTriggerPrefix body traceId).1 ∨
      if params.requireApproval then
        ∃ front lost, CutAt keptBytes (ensureTriggerPrefix body traceId).1 front lost ∧ (lost.length = 12 ↔ body = [])
      else body ≠ []
  | injectAndRun _ =>
    Fits (ensureTriggerPrefix body traceId).1 ∨
      ¬Fits body ∧ ∃ front lost, CutAt keptBytes body front lost ∧
        js "[Trigger " ++ traceId ++ js "] " <+: ofText (scalars front)

section Trails

variable {program : ActionProgram Unit} {trail : List ActionStep} {text status : JsString}

@[simp] private theorem promoted_nil : ¬Promoted [] text := by simp [Promoted]

@[simp] private theorem promoted_cons (step : ActionStep) :
    Promoted (step :: trail) text ↔ Promotes step text ∨ Promoted trail text := by simp [Promoted]

@[simp] private theorem recorded_nil : ¬Recorded [] status := by simp [Recorded]

@[simp] private theorem recorded_cons (step : ActionStep) :
    Recorded (step :: trail) status ↔ Records step status ∨ Recorded trail status := by simp [Recorded]

@[simp] private theorem createUserMessage_inj (first second : JsString) (now now' : ℤ) :
    createUserMessage first now = createUserMessage second now' ↔ first = second ∧ now = now' := by
  simp [createUserMessage]

/-- Every run promotes one text at most, with one status, and some run does so. -/
private structure PromotesOnly (program : ActionProgram Unit) (text : JsString) (status : Option JsString) : Prop where
  only : program.EveryTrail fun trail => ∀ other, Promoted trail other → other = text ∧
    ∀ recorded, Recorded trail recorded → status = some recorded
  does : ∀ holds, program.EveryTrail holds → ∃ trail, holds trail ∧ Promoted trail text ∧
    ∀ recorded ∈ status, Recorded trail recorded

private theorem truthful_iff_of_only {traceId body : JsString} {status : Option JsString}
    (only : PromotesOnly program text status) : (program.EveryTrail fun trail => Truthful traceId body trail) ↔
      (utf8Bytes text).length ≤ promotionBodyCapBytes ∧
        ∀ recorded ∈ status, (recorded = js "truncated" ↔ Dropped traceId body text) := by
  constructor
  · intro truthful
    obtain ⟨trail, holds, promoted, recorded⟩ := only.does _ truthful
    exact ⟨holds.capped text promoted, fun status given => holds.status text status promoted (recorded status given)⟩
  · rintro ⟨capped, told⟩
    refine only.only.mono fun trail once => ⟨fun other promoted => ?_, fun other status promoted recorded => ?_⟩
    · obtain ⟨rfl, -⟩ := once other promoted
      exact capped
    · obtain ⟨rfl, known⟩ := once other promoted
      exact told status (known status recorded)

end Trails

section Programs

variable {delivery : TriggerDelivery} {trigger : Trigger} {holds : List ActionStep → Prop} {next : Unit → ActionProgram Unit}
  {text status : JsString}

/-- A wait has an answer for success and one for failure. -/
private theorem forall_answer_iff {α : Type} {property : Except JsString α → Prop} :
    (∀ answer, property answer) ↔ (∀ value, property (.ok value)) ∧ ∀ error, property (.error error) := by
  constructor
  · exact fun every => ⟨fun value => every (.ok value), fun error => every (.error error)⟩
  · rintro ⟨success, failure⟩ (error | value)
    · exact failure error
    · exact success value

private def emitted (state : ActionState) (event : ActionEvent) : ActionStep :=
  .changed state { state with events := state.events ++ [event] }

private theorem everyTrail_emit (event : ActionEvent) :
    (emitHarnessEvent event).EveryTrail holds ↔ ∀ state, holds [emitted state event] := Iff.rfl

private theorem everyTrail_emit_bind (event : ActionEvent) : (emitHarnessEvent event >>= next).EveryTrail holds ↔
    ∀ state, (next ()).EveryTrail fun trail => holds (emitted state event :: trail) := Iff.rfl

private theorem everyTrail_audit_bind (data : ActionAudit) (context failure : JsString) :
    (audit delivery data context failure >>= next).EveryTrail holds ↔
      (∀ id, (next ()).EveryTrail fun trail => holds (.asked (delivery, .appendCustomEntry data) (.ok id) :: trail)) ∧
      ∀ error state, (next ()).EveryTrail fun trail => holds (.asked (delivery, .appendCustomEntry data) (.error error) ::
        emitted state (.persistenceError context (failure ++ error)) :: trail) := forall_answer_iff

private theorem everyTrail_audit (data : ActionAudit) (context failure : JsString) :
    (audit delivery data context failure).EveryTrail holds ↔
      (∀ id, holds [.asked (delivery, .appendCustomEntry data) (.ok id)]) ∧
      ∀ error state, holds [.asked (delivery, .appendCustomEntry data) (.error error),
        emitted state (.persistenceError context (failure ++ error))] := forall_answer_iff

private theorem everyTrail_queueFollowUp_bind (message : AgentMessage) :
    (queueFollowUp delivery message >>= next).EveryTrail holds ↔ ∀ state state' : ActionState,
      let queued : ActionStep := .changed state { state with followUpQueue := state.followUpQueue ++ [message] }
      ((next ()).EveryTrail fun trail =>
        holds (queued :: .changed state' state' ::
          .asked (delivery, .emitQueueUpdate state'.followUpQueue) (.ok ()) :: trail)) ∧
      ∀ error, holds [queued, .changed state' state',
        .asked (delivery, .emitQueueUpdate state'.followUpQueue) (.error error)] := by
  constructor
  · exact fun every state state' => ⟨every state state' (.ok ()), fun error => every state state' (.error error)⟩
  · intro both state state' answer
    obtain ⟨told, failed⟩ := both state state'
    cases answer with
    | ok => exact told
    | error error => exact failed error

private theorem everyTrail_appendMessage_bind (message : AgentMessage) (appended failed : JsString → ActionProgram Unit) :
    (ask delivery (.appendMessage message) >>= fun answer =>
      match answer with
      | .ok id => appended id
      | .error error => failed error).EveryTrail holds ↔
      (∀ id, (appended id).EveryTrail fun trail => holds (.asked (delivery, .appendMessage message) (.ok id) :: trail)) ∧
      ∀ error, (failed error).EveryTrail fun trail =>
        holds (.asked (delivery, .appendMessage message) (.error error) :: trail) := forall_answer_iff

/-- The status of an offer. -/
private def offeredStatus (prefixedBody : JsString) : JsString :=
  if (truncateOnCharBoundary prefixedBody promotionBodyCapBytes).1.length = prefixedBody.length then js "clean"
  else js "truncated"

private def injectedStatus (prefixedBody : JsString) : JsString :=
  if (truncateOnCharBoundary prefixedBody promotionBodyCapBytes).2 then js "truncated" else js "clean"

private theorem offerPromotion_only (rendered : RenderedPromotion) :
    PromotesOnly (offerPromotion delivery trigger rendered)
      (truncateOnCharBoundary rendered.prefixedBody promotionBodyCapBytes).1
      (some (offeredStatus rendered.prefixedBody)) := by
  have shape : offerPromotion delivery trigger rendered = (do
      writeTriggerPromotionAudit delivery
        (promotionAudit trigger rendered (js "pending") (offeredStatus rendered.prefixedBody) none)
      emitHarnessEvent (.promotionPending trigger.traceId rendered.promoteKind rendered.templateName
        (truncateOnCharBoundary rendered.prefixedBody promotionBodyCapBytes).1)) := rfl
  rw [shape]
  generalize (truncateOnCharBoundary rendered.prefixedBody promotionBodyCapBytes).1 = preview
  generalize offeredStatus rendered.prefixedBody = status
  refine ⟨?_, fun holds every => ?_⟩
  · rw [writeTriggerPromotionAudit, everyTrail_audit_bind]
    refine ⟨fun id => ?_, fun error state => ?_⟩ <;> rw [everyTrail_emit] <;> intro state' other <;>
      simp [Promotes, Records, emitted, promotionAudit, eq_comm]
  · rw [writeTriggerPromotionAudit, everyTrail_audit_bind] at every
    exact ⟨_, every.1 [] {}, by simp [Promotes], by simp [Records, promotionAudit]⟩

private theorem injectPromotion_only (rendered : RenderedPromotion) :
    PromotesOnly (injectPromotion delivery trigger rendered)
      (truncateOnCharBoundary rendered.prefixedBody promotionBodyCapBytes).1
      (some (injectedStatus rendered.prefixedBody)) := by
  have shape : injectPromotion delivery trigger rendered = (do
      let userMessage ← Program.read fun state =>
        createUserMessage (truncateOnCharBoundary rendered.prefixedBody promotionBodyCapBytes).1 state.now
      let queuedForFollowUp ← Program.read fun state => decide (state.phase ≠ .idle)
      if queuedForFollowUp then do
        queueFollowUp delivery userMessage
        recordPromotion delivery trigger rendered (js "queued") (injectedStatus rendered.prefixedBody) none
      else do
        match ← ask delivery (.appendMessage userMessage) with
        | .ok insertedEntryId =>
          recordPromotion delivery trigger rendered (js "success") (injectedStatus rendered.prefixedBody)
            (some insertedEntryId)
        | .error error => do
          emitHarnessEvent (.persistenceError (js "trigger_promotion") (js "promotion message append failed: " ++ error))
          writeTriggerPromotionAudit delivery
            (promotionAudit trigger rendered (js "failed") (js "render_error") none)) := rfl
  rw [shape]
  generalize (truncateOnCharBoundary rendered.prefixedBody promotionBodyCapBytes).1 = finalBody
  generalize injectedStatus rendered.prefixedBody = status
  refine ⟨?_, fun holds every => ?_⟩
  · rw [Program.everyTrail_read_bind]
    intro state
    rw [Program.everyTrail_read_bind]
    intro state'
    split
    · rw [everyTrail_queueFollowUp_bind]
      refine fun before after => ⟨?_, fun error other => by simp [Promotes, Records, eq_comm]⟩
      rw [recordPromotion, writeTriggerPromotionAudit, everyTrail_audit_bind]
      refine ⟨fun id => ?_, fun error between => ?_⟩ <;> rw [everyTrail_emit] <;> intro last other <;>
        simp [Promotes, Records, emitted, promotionAudit, eq_comm]
    · rw [everyTrail_appendMessage_bind]
      refine ⟨fun id => ?_, fun error => ?_⟩
      · rw [recordPromotion, writeTriggerPromotionAudit, everyTrail_audit_bind]
        refine ⟨fun id => ?_, fun error between => ?_⟩ <;> rw [everyTrail_emit] <;> intro last other <;>
          simp [Promotes, Records, emitted, promotionAudit, eq_comm]
      · rw [everyTrail_emit_bind]
        intro between
        rw [writeTriggerPromotionAudit, everyTrail_audit]
        refine ⟨fun id other => ?_, fun error last other => ?_⟩ <;> simp [Promotes, emitted]
  · rw [Program.everyTrail_read_bind] at every
    have idle := every {}
    rw [Program.everyTrail_read_bind] at idle
    have appended := idle {}
    rw [if_neg (by decide), everyTrail_appendMessage_bind] at appended
    have recorded := appended.1 []
    rw [recordPromotion, writeTriggerPromotionAudit, everyTrail_audit_bind] at recorded
    exact ⟨_, recorded.1 [] {}, by simp [Promotes], by simp [Records, promotionAudit]⟩

private theorem promotesOnly_digest {input text : JsString} {status : Option JsString}
    {next : JsString → ActionProgram Unit} (each : ∀ hash, PromotesOnly (next hash) text status) :
    PromotesOnly (ask delivery (.sha256Hex input) >>= fun answer => Program.lift answer >>= next) text status where
  only := by
    rintro (error | hash)
    · intro other
      simp [Promotes]
    · refine (each hash).only.mono fun trail once other promoted => ?_
      obtain ⟨same, known⟩ := once other (by simpa [Promotes] using promoted)
      exact ⟨same, fun recorded given => known recorded (by simpa [Records] using given)⟩
  does holds every := by
    obtain ⟨trail, kept, promoted, recorded⟩ := (each []).does _ (every (.ok []))
    exact ⟨_, kept, by simp [promoted], fun status given => by simp [recorded status given]⟩

/-- The status of a result, offered or injected. -/
private def resultStatus (requireApproval : Bool) (prefixedBody : JsString) : JsString :=
  if requireApproval then offeredStatus prefixedBody else injectedStatus prefixedBody

private theorem promoteSummary_only (params : PromotionParams) (promoteKind : JsString) (templateBody : Option JsString)
    {body : JsString} (rendered : renderPromotionTemplate
      (buildTemplateContext trigger.traceId trigger params.success params.summary params.messageCount)
      (templateBody.getD defaultPromoteSummaryTemplate) = .ok body) :
    PromotesOnly (promoteSummary delivery trigger params promoteKind templateBody)
      (truncateOnCharBoundary (ensureTriggerPrefix body trigger.traceId).1 promotionBodyCapBytes).1
      (some (resultStatus params.requireApproval (ensureTriggerPrefix body trigger.traceId).1)) := by
  unfold promoteSummary
  dsimp only
  refine promotesOnly_digest fun hash => ?_
  rw [rendered]
  dsimp only
  unfold resultStatus
  split
  · exact offerPromotion_only _
  · exact injectPromotion_only _

private theorem applyPromotion_only {params : PromotionParams} {template body : JsString}
    (chosen : Promotion.template? params = some template) (rendered : renderPromotionTemplate
      (buildTemplateContext trigger.traceId trigger params.success params.summary params.messageCount) template = .ok body) :
    PromotesOnly (applyPromotion delivery trigger params)
      (truncateOnCharBoundary (ensureTriggerPrefix body trigger.traceId).1 promotionBodyCapBytes).1
      (some (resultStatus params.requireApproval (ensureTriggerPrefix body trigger.traceId).1)) := by
  unfold Promotion.template? at chosen
  unfold applyPromotion
  split at chosen
  next kind =>
    cases chosen
    rw [kind]
    exact promoteSummary_only params _ _ rendered
  next kind =>
    rw [kind]
    dsimp only
    split at chosen
    next matches_ =>
      cases chosen
      rw [if_pos matches_]
      exact promoteSummary_only params _ _ rendered
    · cases chosen
  · cases chosen

/-- The steps neither promote a text nor record a promotion. -/
private def Quiet (trail : List ActionStep) : Prop := (∀ text, ¬Promoted trail text) ∧ ∀ status, ¬Recorded trail status

/-- What follows on the placing of a prompt. -/
private def reportPrompt (trigger : Trigger) (data : TriggerResultAudit) (body : JsString) (queuedForFollowUp : Bool) :
    ActionProgram Unit := do
  writeTriggerResultAudit .injectAndRun data
  emitHarnessEvent (.triggerCompleted trigger.traceId (some body) (some 0))
  Program.when (!queuedForFollowUp) (emitHarnessEvent (.triggerRequestsMainRun trigger.traceId))

private theorem reportPrompt_quiet (data : TriggerResultAudit) (body : JsString) (queuedForFollowUp : Bool) :
    (reportPrompt trigger data body queuedForFollowUp).EveryTrail Quiet := by
  rw [reportPrompt, writeTriggerResultAudit, everyTrail_audit_bind]
  refine ⟨fun id => ?_, fun error state => ?_⟩ <;> rw [everyTrail_emit_bind] <;> intro state <;>
    cases queuedForFollowUp
  · intro last
    simp [Quiet, Promotes, Records, emitted]
  · simp [Program.when, Quiet, Promotes, Records, emitted]
  · intro last
    simp [Quiet, Promotes, Records, emitted]
  · simp [Program.when, Quiet, Promotes, Records, emitted]

private theorem everyTrail_appendToConversation_bind (message : AgentMessage) :
    (appendToConversation message >>= next).EveryTrail holds ↔
      (∀ id, (next ()).EveryTrail fun trail => holds (.asked (.injectAndRun, .appendMessage message) (.ok id) :: trail)) ∧
      ∀ error state, (next ()).EveryTrail fun trail => holds (.asked (.injectAndRun, .appendMessage message) (.error error) ::
        emitted state (.persistenceError (js "trigger_inject_and_run") (js "inject_and_run append failed: " ++ error)) ::
          trail) := forall_answer_iff

private theorem runInjectAndRunDelivery_only (action : TriggerAction) :
    PromotesOnly (runInjectAndRunDelivery trigger action)
      (ensureTriggerPrefix (truncateOnCharBoundary action.prompt promotionBodyCapBytes).1 trigger.traceId).1 none := by
  have shape : ∃ (event : JsString) (data : Bool → TriggerResultAudit), runInjectAndRunDelivery trigger action = (do
      emitHarnessEvent (.triggerExecutionStarted trigger.traceId trigger.sourceLabel trigger.eventLabel event)
      let userMessage ← Program.read fun state => createUserMessage (ensureTriggerPrefix
        (truncateOnCharBoundary action.prompt promotionBodyCapBytes).1 trigger.traceId).1 state.now
      let queuedForFollowUp ← Program.read fun state => decide (state.phase ≠ .idle)
      placeMessage userMessage queuedForFollowUp
      reportPrompt trigger (data queuedForFollowUp) (ensureTriggerPrefix
        (truncateOnCharBoundary action.prompt promotionBodyCapBytes).1 trigger.traceId).1 queuedForFollowUp) :=
    ⟨_, _, rfl⟩
  obtain ⟨event, data, shape⟩ := shape
  rw [shape]
  generalize (ensureTriggerPrefix (truncateOnCharBoundary action.prompt promotionBodyCapBytes).1 trigger.traceId).1 = body
  refine ⟨?_, fun holds every => ?_⟩
  · rw [everyTrail_emit_bind]
    intro state
    rw [Program.everyTrail_read_bind]
    intro state'
    rw [Program.everyTrail_read_bind]
    intro state''
    cases decide (state''.phase ≠ .idle) with
    | true =>
      rw [placeMessage, if_pos rfl, everyTrail_queueFollowUp_bind]
      refine fun before after => ⟨?_, fun error other => by simp [Promotes, Records, emitted, eq_comm]⟩
      refine (reportPrompt_quiet _ _ _).mono fun trail quiet other => ?_
      simp [Promotes, Records, emitted, quiet.1, quiet.2, eq_comm]
    | false =>
      rw [placeMessage, if_neg (by decide), everyTrail_appendToConversation_bind]
      refine ⟨fun id => ?_, fun error between => ?_⟩ <;>
        refine (reportPrompt_quiet _ _ _).mono fun trail quiet other => ?_ <;>
        simp [Promotes, Records, emitted, quiet.1, quiet.2, eq_comm]
  · rw [everyTrail_emit_bind] at every
    have started := every {}
    rw [Program.everyTrail_read_bind] at started
    have idle := started {}
    rw [Program.everyTrail_read_bind] at idle
    have placed := idle {}
    rw [placeMessage, if_neg (by decide), everyTrail_appendToConversation_bind] at placed
    have reported := placed.1 []
    rw [reportPrompt, writeTriggerResultAudit, everyTrail_audit_bind] at reported
    exact ⟨_, reported.1 [] {} {}, by simp [Promotes], nofun⟩

end Programs

section Texts

variable {traceId body text front lost : JsString} {trigger : Trigger}

private theorem getLast?_mark (traceId : JsString) : (js "[Trigger " ++ traceId ++ js "] ").getLast? = some 0x20 := by
  rw [List.getLast?_append]
  rfl

private theorem separate_mark (traceId body : JsString) : Separate (js "[Trigger " ++ traceId ++ js "] ") body :=
  separate_of_end fun unit last => by
    rw [getLast?_mark] at last
    obtain rfl : 0x20 = unit := Option.some.inj last
    decide

private theorem four_le_prefix (traceId : JsString) :
    4 ≤ (utf8Bytes (js "[Trigger " ++ traceId ++ js "] ")).length := by
  have apart : Separate (js "[Trigger ") (traceId ++ js "] ") := separate_of_end fun unit last => by
    obtain rfl : 0x20 = unit := Option.some.inj last
    decide
  have nine : (utf8Bytes (js "[Trigger ")).length = 9 := by
    rw [js, utf8Bytes_ofText]
    decide
  rw [List.append_assoc, utf8Bytes_append apart, List.length_append]
  omega

/-- The prefix ends with a space, which the marker has none of. -/
private theorem prefix_cut_iff (traceId front : JsString) :
    js "[Trigger " ++ traceId ++ js "] " <+: front ++ truncationMarker ↔ js "[Trigger " ++ traceId ++ js "] " <+: front := by
  refine ⟨fun starts => ?_, fun starts => starts.trans (List.prefix_append _ _)⟩
  by_contra beyond
  have longer : ¬(js "[Trigger " ++ traceId ++ js "] ").length ≤ front.length := fun short =>
    beyond (List.prefix_of_prefix_length_le starts (List.prefix_append _ _) short)
  obtain ⟨rest, same⟩ := List.prefix_of_prefix_length_le (List.prefix_append front truncationMarker) starts
    (Nat.le_of_not_le longer)
  rw [← same, List.prefix_append_right_inj] at starts
  have some_ : rest ≠ [] := by
    rintro rfl
    exact longer (by rw [← same, List.append_nil])
  have last := getLast?_mark traceId
  rw [← same, List.getLast?_append_of_ne_nil _ some_] at last
  have space := starts.subset (List.mem_of_getLast? last)
  exact absurd space (by decide)

private theorem not_fits_prefixed (large : ¬Fits body) : ¬Fits (ensureTriggerPrefix body traceId).1 := by
  unfold ensureTriggerPrefix
  dsimp only
  split
  · exact large
  · intro fits
    rw [Fits, utf8Bytes_append (separate_mark traceId body), List.length_append] at fits
    exact large (by unfold Fits; omega)

/-- For a prompt that is cut, only a prefix in what is kept leaves room. -/
private theorem capped_prompt_iff (large : ¬Fits body) (cut : CutAt keptBytes body front lost) :
    (utf8Bytes (ensureTriggerPrefix (truncateOnCharBoundary body promotionBodyCapBytes).1 traceId).1).length ≤
      promotionBodyCapBytes ↔ js "[Trigger " ++ traceId ++ js "] " <+: ofText (scalars front) := by
  have beyond : promotionBodyCapBytes < (utf8Bytes body).length := Nat.lt_of_not_le large
  have within := length_truncateOnCharBoundary_le (show 14 ≤ promotionBodyCapBytes by decide) body
  have almost := cut.almost (lt_trans (by decide) beyond)
  have four := four_le_prefix traceId
  rw [truncateOnCharBoundary_of_cut beyond cut] at within ⊢
  rw [length_utf8Bytes_cut] at within
  rw [← prefix_cut_iff]
  unfold ensureTriggerPrefix
  dsimp only
  split
  next starts =>
    rw [length_utf8Bytes_cut]
    exact iff_of_true within starts
  next absent =>
    rw [utf8Bytes_append (separate_mark traceId _), List.length_append, length_utf8Bytes_cut]
    refine iff_of_false ?_ absent
    unfold keptBytes at almost
    unfold promotionBodyCapBytes
    omega

private theorem dropped_iff (large : promotionBodyCapBytes < (utf8Bytes (ensureTriggerPrefix body traceId).1).length) :
    Dropped traceId body (truncateOnCharBoundary (ensureTriggerPrefix body traceId).1 promotionBodyCapBytes).1 ↔
      body ≠ [] := by
  refine ⟨And.left, fun some_ => ⟨some_, fun same => ?_⟩⟩
  have within := length_truncateOnCharBoundary_le (show 14 ≤ promotionBodyCapBytes by decide)
    (ensureTriggerPrefix body traceId).1
  rw [same] at within
  omega

private theorem clean_ne_truncated : js "clean" ≠ js "truncated" := by decide

/-- What is recorded for a body that fits is true. -/
private theorem told_of_fits {requireApproval : Bool} (fits : Fits (ensureTriggerPrefix body traceId).1) :
    resultStatus requireApproval (ensureTriggerPrefix body traceId).1 = js "truncated" ↔
      Dropped traceId body (truncateOnCharBoundary (ensureTriggerPrefix body traceId).1 promotionBodyCapBytes).1 := by
  have same := truncateOnCharBoundary_of_fits fits
  have clean : resultStatus requireApproval (ensureTriggerPrefix body traceId).1 = js "clean" := by
    cases requireApproval with
    | true => rw [resultStatus, if_pos rfl, offeredStatus, same, if_pos rfl]
    | false => rw [resultStatus, if_neg Bool.false_ne_true, injectedStatus, same, if_neg Bool.false_ne_true]
  rw [clean, same]
  exact iff_of_false clean_ne_truncated fun dropped => dropped.2 rfl

private theorem told_offer_iff (large : ¬Fits (ensureTriggerPrefix body traceId).1)
    (cut : CutAt keptBytes (ensureTriggerPrefix body traceId).1 front lost) :
    (resultStatus true (ensureTriggerPrefix body traceId).1 = js "truncated" ↔
      Dropped traceId body (truncateOnCharBoundary (ensureTriggerPrefix body traceId).1 promotionBodyCapBytes).1) ↔
      (lost.length = 12 ↔ body = []) := by
  have beyond : promotionBodyCapBytes < (utf8Bytes (ensureTriggerPrefix body traceId).1).length := Nat.lt_of_not_le large
  have status : resultStatus true (ensureTriggerPrefix body traceId).1 = js "truncated" ↔ lost.length ≠ 12 := by
    rw [resultStatus, if_pos rfl, offeredStatus, truncateOnCharBoundary_of_cut beyond cut, length_cut, cut.length]
    split
    next same => exact iff_of_false clean_ne_truncated (by omega)
    next differ => exact iff_of_true rfl (by omega)
  rw [dropped_iff beyond, status]
  exact not_iff_not

private theorem told_injection_iff (large : ¬Fits (ensureTriggerPrefix body traceId).1) :
    (resultStatus false (ensureTriggerPrefix body traceId).1 = js "truncated" ↔
      Dropped traceId body (truncateOnCharBoundary (ensureTriggerPrefix body traceId).1 promotionBodyCapBytes).1) ↔
      body ≠ [] := by
  have beyond : promotionBodyCapBytes < (utf8Bytes (ensureTriggerPrefix body traceId).1).length := Nat.lt_of_not_le large
  obtain ⟨front, lost, cut⟩ := exists_cutAt keptBytes (ensureTriggerPrefix body traceId).1
  have status : resultStatus false (ensureTriggerPrefix body traceId).1 = js "truncated" := by
    rw [resultStatus, if_neg (by decide), injectedStatus, truncateOnCharBoundary_of_cut beyond cut, if_pos rfl]
  rw [dropped_iff beyond, status]
  exact ⟨fun same => same.mp rfl, fun some_ => iff_of_true rfl some_⟩

end Texts

private theorem resultFine_iff (delivery : TriggerDelivery) (params : PromotionParams) (traceId body : JsString) :
    ((utf8Bytes (truncateOnCharBoundary (ensureTriggerPrefix body traceId).1 promotionBodyCapBytes).1).length ≤
        promotionBodyCapBytes ∧
      ∀ recorded ∈ some (resultStatus params.requireApproval (ensureTriggerPrefix body traceId).1),
        (recorded = js "truncated" ↔
          Dropped traceId body (truncateOnCharBoundary (ensureTriggerPrefix body traceId).1 promotionBodyCapBytes).1)) ↔
      (Promotion.result delivery params).Fine traceId body := by
  have within := length_truncateOnCharBoundary_le (show 14 ≤ promotionBodyCapBytes by decide)
    (ensureTriggerPrefix body traceId).1
  simp only [within, true_and, Option.mem_some_iff, forall_eq', Promotion.Fine]
  by_cases fits : Fits (ensureTriggerPrefix body traceId).1
  · exact iff_of_true (told_of_fits fits) (.inl fits)
  · simp only [fits, false_or]
    cases params.requireApproval with
    | true =>
      rw [if_pos rfl]
      obtain ⟨front, lost, cut⟩ := exists_cutAt keptBytes (ensureTriggerPrefix body traceId).1
      refine ⟨fun told => ⟨front, lost, cut, (told_offer_iff fits cut).mp told⟩, ?_⟩
      rintro ⟨front, lost, cut, same⟩
      exact (told_offer_iff fits cut).mpr same
    | false =>
      rw [if_neg Bool.false_ne_true]
      exact told_injection_iff fits

private theorem promptFine_iff (action : TriggerAction) (traceId body : JsString) :
    ((utf8Bytes (ensureTriggerPrefix (truncateOnCharBoundary body promotionBodyCapBytes).1 traceId).1).length ≤
        promotionBodyCapBytes ∧
      ∀ recorded ∈ (none : Option JsString), (recorded = js "truncated" ↔
        Dropped traceId body (ensureTriggerPrefix (truncateOnCharBoundary body promotionBodyCapBytes).1 traceId).1)) ↔
      (Promotion.injectAndRun action).Fine traceId body := by
  simp only [Option.not_mem_none, false_imp_iff, implies_true, and_true, Promotion.Fine]
  by_cases fits : Fits body
  · rw [truncateOnCharBoundary_of_fits fits]
    exact ⟨.inl, fun fine => fine.resolve_right fun cut => cut.1 fits⟩
  · simp only [not_fits_prefixed fits, false_or, fits, not_false_eq_true, true_and]
    obtain ⟨front, lost, cut⟩ := exists_cutAt keptBytes body
    refine ⟨fun capped => ⟨front, lost, cut, (capped_prompt_iff fits cut).mp capped⟩, ?_⟩
    rintro ⟨front, lost, cut, starts⟩
    exact (capped_prompt_iff fits cut).mpr starts

private theorem Promotion.Renders.unique {trigger : Trigger} {promotion : Promotion} {body other : JsString}
    (one : promotion.Renders trigger body) (two : promotion.Renders trigger other) : body = other := by
  cases promotion with
  | result delivery params =>
    obtain ⟨template, chosen, rendered⟩ := one
    obtain ⟨template', chosen', rendered'⟩ := two
    obtain rfl : template = template' := Option.some.inj (chosen.symm.trans chosen')
    exact Except.ok.inj (rendered.symm.trans rendered')
  | injectAndRun action => exact (Eq.symm one).trans two

/-- Every run of a promotion is truthful about the body that it renders exactly when that body is all right. -/
theorem status_truthful_iff (trigger : Trigger) (promotion : Promotion) :
    ((promotion.program trigger).EveryTrail fun trail =>
      ∀ body, promotion.Renders trigger body → Truthful trigger.traceId body trail) ↔
      ∀ body, promotion.Renders trigger body → promotion.Fine trigger.traceId body := by
  by_cases rendered : ∃ body, promotion.Renders trigger body
  · obtain ⟨body, renders⟩ := rendered
    have once (other : JsString) : promotion.Renders trigger other ↔ other = body :=
      ⟨fun renders' => renders'.unique renders, fun same => same ▸ renders⟩
    simp only [once, forall_eq]
    cases promotion with
    | result delivery params =>
      obtain ⟨template, chosen, rendered⟩ := renders
      exact (truthful_iff_of_only (applyPromotion_only chosen rendered)).trans (resultFine_iff delivery params _ body)
    | injectAndRun action =>
      obtain rfl : action.prompt = body := renders
      exact (truthful_iff_of_only (runInjectAndRunDelivery_only action)).trans (promptFine_iff action _ _)
  · push Not at rendered
    exact iff_of_true (.of_forall fun _ body renders => absurd renders (rendered body))
      fun body renders => absurd renders (rendered body)

section Misreported

private def cronTrigger : Trigger where
  source := .local (js "cron")
  sourceKind := .local
  sourceLabel := js "cron"
  eventLabel := js "tick"
  payloadVisibility := .local
  payloadSummary := none
  idempotencyKey := js "t"
  replacementPolicy := .drop
  traceId := js "t"
  authority := ⟨js "p", js "p", .user, [], none⟩
  receivedAt := ⟨js "t", some 0⟩

/-- An offer of a text from a template without placeholders. -/
private def offer (template : JsString) : Promotion :=
  .result .subAgent
    { success := true, summary := none, messageCount := 0, promote := .promoteSummaryNow (some template)
      requireApproval := true }

private def prompt (text : JsString) : Promotion :=
  .injectAndRun { prompt := text, promote := .none, promoteRequiresApproval := false, delivery := .injectAndRun }

private theorem splitFirst?_eq_none {pattern text : JsString} {unit : CodeUnit} (first : pattern.head? = some unit)
    (absent : unit ∉ text) : splitFirst? pattern text = none := by
  obtain ⟨rest, rfl⟩ := List.head?_eq_some_iff.mp first
  induction text with
  | nil => rfl
  | cons other text ih =>
    rw [List.mem_cons, not_or] at absent
    rw [splitFirst?, if_neg, ih absent.2]
    · rfl
    · rintro ⟨more, same⟩
      exact absent.1 (List.cons.inj same).1

private theorem offer_renders {body : JsString} (plain : 0x7B ∉ body) : (offer body).Renders cronTrigger body := by
  refine ⟨body, rfl, ?_⟩
  rw [renderPromotionTemplate]
  split
  · rfl
  next found => cases (splitFirst?_eq_none rfl plain).symm.trans found

/-- A text of ASCII letters with something behind them. -/
private def filled (n : ℕ) (tail : List Char) : JsString := ofText (List.replicate (n + 1) 'x' ++ tail)

private theorem filled_eq (n : ℕ) (tail : List Char) : filled n tail = 0x78 :: ofText (List.replicate n 'x' ++ tail) := by
  have letter : utf16 'x' = [0x78] := by decide
  rw [filled, List.replicate_succ, List.cons_append, ofText_cons, letter]
  rfl

private def tracePrefix : List Char := "[Trigger t] ".toList

private theorem prefixed_filled (n : ℕ) (tail : List Char) : (ensureTriggerPrefix (filled n tail) (js "t")).1 =
    ofText (tracePrefix ++ List.replicate (n + 1) 'x' ++ tail) := by
  have whole : js "[Trigger " ++ js "t" ++ js "] " = ofText tracePrefix := by decide
  have start : ofText tracePrefix = 0x5B :: ofText (tracePrefix.drop 1) := by decide
  unfold ensureTriggerPrefix
  dsimp only
  rw [whole, if_neg]
  · rw [filled, List.append_assoc, ofText, ofText, ofText, ← List.flatMap_append]
  · rintro ⟨rest, same⟩
    rw [start, filled_eq] at same
    exact absurd (List.cons.inj same).1 (by decide)

private theorem length_prefixed (n : ℕ) (tail : List Char) :
    (utf8Bytes (ensureTriggerPrefix (filled n tail) (js "t")).1).length = 12 + (n + 1) + (encodeUtf8 tail).length := by
  have twelve : (encodeUtf8 tracePrefix).length = 12 := by decide
  have one : (encodeChar 'x').length = 1 := by decide
  rw [prefixed_filled, utf8Bytes_ofText, encodeUtf8_append, encodeUtf8_append, List.length_append, List.length_append,
    length_encodeUtf8_replicate, twelve, one, Nat.mul_one]

private theorem euros_bytes : (encodeUtf8 (List.replicate 12 '€')).length = 36 := by decide

private theorem euros_cut : CutAt keptBytes (ensureTriggerPrefix (filled 4069 (List.replicate 12 '€')) (js "t")).1
    (ofText (tracePrefix ++ List.replicate (4069 + 1) 'x')) (ofText (List.replicate 12 '€')) := by
  have twelve : (encodeUtf8 tracePrefix).length = 12 := by decide
  have one : (encodeChar 'x').length = 1 := by decide
  have kept : (utf8Bytes (ofText (tracePrefix ++ List.replicate (4069 + 1) 'x'))).length = keptBytes := by
    rw [utf8Bytes_ofText, encodeUtf8_append, List.length_append, length_encodeUtf8_replicate, twelve, one]
    rfl
  rw [prefixed_filled]
  refine ⟨?_, kept.le, fun character head => ?_⟩
  · rw [characters_ofText, characters_ofText, characters_ofText, List.map_append]
  · rw [characters_ofText] at head
    obtain rfl : utf16 '€' = character := Option.some.inj head
    have three : (utf8Bytes (utf16 '€')).length = 3 := by decide
    rw [kept, three]
    omega

private theorem euros_large : ¬Fits (ensureTriggerPrefix (filled 4069 (List.replicate 12 '€')) (js "t")).1 := by
  rw [Fits, length_prefixed, euros_bytes]
  decide

private theorem brace_not_mem_filled (n : ℕ) : 0x7B ∉ filled n (List.replicate 12 '€') := by
  intro inside
  obtain ⟨c, member, unit⟩ := List.mem_flatMap.mp inside
  rcases List.mem_append.mp member with x | euro
  · rw [List.eq_of_mem_replicate x] at unit
    exact absurd unit (by decide)
  · rw [List.eq_of_mem_replicate euro] at unit
    exact absurd unit (by decide)

private theorem fits_filled : Fits (filled 4095 []) := by
  have one : (encodeChar 'x').length = 1 := by decide
  rw [Fits, filled, List.append_nil, utf8Bytes_ofText, length_encodeUtf8_replicate, one]
  decide

private theorem prompt_exceeds {body : JsString} (fits : Fits body) (exceeds : ¬Fits (ensureTriggerPrefix body (js "t")).1) :
    ¬((prompt body).program cronTrigger).EveryTrail fun trail => Truthful cronTrigger.traceId body trail := by
  intro truthful
  have capped := ((truthful_iff_of_only (runInjectAndRunDelivery_only _)).mp truthful).1
  have same : (truncateOnCharBoundary body promotionBodyCapBytes).1 = body :=
    congrArg Prod.fst (truncateOnCharBoundary_of_fits fits)
  have kept : Fits (ensureTriggerPrefix (truncateOnCharBoundary body promotionBodyCapBytes).1 (js "t")).1 := capped
  rw [same] at kept
  exact exceeds kept

/-- The twelve characters that an offer loses are as long as the marker, so it is recorded as clean; and a prompt that
fills the limit exceeds it with its prefix. -/
theorem misreports :
    (∃ body, (offer body).Renders cronTrigger body ∧
      ¬((offer body).program cronTrigger).EveryTrail fun trail => Truthful cronTrigger.traceId body trail) ∧
    ∃ body, ¬((prompt body).program cronTrigger).EveryTrail fun trail => Truthful cronTrigger.traceId body trail := by
  constructor
  · have renders := offer_renders (brace_not_mem_filled 4069)
    refine ⟨_, renders, fun truthful => ?_⟩
    obtain ⟨template, chosen, rendered⟩ := renders
    have told := ((truthful_iff_of_only (applyPromotion_only chosen rendered)).mp truthful).2 _ rfl
    have twelve : (ofText (List.replicate 12 '€')).length = 12 := by decide
    have empty := ((told_offer_iff euros_large euros_cut).mp told).mp twelve
    rw [filled_eq] at empty
    cases empty
  · refine ⟨filled 4095 [], prompt_exceeds fits_filled ?_⟩
    rw [Fits, length_prefixed]
    decide

end Misreported

end PieAgent.Soundness.PromotionStatus
