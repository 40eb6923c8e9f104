import Mathlib.Data.List.Infix
import PieAgent.Async.Core.Program
import PieAgent.Model.Agent.AgentLoop
import PieAgent.Model.Triggers.Promotion

/-! # Acting on accepted triggers

When the action for a trigger is known it is delivered: as a summary, as a message of the parent
conversation or by a sub-agent of its own, which is registered while it runs. A result may be promoted
into the parent conversation. Deliveries are detached, so that any number of them run at once.

A delivery waits for the session, for the digest of a template, for the listeners of the queues and for
its sub-agent; a request tells which kind of delivery waits. Listeners of harness events are isolated.
-/

namespace PieAgent.Model

open JavaScript Async

inductive AgentHarnessPhase where
  | idle | turn | compaction | branchSummary | retry
deriving DecidableEq

/-- The state of a running sub-agent; `startedAt` is in milliseconds. -/
structure RunningTriggerState where
  traceId : JsString
  sourceLabel : JsString
  eventLabel : JsString
  startedAt : ℤ
  promptPreview : JsString

/-- An entry of `runningTriggers`, with whether its controller was aborted. -/
structure RunningTrigger where
  state : RunningTriggerState
  aborted : Bool

/-- The data of a `trigger_result` entry; `costUsd` tells whether the cost is known to be zero. -/
structure TriggerResultAudit where
  traceId : JsString
  success : Bool
  summary : Option JsString
  messageCount : ℕ
  costUsd : Option ℕ
  reason : Option JsString
  delivery : Option JsString := none
  prefixInjected : Option Bool := none
  runDispatch : Option JsString := none

/-- The data of a `trigger_promotion` entry. -/
structure TriggerPromotionAudit where
  state : JsString
  traceId : JsString
  promoteKind : JsString
  reason : Option JsString := none
  templateName : Option JsString
  templateHash : Option JsString
  insertedEntryId : Option JsString
  redactionStatus : JsString
  prefixInjected : Bool

inductive ActionAudit where
  | triggerResult (data : TriggerResultAudit)
  | triggerPromotion (data : TriggerPromotionAudit)

/-- The harness events that deliveries emit. -/
inductive ActionEvent where
  | persistenceError (context message : JsString)
  | triggerExecutionStarted (traceId sourceLabel eventLabel promptPreview : JsString)
  | triggerCompleted (traceId : JsString) (summary : Option JsString) (costUsd : Option ℕ)
  | triggerFailed (traceId reason : JsString)
  | triggerRequestsMainRun (traceId : JsString)
  | triggerPromoted (traceId promoteKind insertedEntryId templateName redactionStatus : JsString)
  | promotionPending (traceId promoteKind templateName preview : JsString)

/-- What a sub-agent takes over from its parent. -/
structure SubAgentSetup where
  model : ModelRef
  thinkingLevel : Option ThinkingLevel
  systemPrompt : JsString
  activeTools : List AgentTool

inductive ActionRequest where
  | createTurnState
  /-- The race between the run of a sub-agent and its cancellation. -/
  | subAgent (prompt : AgentMessage) (context : AgentContext) (model : ModelRef) (reasoning : Option ThinkingLevel)
  | appendCustomEntry (data : ActionAudit)
  | appendMessage (message : AgentMessage)
  | emitQueueUpdate (followUp : List AgentMessage)
  | sha256Hex (input : JsString)

/-- A sub-agent is answered with how its run ended and the messages that were observed of it. -/
abbrev ActionRequest.Answer : ActionRequest → Type
  | createTurnState => Except JsString SubAgentSetup
  | subAgent .. => Except JsString Unit × List AgentMessage
  | appendCustomEntry _ => Except JsString JsString
  | appendMessage _ => Except JsString JsString
  | emitQueueUpdate _ => Except JsString Unit
  | sha256Hex _ => Except JsString JsString

abbrev ActionInterface : Interface := ⟨TriggerDelivery × ActionRequest, fun request => request.2.Answer⟩

/-- The part of the harness that deliveries use. -/
structure ActionState where
  runningTriggers : JsMap JsString RunningTrigger := .empty
  phase : AgentHarnessPhase := .idle
  followUpQueue : List AgentMessage := []
  now : ℤ := 0
  events : List ActionEvent := []

abbrev ActionProgram := Program ActionInterface ActionState JsString

/-- What is promoted of a result; its details are absent for every delivery. -/
structure PromotionParams where
  success : Bool
  summary : Option JsString
  messageCount : ℕ
  promote : PromoteAction
  requireApproval : Bool

/-- A rendered promotion, and what its audit says of it. -/
structure RenderedPromotion where
  promoteKind : JsString
  templateName : JsString
  templateHash : JsString
  prefixedBody : JsString
  prefixInjected : Bool

def createUserMessage (text : JsString) (now : ℤ) : AgentMessage :=
  .user { content := .blocks [.text { text }], timestamp := .millis now }

namespace TriggerActions

def emitHarnessEvent (event : ActionEvent) : ActionProgram Unit :=
  Program.update fun state => { state with events := state.events ++ [event] }

section Delivery

variable (delivery : TriggerDelivery)

/-- Wait for an answer. -/
def ask (request : ActionRequest) : ActionProgram request.Answer :=
  Program.request (I := ActionInterface) (delivery, request)

/-- Append an audit entry; a failure is only reported. -/
def audit (data : ActionAudit) (context failure : JsString) : ActionProgram Unit := do
  match ← ask delivery (.appendCustomEntry data) with
  | .ok _ => pure ()
  | .error error => emitHarnessEvent (.persistenceError context (failure ++ error))

def writeTriggerResultAudit (data : TriggerResultAudit) : ActionProgram Unit :=
  audit delivery (.triggerResult data) (js "trigger_result") (js "trigger_result append failed: ")

def writeTriggerPromotionAudit (data : TriggerPromotionAudit) : ActionProgram Unit :=
  audit delivery (.triggerPromotion data) (js "trigger_promotion") (js "trigger_promotion append failed: ")

/-- Queue a message for the run in progress, and wait for the listeners. -/
def queueFollowUp (message : AgentMessage) : ActionProgram Unit := do
  Program.update fun state => { state with followUpQueue := state.followUpQueue ++ [message] }
  let followUp ← Program.read (·.followUpQueue)
  let answer ← ask delivery (.emitQueueUpdate followUp)
  Program.lift answer

/-- The audit entry of a rendered promotion. -/
def promotionAudit (trigger : Trigger) (rendered : RenderedPromotion) (state redactionStatus : JsString)
    (insertedEntryId : Option JsString) : TriggerPromotionAudit :=
  { state, traceId := trigger.traceId, promoteKind := rendered.promoteKind, templateName := some rendered.templateName
    templateHash := some rendered.templateHash, insertedEntryId, redactionStatus
    prefixInjected := rendered.prefixInjected }

/-- Record a promotion that has reached the conversation or its queue. -/
def recordPromotion (trigger : Trigger) (rendered : RenderedPromotion) (state redactionStatus : JsString)
    (insertedEntryId : Option JsString) : ActionProgram Unit := do
  writeTriggerPromotionAudit delivery (promotionAudit trigger rendered state redactionStatus insertedEntryId)
  emitHarnessEvent (.triggerPromoted trigger.traceId rendered.promoteKind (insertedEntryId.getD []) rendered.templateName
    redactionStatus)

/-- Inject a promotion into the conversation, or queue it while a run is in progress. -/
def injectPromotion (trigger : Trigger) (rendered : RenderedPromotion) : ActionProgram Unit := do
  let (finalBody, truncated) := truncateOnCharBoundary rendered.prefixedBody promotionBodyCapBytes
  let redactionStatus := if truncated then js "truncated" else js "clean"
  let userMessage ← Program.read fun state => createUserMessage finalBody state.now
  let queuedForFollowUp ← Program.read fun state => decide (state.phase ≠ .idle)
  if queuedForFollowUp then do
    queueFollowUp delivery userMessage
    recordPromotion delivery trigger rendered (js "queued") redactionStatus none
  else do
    match ← ask delivery (.appendMessage userMessage) with
    | .ok insertedEntryId =>
      recordPromotion delivery trigger rendered (js "success") redactionStatus (some insertedEntryId)
    | .error error => do
      emitHarnessEvent (.persistenceError (js "trigger_promotion") (js "promotion message append failed: " ++ error))
      writeTriggerPromotionAudit delivery (promotionAudit trigger rendered (js "failed") (js "render_error") none)

/-- Offer a promotion for approval. -/
def offerPromotion (trigger : Trigger) (rendered : RenderedPromotion) : ActionProgram Unit := do
  let (preview, _) := truncateOnCharBoundary rendered.prefixedBody promotionBodyCapBytes
  let redactionStatus := if preview.length = rendered.prefixedBody.length then js "clean" else js "truncated"
  writeTriggerPromotionAudit delivery (promotionAudit trigger rendered (js "pending") redactionStatus none)
  emitHarnessEvent (.promotionPending trigger.traceId rendered.promoteKind rendered.templateName preview)

/-- `applyPromotion` once its kind and its template are known. -/
def promoteSummary (trigger : Trigger) (params : PromotionParams) (promoteKind : JsString)
    (templateBody : Option JsString) : ActionProgram Unit := do
  let context := buildTemplateContext trigger.traceId trigger params.success params.summary params.messageCount
  let bodyTemplate := templateBody.getD defaultPromoteSummaryTemplate
  let answer ← ask delivery (.sha256Hex bodyTemplate)
  let templateHash ← Program.lift answer
  let templateName := if templateBody = none then js "default" else js "inline:" ++ templateHash.take 8
  match renderPromotionTemplate context bodyTemplate with
  | .error failure => do
    writeTriggerPromotionAudit delivery
      { state := js "failed", traceId := trigger.traceId, promoteKind, templateName := some templateName
        templateHash := some templateHash, insertedEntryId := none, redactionStatus := failure.redactionStatus
        prefixInjected := false }
    emitHarnessEvent (.persistenceError (js "trigger_promotion") failure.message)
  | .ok value =>
    let (prefixedBody, prefixInjected) := ensureTriggerPrefix value trigger.traceId
    let rendered := { promoteKind, templateName, templateHash, prefixedBody, prefixInjected }
    if params.requireApproval then offerPromotion delivery trigger rendered
    else injectPromotion delivery trigger rendered

/-- `applyPromotion`. Without details the condition of the last kind is never met. -/
def applyPromotion (trigger : Trigger) (params : PromotionParams) : ActionProgram Unit :=
  match params.promote with
  | .none => pure ()
  | .promoteSummaryNow templateBody =>
    promoteSummary delivery trigger params (js "promote_summary_now") templateBody
  | .promoteSummaryWhenSummaryContains templateBody requiredSubstrings =>
    if requiredSubstrings.any (· <:+: params.summary.getD []) then
      promoteSummary delivery trigger params (js "promote_summary_now") templateBody
    else pure ()
  | .promoteSummaryWhenResultDetailsMatch _ _ =>
    writeTriggerPromotionAudit delivery
      { state := js "skipped", traceId := trigger.traceId
        promoteKind := js "promote_summary_when_result_details_match", reason := some (js "result_details_missing")
        templateName := none, templateHash := none, insertedEntryId := none, redactionStatus := js "skipped"
        prefixInjected := false }

end Delivery

def emitStarted (trigger : Trigger) (promptPreview : JsString) : ActionProgram Unit :=
  emitHarnessEvent (.triggerExecutionStarted trigger.traceId trigger.sourceLabel trigger.eventLabel promptPreview)

def runInjectSummaryDelivery (trigger : Trigger) (action : TriggerAction) : ActionProgram Unit := do
  emitStarted trigger (previewForBanner (trigger.payloadSummary.getD (js "(no summary)")) 80)
  writeTriggerResultAudit .injectSummary
    { traceId := trigger.traceId, success := true, summary := trigger.payloadSummary, messageCount := 0
      costUsd := some 0, reason := none, delivery := some (js "inject_summary") }
  emitHarnessEvent (.triggerCompleted trigger.traceId trigger.payloadSummary (some 0))
  applyPromotion .injectSummary trigger
    { success := true, summary := trigger.payloadSummary, messageCount := 0, promote := action.promote
      requireApproval := action.promoteRequiresApproval }

/-- Append a message to the conversation; a failure is only reported. -/
def appendToConversation (message : AgentMessage) : ActionProgram Unit := do
  match ← ask .injectAndRun (.appendMessage message) with
  | .ok _ => pure ()
  | .error error =>
    emitHarnessEvent (.persistenceError (js "trigger_inject_and_run") (js "inject_and_run append failed: " ++ error))

/-- Queue a message of a trigger, or append it. -/
def placeMessage (message : AgentMessage) (queuedForFollowUp : Bool) : ActionProgram Unit :=
  if queuedForFollowUp then queueFollowUp .injectAndRun message else appendToConversation message

def runInjectAndRunDelivery (trigger : Trigger) (action : TriggerAction) : ActionProgram Unit := do
  let (cappedBody, _) := truncateOnCharBoundary action.prompt promotionBodyCapBytes
  let (body, prefixInjected) := ensureTriggerPrefix cappedBody trigger.traceId
  emitStarted trigger (previewForBanner body 80)
  let userMessage ← Program.read fun state => createUserMessage body state.now
  let queuedForFollowUp ← Program.read fun state => decide (state.phase ≠ .idle)
  placeMessage userMessage queuedForFollowUp
  writeTriggerResultAudit .injectAndRun
    { traceId := trigger.traceId, success := true, summary := some body, messageCount := 0, costUsd := some 0
      reason := none, delivery := some (js "inject_and_run"), prefixInjected := some prefixInjected
      runDispatch := some (if queuedForFollowUp then js "follow_up" else js "main_run_request") }
  emitHarnessEvent (.triggerCompleted trigger.traceId (some body) (some 0))
  Program.when (!queuedForFollowUp) (emitHarnessEvent (.triggerRequestsMainRun trigger.traceId))

/-- `runningTriggers.set`. -/
def register (trigger : Trigger) (action : TriggerAction) : ActionProgram Unit :=
  Program.update fun state =>
    { state with
      runningTriggers := state.runningTriggers.set trigger.traceId
        { state :=
            { traceId := trigger.traceId, sourceLabel := trigger.sourceLabel, eventLabel := trigger.eventLabel
              startedAt := state.now, promptPreview := previewForBanner action.prompt 80 }
          aborted := false } }

/-- `runningTriggers.delete`. -/
def unregister (trigger : Trigger) : ActionProgram Unit :=
  Program.update fun state => { state with runningTriggers := state.runningTriggers.delete trigger.traceId }

/-- Report how a sub-agent ended, and promote its result. -/
def reportSubAgent (trigger : Trigger) (action : TriggerAction) (outcome : Except JsString Unit)
    (observedMessages : List AgentMessage) : ActionProgram Unit := do
  let summary := lastAssistantText observedMessages
  let failureReason := match outcome with
    | .ok _ => none
    | .error error => some error
  writeTriggerResultAudit .subAgent
    { traceId := trigger.traceId, success := failureReason.isNone, summary, messageCount := observedMessages.length
      costUsd := none, reason := failureReason }
  emitHarnessEvent (match failureReason with
    | none => .triggerCompleted trigger.traceId summary none
    | some reason => .triggerFailed trigger.traceId reason)
  applyPromotion .subAgent trigger
    { success := failureReason.isNone, summary, messageCount := observedMessages.length, promote := action.promote
      requireApproval := action.promoteRequiresApproval }

def runSubAgentDelivery (trigger : Trigger) (action : TriggerAction) : ActionProgram Unit := do
  register trigger action
  emitStarted trigger (previewForBanner action.prompt 80)
  let answer ← ask .subAgent .createTurnState
  let turnState ← Program.lift answer
  let prompt ← Program.read fun state => createUserMessage action.prompt state.now
  let (outcome, observedMessages) ← ask .subAgent
    (.subAgent prompt ⟨turnState.systemPrompt, [], turnState.activeTools⟩ turnState.model turnState.thinkingLevel)
  reportSubAgent trigger action outcome observedMessages
  unregister trigger

/-- `runTriggerAction` once the action is known. -/
def runTriggerAction (trigger : Trigger) (action : TriggerAction) : ActionProgram Unit :=
  match action.delivery with
  | .injectSummary => runInjectSummaryDelivery trigger action
  | .injectAndRun => runInjectAndRunDelivery trigger action
  | .subAgent => runSubAgentDelivery trigger action

/-- The detached action, with the error handler of `spawnTriggerAction`. -/
def deliver (trigger : Trigger) (action : TriggerAction) : ActionProgram Unit :=
  (runTriggerAction trigger action).handle fun error => emitHarnessEvent (.triggerFailed trigger.traceId error)

end TriggerActions

/-- An entry whose controller is aborted. -/
def RunningTrigger.abort (running : RunningTrigger) : RunningTrigger := { running with aborted := true }

def ActionState.abortTrigger (traceId : JsString) (state : ActionState) : ActionState :=
  match state.runningTriggers.get? traceId with
  | some running => { state with runningTriggers := state.runningTriggers.set traceId running.abort }
  | none => state

def ActionState.abortAllTriggers (state : ActionState) : ActionState :=
  state.runningTriggers.keys.foldl (fun state traceId => state.abortTrigger traceId) state

/-- What happens at the harness: a delivery starts, triggers are aborted, the parent goes its own way. -/
inductive ActionCall where
  | deliver (trigger : Trigger) (action : TriggerAction)
  | abortTrigger (traceId : JsString)
  | abortAllTriggers
  | parent (phase : AgentHarnessPhase) (followUpQueue : List AgentMessage) (now : ℤ)

def actionEntry : ActionCall → ActionProgram Unit
  | .deliver trigger action => TriggerActions.deliver trigger action
  | .abortTrigger traceId => Program.update (ActionState.abortTrigger traceId)
  | .abortAllTriggers => Program.update ActionState.abortAllTriggers
  | .parent phase followUpQueue now => Program.update fun state => { state with phase, followUpQueue, now }

abbrev ActionPool := Pool ActionInterface ActionState JsString Unit ActionCall

end PieAgent.Model
