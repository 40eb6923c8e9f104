import PieAgent.Effects.Core.Traced
import PieAgent.JavaScript.Core.Json
import PieAgent.Model.Triggers.TriggerRuntime

/-! # Handling triggers

`handleTrigger` evaluates a trigger, asks the permission hook and, when the hook says so, a prompt,
appends an audit record and dispatches the trigger if it was accepted. The pump takes the triggers out
of the queue of a notification hook, in order, and hands each of them to `handleTrigger`.

Hooks and session are a world that may answer differently for each position in the stream and may
throw. Whatever else uses the same runtime acts between two triggers of the stream, as a part of the
world. Listeners are isolated, so that an event is just noted.
-/

namespace PieAgent.Model

open JavaScript Effects

inductive TriggerState where
  | received | accepted | deduped | cycleSuppressed | permissionDenied | needsApproval | running | failed | completed
deriving DecidableEq

inductive BeforeTriggerDecision where
  | allow
  | deny (reason : JsString)
  | prompt (reason : JsString)

inductive TriggerPromptDecision where
  | allow
  | deny (reason : Option JsString)
  | timeout (reason : Option JsString)
deriving DecidableEq

structure TriggerPromptRequest where
  triggerPromptId : JsString
  traceId : JsString
  sourceLabel : JsString
  receiverAgentId : Option JsString
  senderAgentId : JsString
  actionClass : JsString
  triggerSummary : Option JsString
  payload : Json
  reason : JsString

/-- `evaluator_decision` of an audit record. -/
inductive EvaluatorDecision where
  | allowed
  | denied (reason : JsString)
  | prompted (triggerPromptId promptDecision reason : JsString) (decisionReason : Option JsString)
  | deduped (replacementPolicy : ReplacementPolicy) (previousTraceId : JsString)
  | cycleSuppressed (hopCount : ℕ)

/-- `TriggerRecord` with the fields that `handleTrigger` sets. -/
structure TriggerRecord where
  schemaVersion : ℕ
  source : TriggerSource
  sourceKind : SourceKind
  sourceLabel : JsString
  eventLabel : JsString
  traceId : JsString
  authority : TriggerAuthority
  idempotencyKey : JsString
  replacementPolicy : ReplacementPolicy
  receivedAt : IsoTimestamp
  state : TriggerState
  payloadVisibility : PayloadVisibility
  payloadSummary : Option JsString
  evaluatorDecision : Option EvaluatorDecision

/-- The data of a `trigger_prompt` entry. -/
structure TriggerPromptAudit where
  schemaVersion : ℕ
  triggerPromptId : JsString
  traceId : JsString
  sourceLabel : JsString
  receiverAgentId : Option JsString
  senderAgentId : JsString
  actionClass : JsString
  decision : JsString
  reason : Option JsString

/-- A custom entry that handling a trigger appends. -/
inductive AuditEntry where
  | trigger (record : TriggerRecord)
  | triggerPrompt (data : TriggerPromptAudit)

/-- Hooks, session and the other users of the runtime. The first argument is the position in the stream. -/
structure TriggerWorld where
  beforeTrigger : Option (ℕ → Trigger → TriggerRuntimeSnapshot → Except JsString BeforeTriggerDecision)
  buildTriggerPromptRequest : ℕ → Trigger → JsString → Except JsString TriggerPromptRequest
  onTriggerPrompt : Option (ℕ → TriggerPromptRequest → Except JsString TriggerPromptDecision)
  appendCustomEntry : ℕ → AuditEntry → Except JsString JsString
  /-- What others do to the runtime before the trigger at a position is evaluated. -/
  others : ℕ → TriggerRuntime → TriggerRuntime

/-- What handling a trigger does, in order. -/
inductive TriggerObservation where
  | handlingStart (trigger : Trigger)
  | evaluated (trigger : Trigger) (outcome : EvaluationOutcome)
  | permission (answer : Except JsString BeforeTriggerDecision)
  | promptRequest (request : TriggerPromptRequest)
  | promptAnswered (answer : Except JsString TriggerPromptDecision)
  | appended (entry : AuditEntry)
  | persistenceError (context message : JsString)
  | handled (trigger : Trigger) (state : TriggerState) (auditEntryId : Option JsString) (decision : EvaluatorDecision)
  | dispatched (trigger : Trigger)

abbrev TriggerRun := Traced JsString TriggerObservation

def triggerPromptReasonCapChars : ℕ := 512

def controlPlanePromptLabelCapChars : ℕ := 200

/-- A text of at most `cap` characters, an ellipsis marking a cut. -/
def capCharacters (cap : ℕ) (text : JsString) : JsString :=
  if (characters text).length ≤ cap then text else ((characters text).take (cap - 1)).flatten ++ [0x2026]

def capTriggerPromptReason (reason : JsString) : JsString := capCharacters triggerPromptReasonCapChars reason

def capControlPlaneAuditLabel (label : JsString) : JsString := capCharacters controlPlanePromptLabelCapChars label

def TriggerPromptDecision.kind : TriggerPromptDecision → JsString
  | .allow => js "allow"
  | .deny _ => js "deny"
  | .timeout _ => js "timeout"

/-- The reason of a decision that is no allow, capped. -/
def TriggerPromptDecision.cappedReason : TriggerPromptDecision → Option JsString
  | .allow => none
  | .deny reason | .timeout reason => reason.map capTriggerPromptReason

def triggerRecordReceivedFrom (trigger : Trigger) : TriggerRecord where
  schemaVersion := 1
  source := trigger.source
  sourceKind := trigger.sourceKind
  sourceLabel := trigger.sourceLabel
  eventLabel := trigger.eventLabel
  traceId := trigger.traceId
  authority := trigger.authority
  idempotencyKey := trigger.idempotencyKey
  replacementPolicy := trigger.replacementPolicy
  receivedAt := trigger.receivedAt
  state := .received
  payloadVisibility := trigger.payloadVisibility
  payloadSummary := trigger.payloadSummary
  evaluatorDecision := none

namespace TriggerWorld

variable (world : TriggerWorld) (position : ℕ)

/-- Append an audit entry; a failure is only reported. -/
def audit (entry : AuditEntry) (context : JsString) (failure : JsString) : TriggerRun (Option JsString) :=
  match world.appendCustomEntry position entry with
  | .ok id => do
    Traced.log [.appended entry]
    pure (some id)
  | .error error => do
    Traced.log [.persistenceError context (failure ++ error)]
    pure none

def runBeforeTriggerHook (trigger : Trigger) (runtime : TriggerRuntime) : TriggerRun BeforeTriggerDecision :=
  match world.beforeTrigger with
  | none => pure .allow
  | some hook => Traced.call .permission (hook position trigger runtime.snapshot)

def writeTriggerPromptAudit (request : TriggerPromptRequest) (decision : TriggerPromptDecision) :
    TriggerRun (Option JsString) :=
  world.audit position
    (.triggerPrompt
      { schemaVersion := 1, triggerPromptId := request.triggerPromptId, traceId := request.traceId
        sourceLabel := capControlPlaneAuditLabel request.sourceLabel, receiverAgentId := request.receiverAgentId
        senderAgentId := request.senderAgentId, actionClass := request.actionClass
        decision := decision.kind, reason := decision.cappedReason })
    (js "trigger_prompt") (js "trigger prompt audit append failed: ")

/-- The answer of the prompt hook, a denial when there is none. -/
def askTriggerPrompt (request : TriggerPromptRequest) : TriggerRun TriggerPromptDecision :=
  match world.onTriggerPrompt with
  | some ask => Traced.call .promptAnswered (ask position request)
  | none => pure (.deny (some (js ("trigger prompt required but no onTriggerPrompt hook configured " ++
      "(fail-closed deny — see issue #110 design v0.2)"))))

def resolveTriggerPrompt (trigger : Trigger) (reason : JsString) :
    TriggerRun (TriggerPromptRequest × TriggerPromptDecision) := do
  let request ← Traced.lift (world.buildTriggerPromptRequest position trigger reason)
  Traced.log [.promptRequest request]
  let decision ← world.askTriggerPrompt position request
  let _ ← world.writeTriggerPromptAudit position request decision
  pure (request, decision)

/-- The state of an accepted trigger after the permission hook, and the prompt if it asks for one. -/
def permit (trigger : Trigger) (runtime : TriggerRuntime) : TriggerRun (TriggerState × EvaluatorDecision) := do
  let permissionDecision ← world.runBeforeTriggerHook position trigger runtime
  match permissionDecision with
  | .allow => pure (.accepted, .allowed)
  | .deny reason => pure (.permissionDenied, .denied reason)
  | .prompt reason => do
    let (request, decision) ← world.resolveTriggerPrompt position trigger reason
    pure (if decision = .allow then .accepted else .needsApproval,
      .prompted request.triggerPromptId decision.kind request.reason decision.cappedReason)

/-- The state of a trigger after its evaluation. -/
def judge (trigger : Trigger) (runtime : TriggerRuntime) :
    EvaluationOutcome → TriggerRun (TriggerState × EvaluatorDecision)
  | .accept => world.permit position trigger runtime
  | .deduped replacementPolicy previousTraceId => pure (.deduped, .deduped replacementPolicy previousTraceId)
  | .cycleSuppressed hopCount => pure (.cycleSuppressed, .cycleSuppressed hopCount)

/-- Record the decision on a trigger, and dispatch the trigger if it was accepted. -/
def conclude (trigger : Trigger) (state : TriggerState) (decision : EvaluatorDecision) : TriggerRun Unit := do
  let record := { triggerRecordReceivedFrom trigger with state, evaluatorDecision := some decision }
  let auditEntryId ← world.audit position (.trigger record) (js "trigger_audit") (js "trigger audit append failed: ")
  Traced.log (.handled trigger state auditEntryId decision ::
    if state = .accepted then [.dispatched trigger] else [])

/-- `handleTrigger` after the evaluation. -/
def handleEvaluated (trigger : Trigger) (runtime : TriggerRuntime) (outcome : EvaluationOutcome) : TriggerRun Unit := do
  Traced.log [.handlingStart trigger, .evaluated trigger outcome]
  let (state, decision) ← world.judge position trigger runtime outcome
  world.conclude position trigger state decision

/-- The evaluation of the trigger at a position. -/
def evaluate (trigger : Trigger) (runtime : TriggerRuntime) : TriggerRuntime × EvaluationOutcome :=
  (world.others position runtime).evaluate trigger

/-- `handleTrigger`. -/
def handleTrigger (trigger : Trigger) (runtime : TriggerRuntime) : TriggerRun Unit :=
  world.handleEvaluated position trigger (world.evaluate position trigger runtime).1
    (world.evaluate position trigger runtime).2

/-- The pump from a position on: the first trigger whose handling throws ends it. -/
def pump : ℕ → TriggerRuntime → List Trigger → TriggerRun Unit
  | _, _, [] => pure ()
  | position, runtime, trigger :: triggers => do
    world.handleTrigger position trigger runtime
    pump (position + 1) (world.evaluate position trigger runtime).1 triggers

/-- `detach` of the pump: its error is reported. -/
def runPump (runtime : TriggerRuntime) (triggers : List Trigger) : TriggerRun Unit :=
  (world.pump 0 runtime triggers).handle fun error =>
    Traced.log [.persistenceError (js "notification_hook_pump") error]

end TriggerWorld

end PieAgent.Model
