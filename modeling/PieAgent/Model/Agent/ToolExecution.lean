import PieAgent.Effects.Core.Traced
import PieAgent.Model.Core.Messages

/-! # Executing the tool calls of an answer

`prepareToolCall` decides whether a call may run: the tool must exist, its arguments must validate,
the classifier of the tool and the `beforeToolCall` hook must not block it, and a prompt that either
of them asks for must be answered with an allow. A batch of calls runs one after the other, or all
calls are prepared in order and then run together.

Everything outside the loop is a parameter that may answer differently for each position of the
batch: callbacks return a value or throw, the event sink may throw, and the abort signal is read at
three points of every call. Every call of a callback is logged with its answer.
-/

namespace PieAgent.Model

open JavaScript Effects

inductive PermissionClassification where
  | allow
  | prompt (reason : JsString)
  | block (reason : JsString)

structure ControlPlanePromptRequest where
  toolCallId : JsString
  toolName : JsString
  argsHash : JsString
  label : JsString
  payload : Json
  reason : JsString

inductive ControlPlanePromptDecision where
  | allow
  | deny (reason : Option JsString)
  | timeout

structure BeforeToolCallResult where
  block : Bool := false
  reason : Option JsString := none
  prompt : Option ControlPlanePromptRequest := none

structure AgentToolResult where
  content : List UserBlock
  details : Option Json
  terminate : Option Bool := none

structure AfterToolCallResult where
  content : Option (List UserBlock) := none
  details : Option Json := none
  isError : Option Bool := none
  terminate : Option Bool := none

/-- One run of a tool: the partial results it reports, and its result or the text of its error. -/
structure ToolRun where
  updates : List AgentToolResult := []
  outcome : Except JsString AgentToolResult

/-- A tool. Its functions receive the position of the call in the batch besides their arguments. -/
structure AgentTool where
  name : JsString
  sequential : Bool := false
  prepareArguments : Option (ℕ → Json → Except JsString Json) := none
  permissionClassification : Option (ℕ → Json → Except JsString PermissionClassification) := none
  execute : ℕ → JsString → Json → ToolRun

inductive AgentEvent where
  | toolExecutionStart (toolCallId toolName : JsString) (args : Json)
  | toolExecutionUpdate (toolCallId toolName : JsString) (args : Json) (partialResult : AgentToolResult)
  | toolExecutionEnd (toolCallId toolName : JsString) (result : AgentToolResult) (isError : Bool)
  | controlPlanePromptResolved (toolCallId toolName argsHash label decision : JsString) (reason : Option JsString)
  | messageStart (message : ToolResultMessage)
  | messageEnd (message : ToolResultMessage)

/-- Where the loop reads the abort signal. -/
inductive AbortCheck where
  | afterHook
  | beforeDispatch
  | afterCall

/-- The context and configuration of the loop, and the world it runs in. -/
structure ToolLoop where
  tools : List AgentTool
  sequential : Bool
  validateToolArguments : ℕ → AgentTool → ToolCall → Except JsString Json
  beforeToolCall : Option (ℕ → ToolCall → Json → Except JsString (Option BeforeToolCallResult))
  onControlPlanePrompt : Option (ℕ → ControlPlanePromptRequest → Except JsString ControlPlanePromptDecision)
  afterToolCall :
    Option (ℕ → ToolCall → Json → AgentToolResult → Bool → Except JsString (Option AfterToolCallResult))
  emit : ℕ → AgentEvent → Except JsString Unit
  aborted : ℕ → AbortCheck → Bool
  /-- The hexadecimal SHA-256 digest of the UTF-8 encoding of a text. -/
  sha256 : List Char → JsString
  /-- The order in which the calls of a parallel batch settle. -/
  settling : List ℕ
  now : ℤ

/-- What the loop does to the outside, in order. The first component is the position of the call. -/
inductive Observation where
  | validated (position : ℕ) (call : ToolCall) (answer : Except JsString Json)
  | classified (position : ℕ) (args : Json) (answer : Except JsString PermissionClassification)
  | hookAnswered (position : ℕ) (call : ToolCall) (args : Json)
      (answer : Except JsString (Option BeforeToolCallResult))
  | promptAnswered (position : ℕ) (request : ControlPlanePromptRequest)
      (answer : Except JsString ControlPlanePromptDecision)
  | executed (position : ℕ) (tool : AgentTool) (call : ToolCall) (args : Json)
  | hookedAfter (position : ℕ) (answer : Except JsString (Option AfterToolCallResult))
  | emitted (position : ℕ) (event : AgentEvent) (answer : Except JsString Unit)

abbrev Run := Traced JsString Observation

mutual

/-- `canonicalizeJson`: object keys in code unit order, no white space. -/
def canonicalizeJson : Json → List Char
  | .arr items => '[' :: List.intercalate [','] (canonicalizeItems items) ++ [']']
  | .obj members =>
    let sorted := (canonicalizeMembers members).mergeSort fun first second => first.1 ≤ second.1
    '\x7b' :: List.intercalate [','] (sorted.map fun (key, value) => quote key ++ ':' :: value) ++ ['\x7d']
  | value => stringify value

def canonicalizeItems : List Json → List (List Char)
  | [] => []
  | item :: rest => canonicalizeJson item :: canonicalizeItems rest

def canonicalizeMembers : List (JsString × Json) → List (JsString × List Char)
  | [] => []
  | (key, value) :: rest => (key, canonicalizeJson value) :: canonicalizeMembers rest

end

def ToolLoop.computeArgsHash (loop : ToolLoop) (args : Json) : JsString := loop.sha256 (canonicalizeJson args)

/-- A key of the payload: at most 64 code units, an ellipsis marking a cut. -/
def payloadKey (key : JsString) : JsString := if key.length ≤ 64 then key else key.take 64 ++ [0x2026]

/-- The sorted keys of the arguments, at most 32 of them. -/
def payloadKeys : Json → List JsString
  | .obj members => (((members.map (·.1)).take 32).map payloadKey).mergeSort fun first second => first ≤ second
  | _ => []

def ToolLoop.defaultPromptPayload (loop : ToolLoop) (toolName : JsString) (args : Json) : Json :=
  .obj [(js "tool_name", .str toolName), (js "args_keys", .arr ((payloadKeys args).map .str)),
    (js "args_hash", .str (loop.computeArgsHash args))]

def createErrorToolResult (message : JsString) : AgentToolResult :=
  { content := [.text { text := message }], details := some .null }

inductive Preparation where
  | immediate (result : AgentToolResult) (isError : Bool)
  | prepared (tool : AgentTool) (args : Json)

/-- A call that ends before it runs. -/
def refuse (message : JsString) : Preparation := .immediate (createErrorToolResult message) true

def ToolLoop.findTool (loop : ToolLoop) (name : JsString) : Option AgentTool :=
  loop.tools.find? fun tool => tool.name == name

def prepareToolCallArguments (position : ℕ) (tool : AgentTool) (call : ToolCall) : Except JsString ToolCall :=
  match tool.prepareArguments with
  | none => .ok call
  | some prepare => (prepare position call.arguments).map fun arguments => { call with arguments }

/-- The classification of a call, an allow when the tool does not opt in. -/
def classify (position : ℕ) (tool : AgentTool) (args : Json) : Run PermissionClassification :=
  match tool.permissionClassification with
  | none => pure .allow
  | some classifier => Traced.call (.classified position args) (classifier position args)

/-- The prompt that a classification asks for. -/
def ToolLoop.synthesizedPrompt (loop : ToolLoop) (call : ToolCall) (args : Json) :
    PermissionClassification → Option ControlPlanePromptRequest
  | .prompt reason => some
      { toolCallId := call.id, toolName := call.name, argsHash := loop.computeArgsHash args
        label := js "Control-plane write: " ++ call.name, payload := loop.defaultPromptPayload call.name args, reason }
  | _ => none

/-- The result of the `beforeToolCall` hook, nothing when there is none. -/
def ToolLoop.askHook (loop : ToolLoop) (position : ℕ) (call : ToolCall) (args : Json) :
    Run (Option BeforeToolCallResult) :=
  match loop.beforeToolCall with
  | none => pure none
  | some hook => Traced.call (.hookAnswered position call args) (hook position call args)

/-- Why the hook stage ends a call, if it does. The signal is read only after a hook has run. -/
def ToolLoop.hookRefusal (loop : ToolLoop) (position : ℕ) (result : Option BeforeToolCallResult) : Option JsString :=
  if loop.beforeToolCall.isSome && loop.aborted position .afterHook then some (js "Operation aborted")
  else match result with
    | some result => if result.block then some (orElse result.reason (js "Tool execution was blocked")) else none
    | none => none

/-- The prompt to ask: the runtime owns the binding fields, the classifier's reason and the hook's card win. -/
def ToolLoop.effectivePrompt (loop : ToolLoop) (call : ToolCall) (args : Json) :
    Option ControlPlanePromptRequest → Option ControlPlanePromptRequest → Option ControlPlanePromptRequest
  | some synthesized, none => some synthesized
  | none, some hookPrompt => some
      { toolCallId := call.id, toolName := call.name, argsHash := loop.computeArgsHash args
        label := hookPrompt.label, payload := hookPrompt.payload, reason := hookPrompt.reason }
  | some synthesized, some hookPrompt =>
    some { synthesized with label := hookPrompt.label, payload := hookPrompt.payload }
  | none, none => none

def ToolLoop.emitEvent (loop : ToolLoop) (position : ℕ) (event : AgentEvent) : Run Unit :=
  Traced.call (.emitted position event) (loop.emit position event)

/-- The answer to a prompt, a denial when no channel is configured. -/
def ToolLoop.askPrompt (loop : ToolLoop) (position : ℕ) (request : ControlPlanePromptRequest) :
    Run ControlPlanePromptDecision :=
  match loop.onControlPlanePrompt with
  | some ask => Traced.call (.promptAnswered position request) (ask position request)
  | none => pure (.deny (some (js ("control-plane prompt required but no onControlPlanePrompt hook configured " ++
      "(fail-closed deny — see issue #110 design v0.2)"))))

def ControlPlanePromptDecision.type : ControlPlanePromptDecision → JsString
  | .allow => js "allow"
  | .deny _ => js "deny"
  | .timeout => js "timeout"

def ControlPlanePromptDecision.denialReason : ControlPlanePromptDecision → Option JsString
  | .deny reason => reason
  | _ => none

/-- Why a decision ends a call, if it does. -/
def ControlPlanePromptDecision.refusal : ControlPlanePromptDecision → Option JsString
  | .allow => none
  | .deny reason => some (orElse reason (js "tool call denied by user via control-plane prompt"))
  | .timeout => some (js "control-plane prompt timed out — tool call denied")

/-- Ask a prompt and report its resolution. -/
def ToolLoop.resolvePrompt (loop : ToolLoop) (position : ℕ) (request : ControlPlanePromptRequest) :
    Run ControlPlanePromptDecision := do
  let decision ← loop.askPrompt position request
  loop.emitEvent position (.controlPlanePromptResolved request.toolCallId request.toolName request.argsHash
    request.label decision.type decision.denialReason)
  pure decision

/-- The last step before a call may run. -/
def ToolLoop.dispatch (loop : ToolLoop) (position : ℕ) (tool : AgentTool) (args : Json) : Preparation :=
  if loop.aborted position .beforeDispatch then refuse (js "Operation aborted") else .prepared tool args

/-- The prompt stage. -/
def ToolLoop.passPrompt (loop : ToolLoop) (position : ℕ) (tool : AgentTool) (args : Json) :
    Option ControlPlanePromptRequest → Run Preparation
  | none => pure (loop.dispatch position tool args)
  | some request => do
    let decision ← loop.resolvePrompt position request
    match decision.refusal with
    | some message => pure (refuse message)
    | none => pure (loop.dispatch position tool args)

/-- The stages after the classification. -/
def ToolLoop.passHook (loop : ToolLoop) (position : ℕ) (tool : AgentTool) (call : ToolCall) (args : Json)
    (classification : PermissionClassification) : Run Preparation := do
  let result ← loop.askHook position call args
  match loop.hookRefusal position result with
  | some message => pure (refuse message)
  | none =>
    loop.passPrompt position tool args (loop.effectivePrompt call args
      (loop.synthesizedPrompt call args classification) (result.bind (·.prompt)))

/-- The body of the `try` block of `prepareToolCall`. -/
def ToolLoop.gate (loop : ToolLoop) (position : ℕ) (tool : AgentTool) (call : ToolCall) : Run Preparation := do
  let preparedCall ← Traced.lift (prepareToolCallArguments position tool call)
  let args ← Traced.call (.validated position preparedCall) (loop.validateToolArguments position tool preparedCall)
  let classification ← classify position tool args
  match classification with
  | .block reason => pure (refuse reason)
  | _ => loop.passHook position tool call args classification

def ToolLoop.prepareToolCall (loop : ToolLoop) (position : ℕ) (call : ToolCall) : Run Preparation :=
  match loop.findTool call.name with
  | none => pure (refuse (js "Tool " ++ call.name ++ js " not found"))
  | some tool => (loop.gate position tool call).handle fun error => pure (refuse error)

structure FinalizedToolCall where
  toolCall : ToolCall
  result : AgentToolResult
  isError : Bool

/-- Emit the partial results of a run. All are emitted; the first sink that throws fails the call. -/
def ToolLoop.emitUpdates (loop : ToolLoop) (position : ℕ) (call : ToolCall) (updates : List AgentToolResult) : Run Unit :=
  let events := updates.map fun update => AgentEvent.toolExecutionUpdate call.id call.name call.arguments update
  { outcome := (events.map (loop.emit position)).foldl (fun first next => first.bind fun _ => next) (.ok ())
    trace := events.map fun event => .emitted position event (loop.emit position event) }

/-- `executePreparedToolCall` after the tool has been invoked. -/
def ToolLoop.awaitExecution (loop : ToolLoop) (position : ℕ) (call : ToolCall) (run : ToolRun) :
    Run (AgentToolResult × Bool) := do
  loop.emitUpdates position call run.updates
  match run.outcome with
  | .ok result => pure (result, false)
  | .error error => pure (createErrorToolResult error, true)

/-- The result after the overrides of `afterToolCall`; a `null` overrides nothing. -/
def AfterToolCallResult.override (after : AfterToolCallResult) (result : AgentToolResult) : AgentToolResult where
  content := after.content.getD result.content
  details := (after.details.filter (· ≠ .null)).or result.details
  terminate := after.terminate.or result.terminate

def ToolLoop.finalizeExecutedToolCall (loop : ToolLoop) (position : ℕ) (call : ToolCall) (args : Json)
    (executed : AgentToolResult × Bool) : Run FinalizedToolCall :=
  match loop.afterToolCall with
  | none => pure ⟨call, executed.1, executed.2⟩
  | some hook =>
    Traced.handle (do
      let answer ← Traced.call (.hookedAfter position) (hook position call args executed.1 executed.2)
      match answer with
      | none => pure ⟨call, executed.1, executed.2⟩
      | some after => pure ⟨call, after.override executed.1, after.isError.getD executed.2⟩)
      fun error => pure ⟨call, createErrorToolResult error, true⟩

def ToolLoop.emitToolExecutionEnd (loop : ToolLoop) (position : ℕ) (finalized : FinalizedToolCall) : Run Unit :=
  loop.emitEvent position
    (.toolExecutionEnd finalized.toolCall.id finalized.toolCall.name finalized.result finalized.isError)

def createToolResultMessage (now : ℤ) (finalized : FinalizedToolCall) : ToolResultMessage where
  toolCallId := finalized.toolCall.id
  toolName := finalized.toolCall.name
  content := finalized.result.content
  details := finalized.result.details
  isError := finalized.isError
  timestamp := .millis now

def ToolLoop.emitToolResultMessage (loop : ToolLoop) (position : ℕ) (message : ToolResultMessage) : Run Unit := do
  loop.emitEvent position (.messageStart message)
  loop.emitEvent position (.messageEnd message)

def shouldTerminateToolBatch (finalizedCalls : List FinalizedToolCall) : Bool :=
  !finalizedCalls.isEmpty && finalizedCalls.all fun finalized => finalized.result.terminate == some true

structure ExecutedToolCallBatch where
  messages : List ToolResultMessage
  terminate : Bool

/-- Everything a prepared call does once its tool has been invoked. -/
def ToolLoop.completeCall (loop : ToolLoop) (position : ℕ) (tool : AgentTool) (call : ToolCall) (args : Json) :
    Run FinalizedToolCall := do
  let executed ← loop.awaitExecution position call (tool.execute position call.id args)
  loop.finalizeExecutedToolCall position call args executed

/-- A call of the sequential mode, up to its outcome. -/
def ToolLoop.runCall (loop : ToolLoop) (position : ℕ) (call : ToolCall) : Run FinalizedToolCall := do
  loop.emitEvent position (.toolExecutionStart call.id call.name call.arguments)
  let preparation ← loop.prepareToolCall position call
  match preparation with
  | .immediate result isError => pure ⟨call, result, isError⟩
  | .prepared tool args => do
    Traced.log [.executed position tool call args]
    loop.completeCall position tool call args

/-- The sequential loop from a position on. -/
def ToolLoop.runSequential (loop : ToolLoop) : ℕ → List ToolCall → Run (List FinalizedToolCall)
  | _, [] => pure []
  | position, call :: rest => do
    let finalized ← loop.runCall position call
    loop.emitToolExecutionEnd position finalized
    loop.emitToolResultMessage position (createToolResultMessage loop.now finalized)
    if loop.aborted position .afterCall then pure [finalized]
    else do
      let others ← loop.runSequential (position + 1) rest
      pure (finalized :: others)

def ToolLoop.executeToolCallsSequential (loop : ToolLoop) (toolCalls : List ToolCall) : Run ExecutedToolCallBatch := do
  let finalizedCalls ← loop.runSequential 0 toolCalls
  pure ⟨finalizedCalls.map (createToolResultMessage loop.now), shouldTerminateToolBatch finalizedCalls⟩

/-- A call of a parallel batch after its preparation. -/
inductive BatchEntry where
  | finished (finalized : FinalizedToolCall)
  | waiting (tool : AgentTool) (call : ToolCall) (args : Json)

/-- A call of the parallel mode, up to the invocation of its tool. -/
def ToolLoop.enterCall (loop : ToolLoop) (position : ℕ) (call : ToolCall) : Run BatchEntry := do
  loop.emitEvent position (.toolExecutionStart call.id call.name call.arguments)
  let preparation ← loop.prepareToolCall position call
  match preparation with
  | .immediate result isError => do
    loop.emitToolExecutionEnd position ⟨call, result, isError⟩
    pure (.finished ⟨call, result, isError⟩)
  | .prepared tool args => pure (.waiting tool call args)

/-- The preparation loop of the parallel mode from a position on. -/
def ToolLoop.prepareParallel (loop : ToolLoop) : ℕ → List ToolCall → Run (List BatchEntry)
  | _, [] => pure []
  | position, call :: rest => do
    let entry ← loop.enterCall position call
    if loop.aborted position .afterCall then pure [entry]
    else do
      let others ← loop.prepareParallel (position + 1) rest
      pure (entry :: others)

/-- The invocation of the tool of an entry. -/
def BatchEntry.invocation (position : ℕ) : BatchEntry → List Observation
  | .finished _ => []
  | .waiting tool call args => [.executed position tool call args]

/-- What an entry does after all tools of the batch have been invoked. -/
def ToolLoop.settleEntry (loop : ToolLoop) (position : ℕ) : BatchEntry → Run FinalizedToolCall
  | .finished finalized => pure finalized
  | .waiting tool call args => do
    let finalized ← loop.completeCall position tool call args
    loop.emitToolExecutionEnd position finalized
    pure finalized

/-- Emit the result messages of a parallel batch in the order of the calls. -/
def ToolLoop.emitResults (loop : ToolLoop) : ℕ → List FinalizedToolCall → Run Unit
  | _, [] => pure ()
  | position, finalized :: rest => do
    loop.emitToolResultMessage position (createToolResultMessage loop.now finalized)
    loop.emitResults (position + 1) rest

def ToolLoop.executeToolCallsParallel (loop : ToolLoop) (toolCalls : List ToolCall) : Run ExecutedToolCallBatch := do
  let entries ← loop.prepareParallel 0 toolCalls
  Traced.log (entries.zipIdx.flatMap fun (entry, position) => entry.invocation position)
  let finalizedCalls ← Traced.all loop.settling
    (entries.zipIdx.map fun (entry, position) => loop.settleEntry position entry)
  loop.emitResults 0 finalizedCalls
  pure ⟨finalizedCalls.map (createToolResultMessage loop.now), shouldTerminateToolBatch finalizedCalls⟩

def ToolLoop.executeToolCalls (loop : ToolLoop) (message : AssistantMessage) : Run ExecutedToolCallBatch :=
  let hasSequentialToolCall := message.toolCalls.any fun call => (loop.findTool call.name).any (·.sequential)
  if loop.sequential || hasSequentialToolCall then loop.executeToolCallsSequential message.toolCalls
  else loop.executeToolCallsParallel message.toolCalls

end PieAgent.Model
