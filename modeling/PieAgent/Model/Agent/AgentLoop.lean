import PieAgent.Async.Core.Program
import PieAgent.Model.Agent.ToolExecution
import PieAgent.Model.Compaction.Summarizer

/-! # The agent loop

`runLoop` alternates between answers of the model and tool batches. Its callbacks are programs of the
embedder: they may throw, wait and use the state they share with other programs. What executes the
tools of an answer is chosen anew for each batch, as a world for `executeToolCalls`.

The array of messages of a context is mutated by the source; the loop here passes the context on.
The events of a tool batch reach the sink when the batch has ended.
-/

namespace PieAgent.Model

open JavaScript Async

/-- The fields of a model that the loop reads. -/
structure ModelRef where
  provider : JsString
  id : JsString

structure AgentContext where
  systemPrompt : JsString
  messages : List AgentMessage
  tools : List AgentTool

/-- `Context`, what a provider is asked with. -/
structure LlmContext where
  systemPrompt : JsString
  messages : List Message
  tools : List AgentTool

/-- What the loop hands to `shouldStopAfterTurn` and `prepareNextTurn`. -/
structure TurnContext where
  message : AssistantMessage
  toolResults : List ToolResultMessage
  context : AgentContext
  newMessages : List AgentMessage

structure AgentLoopTurnUpdate where
  context : Option AgentContext := none
  model : Option ModelRef := none
  thinkingLevel : Option ThinkingLevel := none

/-- An event of a response stream, with the message as far as it is known. -/
inductive AssistantMessageEvent where
  | start (message : AssistantMessage)
  /-- `text_delta`, `text_end`, `thinking_delta`, `thinking_end`, `toolcall_delta` or `toolcall_end`. -/
  | progress (type : JsString) (message : AssistantMessage)
  /-- `text_start`, `thinking_start` or `toolcall_start`. -/
  | opening (type : JsString) (message : AssistantMessage)
  /-- `done` or `error`. -/
  | finished (type : JsString) (message : AssistantMessage)

/-- How the race between the abort signal and the response stream ends. -/
inductive RaceWinner where
  | aborted
  | exhausted
  | event (event : AssistantMessageEvent)

/-- The events of a run: `AgentEvent` of the source, the events of tool batches apart. -/
inductive LoopEvent where
  | agentStart
  | turnStart
  | messageStart (message : AgentMessage)
  | messageUpdate (event : AssistantMessageEvent) (message : AssistantMessage)
  | messageEnd (message : AgentMessage)
  | turnEnd (message : AssistantMessage) (toolResults : List ToolResultMessage)
  | agentEnd (messages : List AgentMessage)
  | tool (event : AgentEvent)

/-- The configuration of the loop, its event sink and its stream function. -/
structure AgentLoop (I : Interface) (σ : Type) where
  toolExecutionSequential : Bool
  apiKey : Option JsString
  emit : LoopEvent → Program I σ JsString Unit
  transformContext : Option (List AgentMessage → Program I σ JsString (List AgentMessage))
  convertToLlm : List AgentMessage → Program I σ JsString (List Message)
  getApiKey : Option (JsString → Program I σ JsString (Option JsString))
  /-- Open a response stream with a model, a reasoning level, a context and an API key. -/
  streamFn : ModelRef → Option ThinkingLevel → LlmContext → Option JsString → Program I σ JsString Unit
  /-- One round of the race between the abort signal and the next event of the response. -/
  race : Program I σ JsString RaceWinner
  /-- `response.result()`. -/
  result : Program I σ JsString AssistantMessage
  /-- The world that the tool calls of a message are executed in. -/
  world : AgentContext → AssistantMessage → Program I σ JsString ToolLoop
  /-- What the sink does with an event of a tool batch; the answer of the sink belongs to the world. -/
  observe : AgentEvent → Program I σ JsString Unit
  shouldStopAfterTurn : Option (TurnContext → Program I σ JsString Bool)
  prepareNextTurn : Option (TurnContext → Program I σ JsString (Option AgentLoopTurnUpdate))
  getSteeringMessages : Option (Program I σ JsString (List AgentMessage))
  getFollowUpMessages : Option (Program I σ JsString (List AgentMessage))

variable {I : Interface} {σ : Type}

/-- The context while a response streams in, and whether its message is part of the context already. -/
structure StreamState where
  context : AgentContext
  addedPartial : Bool

/-- The context with its last message replaced. -/
def AgentContext.replaceLast (context : AgentContext) (message : AgentMessage) : AgentContext :=
  { context with messages := context.messages.dropLast ++ [message] }

def AgentContext.push (context : AgentContext) (messages : List AgentMessage) : AgentContext :=
  { context with messages := context.messages ++ messages }

/-- Put the final message into the context and report it. -/
def AgentLoop.finishResponse (loop : AgentLoop I σ) (stream : StreamState) :
    Program I σ JsString (AssistantMessage × AgentContext) := do
  let finalMessage ← loop.result
  let context :=
    if stream.addedPartial then stream.context.replaceLast (.assistant finalMessage)
    else stream.context.push [.assistant finalMessage]
  Program.when (!stream.addedPartial) (loop.emit (.messageStart (.assistant finalMessage)))
  loop.emit (.messageEnd (.assistant finalMessage))
  pure (finalMessage, context)

/-- One round of the event loop of `streamAssistantResponse`. -/
def AgentLoop.readEvent (loop : AgentLoop I σ) (stream : StreamState) :
    Program I σ JsString (StreamState ⊕ (AssistantMessage × AgentContext)) := do
  match ← loop.race with
  | .aborted => Program.raise (js "aborted")
  | .exhausted => Sum.inr <$> loop.finishResponse stream
  | .event event => match event with
    | .start message => do
      loop.emit (.messageStart (.assistant message))
      pure (.inl ⟨stream.context.push [.assistant message], true⟩)
    | .progress type message => do
      if stream.addedPartial then do
        loop.emit (.messageUpdate (.progress type message) message)
        pure (.inl ⟨stream.context.replaceLast (.assistant message), true⟩)
      else pure (.inl stream)
    | .opening _ _ => pure (.inl stream)
    | .finished _ _ => Sum.inr <$> loop.finishResponse stream

/-- The result of an optional callback, a default when it is not configured. -/
def callOr {α : Type} (callback : Option (Program I σ JsString α)) (default : α) : Program I σ JsString α :=
  callback.getD (pure default)

/-- `resolvedApiKey`: an empty key counts as none. -/
def AgentLoop.resolvedApiKey (loop : AgentLoop I σ) : Option JsString → Option JsString
  | some (unit :: text) => some (unit :: text)
  | _ => loop.apiKey

/-- The answer of the model to a context, and the context with the answer appended. -/
def AgentLoop.streamAssistantResponse (loop : AgentLoop I σ) (fuel : ℕ) (context : AgentContext) (model : ModelRef)
    (reasoning : Option ThinkingLevel) : Program I σ JsString (AssistantMessage × AgentContext) := do
  let messages ← callOr (loop.transformContext.map fun transform => transform context.messages) context.messages
  let llmMessages ← loop.convertToLlm messages
  let key ← callOr (loop.getApiKey.map fun getApiKey => getApiKey model.provider) none
  loop.streamFn model reasoning ⟨context.systemPrompt, llmMessages, context.tools⟩ (loop.resolvedApiKey key)
  Program.loop loop.readEvent fuel ⟨context, false⟩

/-- The state of `runLoop` at the top of its loop. -/
structure LoopState where
  context : AgentContext
  newMessages : List AgentMessage
  model : ModelRef
  reasoning : Option ThinkingLevel
  firstTurn : Bool
  pendingMessages : List AgentMessage

/-- Process the pending messages. -/
def AgentLoop.injectPending (loop : AgentLoop I σ) (state : LoopState) : Program I σ JsString LoopState := do
  Program.each (fun message => do
    loop.emit (.messageStart message)
    loop.emit (.messageEnd message)) state.pendingMessages
  pure { state with context := state.context.push state.pendingMessages,
                    newMessages := state.newMessages ++ state.pendingMessages, pendingMessages := [] }

/-- The world of a batch, with the tools of the context and the configured mode. -/
def AgentLoop.toolLoop (loop : AgentLoop I σ) (context : AgentContext) (world : ToolLoop) : ToolLoop :=
  { world with tools := context.tools, sequential := loop.toolExecutionSequential }

/-- The events that a batch emits, in order. -/
def emittedEvents (trace : List Observation) : List AgentEvent :=
  trace.filterMap fun
    | .emitted _ event _ => some event
    | _ => none

/-- `executeToolCalls`. -/
def AgentLoop.executeToolCalls (loop : AgentLoop I σ) (context : AgentContext) (message : AssistantMessage) :
    Program I σ JsString ExecutedToolCallBatch := do
  let world ← loop.world context message
  let batch := (loop.toolLoop context world).executeToolCalls message
  Program.each loop.observe (emittedEvents batch.trace)
  Program.lift batch.outcome

/-- A turn up to its tool results. -/
structure FinishedTurn where
  state : LoopState
  message : AssistantMessage
  toolResults : List ToolResultMessage
  allTerminate : Bool

/-- The end of a turn whose message is an error: neither its tool calls nor any queue is looked at. -/
def AssistantMessage.endsRun (message : AssistantMessage) : Bool :=
  message.stopReason = .error || message.stopReason = .aborted

/-- The batch of a message: nothing is executed for a message that ends the run or has no calls. -/
def AgentLoop.answerToolCalls (loop : AgentLoop I σ) (context : AgentContext) (message : AssistantMessage) :
    Program I σ JsString ExecutedToolCallBatch :=
  if message.endsRun || message.toolCalls.isEmpty then pure ⟨[], false⟩ else loop.executeToolCalls context message

/-- The answer of the model and the results of its tool calls, all appended to the context. -/
def AgentLoop.respond (loop : AgentLoop I σ) (fuel : ℕ) (state : LoopState) : Program I σ JsString FinishedTurn := do
  Program.when (!state.firstTurn) (loop.emit .turnStart)
  let state ← loop.injectPending { state with firstTurn := false }
  let (message, context) ← loop.streamAssistantResponse fuel state.context state.model state.reasoning
  let batch ← loop.answerToolCalls context message
  let results := batch.messages.map AgentMessage.toolResult
  pure
    { state := { state with context := context.push results,
                            newMessages := state.newMessages ++ .assistant message :: results }
      message, toolResults := batch.messages, allTerminate := batch.terminate }

def FinishedTurn.turnContext (turn : FinishedTurn) : TurnContext :=
  ⟨turn.message, turn.toolResults, turn.state.context, turn.state.newMessages⟩

/-- The state of the next turn after `prepareNextTurn`. -/
def LoopState.prepared (state : LoopState) : Option AgentLoopTurnUpdate → LoopState
  | none => state
  | some snapshot =>
    { state with
      context := snapshot.context.getD state.context
      model := snapshot.model.getD state.model
      reasoning := match snapshot.thinkingLevel with
        | none => state.reasoning
        | some level => if level = .off then none else some level }

/-- `agent_end`, the end of every run. -/
def AgentLoop.finish (loop : AgentLoop I σ) {τ : Type} (newMessages : List AgentMessage) :
    Program I σ JsString (τ ⊕ List AgentMessage) := do
  loop.emit (.agentEnd newMessages)
  pure (.inr newMessages)

/-- The messages of a queue callback, none when it is not configured. -/
def pollQueue (callback : Option (Program I σ JsString (List AgentMessage))) :
    Program I σ JsString (List AgentMessage) :=
  callOr callback []

/-- Whether the turn was made for its tool calls, so that the loop goes on without new messages. -/
def FinishedTurn.continues (turn : FinishedTurn) : Bool := turn.message.stopReason = .toolUse

/-- Follow-ups are polled only when the turn does not continue and nothing steers it. -/
def AgentLoop.pollQueues (loop : AgentLoop I σ) (continues : Bool) : Program I σ JsString (List AgentMessage) := do
  let steering ← pollQueue loop.getSteeringMessages
  if !continues && steering.isEmpty then pollQueue loop.getFollowUpMessages else pure steering

/-- The next turn of a run that neither an error, `shouldStopAfterTurn` nor a terminating batch ends. -/
def AgentLoop.advance (loop : AgentLoop I σ) (turn : FinishedTurn) :
    Program I σ JsString (LoopState ⊕ List AgentMessage) := do
  let snapshot ← callOr (loop.prepareNextTurn.map fun prepare => prepare turn.turnContext) none
  let queued ← loop.pollQueues turn.continues
  let state := { turn.state.prepared snapshot with pendingMessages := queued }
  if !queued.isEmpty || turn.continues then pure (.inl state) else loop.finish state.newMessages

/-- What follows a turn: the next turn, or the end of the run. -/
def AgentLoop.decide (loop : AgentLoop I σ) (turn : FinishedTurn) :
    Program I σ JsString (LoopState ⊕ List AgentMessage) := do
  loop.emit (.turnEnd turn.message turn.toolResults)
  if turn.message.endsRun then loop.finish turn.state.newMessages
  else do
    let stop ← callOr (loop.shouldStopAfterTurn.map fun shouldStop => shouldStop turn.turnContext) false
    if stop || (!turn.toolResults.isEmpty && turn.allTerminate) then loop.finish turn.state.newMessages
    else loop.advance turn

/-- One turn of `runLoop`. -/
def AgentLoop.runTurn (loop : AgentLoop I σ) (fuel : ℕ) (state : LoopState) :
    Program I σ JsString (LoopState ⊕ List AgentMessage) := do
  let turn ← loop.respond fuel state
  loop.decide turn

/-- `runLoop`, which returns the new messages. -/
def AgentLoop.runLoop (loop : AgentLoop I σ) (fuel : ℕ) (context : AgentContext) (newMessages : List AgentMessage)
    (model : ModelRef) (reasoning : Option ThinkingLevel) : Program I σ JsString (List AgentMessage) := do
  let pendingMessages ← pollQueue loop.getSteeringMessages
  Program.loop (loop.runTurn fuel) fuel ⟨context, newMessages, model, reasoning, true, pendingMessages⟩

def AgentLoop.runAgentLoop (loop : AgentLoop I σ) (fuel : ℕ) (prompts : List AgentMessage) (context : AgentContext)
    (model : ModelRef) (reasoning : Option ThinkingLevel) : Program I σ JsString (List AgentMessage) := do
  loop.emit .agentStart
  loop.emit .turnStart
  Program.each (fun prompt => do
    loop.emit (.messageStart prompt)
    loop.emit (.messageEnd prompt)) prompts
  loop.runLoop fuel (context.push prompts) prompts model reasoning

def AgentLoop.runAgentLoopContinue (loop : AgentLoop I σ) (fuel : ℕ) (context : AgentContext) (model : ModelRef)
    (reasoning : Option ThinkingLevel) : Program I σ JsString (List AgentMessage) :=
  if context.messages.isEmpty then Program.raise (js "Cannot continue: no messages in context")
  else do
    loop.emit .agentStart
    loop.emit .turnStart
    loop.runLoop fuel context [] model reasoning

end PieAgent.Model
