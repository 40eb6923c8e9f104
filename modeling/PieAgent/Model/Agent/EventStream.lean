import PieAgent.Async.Core.Program
import PieAgent.Model.Agent.AgentLoop

/-! # The event stream of a run

`agentLoop` returns a stream at once and runs the loop behind it. The loop pushes its events into the
stream, and when it has returned the stream is ended with its messages. Consumers pull events at any
time; a pull of an empty stream waits for the next event or for the end.
-/

namespace PieAgent.Model

open JavaScript Async

/-- `EventStream`. Each pull of a consumer has a number, and is answered with an event or, at the end of
the iteration, with none. -/
structure EventStream (T R : Type) where
  queue : List T := []
  waiting : List ℕ := []
  done : Bool := false
  finalResult : Option R := none
  pulls : ℕ := 0
  answers : List (ℕ × Option T) := []

variable {T R : Type}

/-- `resolveFinalResult`: the first resolution counts. -/
def EventStream.resolve (stream : EventStream T R) (result : R) : EventStream T R :=
  { stream with finalResult := stream.finalResult.or (some result) }

/-- Give an event to the first waiting consumer, or queue it. -/
def EventStream.deliver (stream : EventStream T R) (event : T) : EventStream T R :=
  match stream.waiting with
  | waiter :: waiting => { stream with waiting, answers := stream.answers ++ [(waiter, some event)] }
  | [] => { stream with queue := stream.queue ++ [event] }

/-- `push`, for a stream that `complete?` completes: it tells the result of the event that ends it. -/
def EventStream.push (complete? : T → Option R) (stream : EventStream T R) (event : T) : EventStream T R :=
  if stream.done then stream
  else match complete? event with
    | some result => ({ stream with done := true }.resolve result).deliver event
    | none => stream.deliver event

/-- `end`. -/
def EventStream.finish (stream : EventStream T R) (result : R) : EventStream T R :=
  { stream.resolve result with
    done := true, waiting := [], answers := stream.answers ++ stream.waiting.map fun waiter => (waiter, none) }

/-- `end` with an optional result. -/
def EventStream.endWith (stream : EventStream T R) (result : Option R) : EventStream T R :=
  { stream with
    finalResult := stream.finalResult.or result, done := true, waiting := []
    answers := stream.answers ++ stream.waiting.map fun waiter => (waiter, none) }

/-- One round of the async iterator. -/
def EventStream.pull (stream : EventStream T R) : EventStream T R :=
  match stream.queue with
  | event :: queue =>
    { stream with queue, pulls := stream.pulls + 1, answers := stream.answers ++ [(stream.pulls, some event)] }
  | [] =>
    if stream.done then { stream with pulls := stream.pulls + 1, answers := stream.answers ++ [(stream.pulls, none)] }
    else { stream with pulls := stream.pulls + 1, waiting := stream.waiting ++ [stream.pulls] }

/-- A consumer's async iterator over a stream. Calls of `next` queue up: a round starts when the round before it
has been answered, and after a round without event the iteration has ended. -/
structure StreamIterator (T R : Type) where
  stream : EventStream T R := {}
  requests : ℕ := 0
  received : List (Option T) := []
  ended : Bool := false

/-- What a producer and a consumer do with a stream, and the steps of the iterator between them. -/
inductive StreamOp (T R : Type) where
  | push (event : T)
  | finish (result : Option R)
  | next
  | advance

/-- The iterator's next step, if there is one: an ended iteration answers at once, a round starts, or the answer
to a started round reaches the consumer. -/
def StreamIterator.advance? (consumer : StreamIterator T R) : Option (StreamIterator T R) :=
  if consumer.received.length < consumer.requests then
    if consumer.ended then some { consumer with received := consumer.received ++ [none] }
    else if consumer.stream.pulls = consumer.received.length then
      some { consumer with stream := consumer.stream.pull }
    else consumer.stream.answers[consumer.received.length]?.map fun answer =>
      { consumer with received := consumer.received ++ [answer.2], ended := answer.2.isNone }
  else none

/-- Perform an operation. -/
def StreamIterator.perform (complete? : T → Option R) (consumer : StreamIterator T R) :
    StreamOp T R → StreamIterator T R
  | .push event => { consumer with stream := consumer.stream.push complete? event }
  | .finish result => { consumer with stream := consumer.stream.endWith result }
  | .next => { consumer with requests := consumer.requests + 1 }
  | .advance => consumer.advance?.getD consumer

/-- A new stream and its consumer after some operations. -/
def StreamIterator.after (complete? : T → Option R) (operations : List (StreamOp T R)) : StreamIterator T R :=
  operations.foldl (StreamIterator.perform complete?) {}

abbrev AgentStream := EventStream LoopEvent (List AgentMessage)

/-- `createAgentStream`: `agent_end` completes the stream. -/
def completion : LoopEvent → Option (List AgentMessage)
  | .agentEnd messages => some messages
  | _ => none

/-- What the loop behind a stream waits for. -/
inductive LoopRequest where
  /-- The asynchronous sink has returned. -/
  | emitted
  | getSteeringMessages
  | getFollowUpMessages
  | transformContext (messages : List AgentMessage)
  | convertToLlm (messages : List AgentMessage)
  | getApiKey (provider : JsString)
  | streamFn (model : ModelRef) (reasoning : Option ThinkingLevel) (context : LlmContext) (apiKey : Option JsString)
  | race
  | result
  | executeToolCalls (context : AgentContext) (message : AssistantMessage)
  | shouldStopAfterTurn (turn : TurnContext)
  | prepareNextTurn (turn : TurnContext)
  /-- The callback of `then` is reached. -/
  | resolved

/-- What each request is answered with; a callback may throw or reject. -/
abbrev LoopRequest.Answer : LoopRequest → Type
  | emitted => Unit
  | getSteeringMessages => Except JsString (List AgentMessage)
  | getFollowUpMessages => Except JsString (List AgentMessage)
  | transformContext _ => Except JsString (List AgentMessage)
  | convertToLlm _ => Except JsString (List Message)
  | getApiKey _ => Except JsString (Option JsString)
  | streamFn _ _ _ _ => Except JsString Unit
  | race => Except JsString RaceWinner
  | result => Except JsString AssistantMessage
  | executeToolCalls _ _ => ToolLoop
  | shouldStopAfterTurn _ => Except JsString Bool
  | prepareNextTurn _ => Except JsString (Option AgentLoopTurnUpdate)
  | resolved => Unit

abbrev LoopInterface : Interface := ⟨LoopRequest, LoopRequest.Answer⟩

abbrev StreamProgram := Program LoopInterface AgentStream JsString

/-- The configuration of a run: its options, and which callbacks it has. -/
structure LoopSettings where
  toolExecutionSequential : Bool := false
  apiKey : Option JsString := none
  transformContext : Bool := false
  getApiKey : Bool := false
  shouldStopAfterTurn : Bool := false
  prepareNextTurn : Bool := false
  getSteeringMessages : Bool := false
  getFollowUpMessages : Bool := false

/-- Wait for an answer. -/
def await (request : LoopRequest) : StreamProgram request.Answer := Program.request (I := LoopInterface) request

def pushEvent (event : LoopEvent) : StreamProgram Unit := Program.update fun stream => stream.push completion event

/-- The sink of `agentLoop`. -/
def emitToStream (event : LoopEvent) : StreamProgram Unit := do
  pushEvent event
  await .emitted

/-- A callback, if it is configured. -/
def configured {α : Type} (present : Bool) (callback : α) : Option α := if present then some callback else none

/-- The loop behind a stream: every callback is answered from outside, and the sink never throws. -/
def LoopSettings.loop (settings : LoopSettings) : AgentLoop LoopInterface AgentStream where
  toolExecutionSequential := settings.toolExecutionSequential
  apiKey := settings.apiKey
  emit := emitToStream
  transformContext := configured settings.transformContext fun messages => do
    let answer ← await (.transformContext messages)
    Program.lift answer
  convertToLlm messages := do
    let answer ← await (.convertToLlm messages)
    Program.lift answer
  getApiKey := configured settings.getApiKey fun provider => do
    let answer ← await (.getApiKey provider)
    Program.lift answer
  streamFn model reasoning context apiKey := do
    let answer ← await (.streamFn model reasoning context apiKey)
    Program.lift answer
  race := do
    let answer ← await .race
    Program.lift answer
  result := do
    let answer ← await .result
    Program.lift answer
  world context message := do
    let world ← await (.executeToolCalls context message)
    pure { world with emit := fun _ _ => .ok () }
  observe event := pushEvent (.tool event)
  shouldStopAfterTurn := configured settings.shouldStopAfterTurn fun turn => do
    let answer ← await (.shouldStopAfterTurn turn)
    Program.lift answer
  prepareNextTurn := configured settings.prepareNextTurn fun turn => do
    let answer ← await (.prepareNextTurn turn)
    Program.lift answer
  getSteeringMessages := configured settings.getSteeringMessages do
    let answer ← await .getSteeringMessages
    Program.lift answer
  getFollowUpMessages := configured settings.getFollowUpMessages do
    let answer ← await .getFollowUpMessages
    Program.lift answer

/-- `void run.then(messages => stream.end(messages))`. -/
def endStreamAfter (run : StreamProgram (List AgentMessage)) : StreamProgram Unit := do
  let messages ← run
  await .resolved
  Program.update fun stream => stream.finish messages

/-- The program behind the stream that `agentLoop` returns. -/
def agentLoop (settings : LoopSettings) (fuel : ℕ) (prompts : List AgentMessage) (context : AgentContext)
    (model : ModelRef) (reasoning : Option ThinkingLevel) : StreamProgram Unit :=
  endStreamAfter (settings.loop.runAgentLoop fuel prompts context model reasoning)

/-- The program behind the stream that `agentLoopContinue` returns, unless it throws instead. -/
def agentLoopContinue (settings : LoopSettings) (fuel : ℕ) (context : AgentContext) (model : ModelRef)
    (reasoning : Option ThinkingLevel) : Except JsString (StreamProgram Unit) :=
  if context.messages.isEmpty then .error (js "Cannot continue: no messages in context")
  else .ok (endStreamAfter (settings.loop.runAgentLoopContinue fuel context model reasoning))

/-- What happens at a stream: the loop is started behind it, a consumer pulls. -/
inductive StreamCall where
  | produce
  | pull

def streamEntry (producer : StreamProgram Unit) : StreamCall → StreamProgram Unit
  | .produce => producer
  | .pull => Program.update EventStream.pull

/-- The stream as it is returned: the loop has run up to its first wait. -/
def openStream (producer : StreamProgram Unit) : Pool LoopInterface AgentStream JsString Unit StreamCall :=
  ⟨(producer.run {}).2, [⟨.produce, (producer.run {}).1⟩]⟩

end PieAgent.Model
