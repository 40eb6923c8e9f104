import PieAgent.Model.Core.Messages

/-! # Messages that wait for a run of the agent

A session queues what the user sends while the agent is running. The agent has a queue for steering messages and
one for follow-ups, and its loop takes messages out of them to start them before its next request. Beside the two
queues the session keeps the texts that it shows as waiting, and takes a text out when a user message with
this text starts.

The texts of the events are those behind the expansion of skills and templates.
-/

namespace PieAgent.Model

open JavaScript

inductive QueueMode where
  | all
  | oneAtATime

structure PendingMessageQueue where
  mode : QueueMode
  messages : List AgentMessage := []

def PendingMessageQueue.enqueue (queue : PendingMessageQueue) (message : AgentMessage) : PendingMessageQueue :=
  { queue with messages := queue.messages ++ [message] }

/-- The messages that are taken, and the queue without them. -/
def PendingMessageQueue.drain (queue : PendingMessageQueue) : List AgentMessage × PendingMessageQueue :=
  match queue.mode with
  | .all => (queue.messages, { queue with messages := [] })
  | .oneAtATime => (queue.messages.take 1, { queue with messages := queue.messages.drop 1 })

def PendingMessageQueue.clear (queue : PendingMessageQueue) : PendingMessageQueue := { queue with messages := [] }

/-- How a message is queued. -/
inductive StreamingBehavior where
  | steer
  | followUp
deriving DecidableEq

def buildUserContent (text : JsString) (images : List ImageContent) : UserContent :=
  if images = [] then .plain text else .blocks (.text { text } :: images.map .image)

/-- `_getUserMessageText` of the content. -/
def userMessageText : UserContent → JsString
  | .plain text => text
  | .blocks content => content.flatMap fun
    | .text block => block.text
    | .image _ => []

/-- The text and the images of what `sendUserMessage` is given. -/
def splitContent : UserContent → JsString × List ImageContent
  | .plain text => (text, [])
  | .blocks content =>
    (join (js "\n") (content.filterMap fun
        | .text block => some block.text
        | .image _ => none),
      content.filterMap fun
        | .text _ => none
        | .image block => some block)

/-- A message that the loop has taken and that has not started. `shown` is the queue that it was taken from; it is
absent for the message of a prompt, and when the queues have been cleared since. -/
structure StartingMessage where
  message : AgentMessage
  shown : Option StreamingBehavior

/-- The waiting messages of a session and its agent. -/
structure PromptQueues where
  steeringMessages : List JsString := []
  followUpMessages : List JsString := []
  steeringQueue : PendingMessageQueue
  followUpQueue : PendingMessageQueue
  starting : List StartingMessage := []
  isStreaming : Bool := false

inductive QueueEvent where
  | steer (text : JsString) (images : List ImageContent) (now : Timestamp)
  | followUp (text : JsString) (images : List ImageContent) (now : Timestamp)
  | prompt (text : JsString) (images : List ImageContent) (streamingBehavior : Option StreamingBehavior) (now : Timestamp)
  | sendUserMessage (content : UserContent) (deliverAs : Option StreamingBehavior) (now : Timestamp)
  | sendCustomMessage (message : CustomMessage) (deliverAs : StreamingBehavior)
  | setMode (queue : StreamingBehavior) (mode : QueueMode)
  | clearQueue
  | getSteeringMessages
  | getFollowUpMessages
  | messageStart
  | endRun

def PromptQueues.queueSteer (state : PromptQueues) (text : JsString) (images : List ImageContent) (now : Timestamp) :
    PromptQueues :=
  { state with
    steeringMessages := state.steeringMessages ++ [text]
    steeringQueue := state.steeringQueue.enqueue (.user { content := buildUserContent text images, timestamp := now }) }

def PromptQueues.queueFollowUp (state : PromptQueues) (text : JsString) (images : List ImageContent) (now : Timestamp) :
    PromptQueues :=
  { state with
    followUpMessages := state.followUpMessages ++ [text]
    followUpQueue := state.followUpQueue.enqueue (.user { content := buildUserContent text images, timestamp := now }) }

/-- `prompt`: a message of its own when no run is going on. Without a streaming behavior it throws while one is. -/
def PromptQueues.prompt (state : PromptQueues) (text : JsString) (images : List ImageContent)
    (streamingBehavior : Option StreamingBehavior) (now : Timestamp) : PromptQueues :=
  if state.isStreaming then
    match streamingBehavior with
    | none => state
    | some .followUp => state.queueFollowUp text images now
    | some .steer => state.queueSteer text images now
  else
    { state with
      isStreaming := true
      starting := [{ message := .user { content := buildUserContent text images, timestamp := now }, shown := none }] }

/-- The removal in `_handleAgentEvent` when a message starts. -/
def PromptQueues.removeStarted (state : PromptQueues) (message : AgentMessage) : PromptQueues :=
  match message with
  | .user message =>
    let text := userMessageText message.content
    if text = [] then state
    else if text ∈ state.steeringMessages then { state with steeringMessages := state.steeringMessages.erase text }
    else if text ∈ state.followUpMessages then { state with followUpMessages := state.followUpMessages.erase text }
    else state
  | _ => state

/-- The result of `clearQueue`. -/
def PromptQueues.cleared (state : PromptQueues) : List JsString × List JsString :=
  (state.steeringMessages, state.followUpMessages)

/-- The loop takes messages only when it has started those that it took before. -/
def PromptQueues.step (state : PromptQueues) : QueueEvent → Option PromptQueues
  | .steer text images now => some (state.queueSteer text images now)
  | .followUp text images now => some (state.queueFollowUp text images now)
  | .prompt text images streamingBehavior now => some (state.prompt text images streamingBehavior now)
  | .sendUserMessage content deliverAs now =>
    some (state.prompt (splitContent content).1 (splitContent content).2 deliverAs now)
  | .sendCustomMessage message .steer => some { state with steeringQueue := state.steeringQueue.enqueue (.custom message) }
  | .sendCustomMessage message .followUp =>
    some { state with followUpQueue := state.followUpQueue.enqueue (.custom message) }
  | .setMode .steer mode => some { state with steeringQueue := { state.steeringQueue with mode } }
  | .setMode .followUp mode => some { state with followUpQueue := { state.followUpQueue with mode } }
  | .clearQueue => some
    { state with
      steeringMessages := []
      followUpMessages := []
      steeringQueue := state.steeringQueue.clear
      followUpQueue := state.followUpQueue.clear
      starting := state.starting.map fun entry => { entry with shown := none } }
  | .getSteeringMessages =>
    if state.starting = [] then
      let (drained, steeringQueue) := state.steeringQueue.drain
      some { state with
        steeringQueue
        starting := drained.map fun message => { message, shown := some .steer }
        isStreaming := state.isStreaming || !drained.isEmpty }
    else none
  | .getFollowUpMessages =>
    if state.starting = [] then
      let (drained, followUpQueue) := state.followUpQueue.drain
      some { state with
        followUpQueue
        starting := drained.map fun message => { message, shown := some .followUp }
        isStreaming := state.isStreaming || !drained.isEmpty }
    else none
  | .messageStart =>
    match state.starting with
    | [] => none
    | entry :: starting => some { state.removeStarted entry.message with starting }
  | .endRun => some { state with starting := [], isStreaming := false }

end PieAgent.Model
