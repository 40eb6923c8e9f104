import PieAgent.JavaScript.Core.Json
import PieAgent.JavaScript.Core.Maps
import PieAgent.Model.Core.Messages

/-! # A chat completion as it streams in

The chunks of the answer are taken one after another. Text and reasoning have one block each; a part of a tool call goes to
the block that is known for its index, else to the one that is known for its id, else to a new one. A block is named by its
place, for it is appended when it is made.

Usage, the ids of the response and a stream that breaks off are left out.
-/

namespace PieAgent.Model.CompletionsStream

open JavaScript

/-- A part of a tool call. What is no number, or no string, is absent. -/
structure ToolCallDelta where
  index : Option JsNumber
  id : Option JsString
  name : Option JsString
  arguments : Option JsString

/-- An element of `reasoning_details` of the type `reasoning.encrypted`, and its text in JSON. -/
structure ReasoningDetail where
  id : Option JsString
  data : Option JsString
  text : JsString

structure ChunkDelta where
  content : Option JsString := none
  reasoningContent : Option JsString := none
  reasoning : Option JsString := none
  reasoningText : Option JsString := none
  toolCalls : List ToolCallDelta := []
  reasoningDetails : List ReasoningDetail := []

/-- The first choice of a chunk. -/
structure Chunk where
  finishReason : Option JsString := none
  delta : Option ChunkDelta := none

/-- A string that counts as true. -/
def truthy (text : Option JsString) : Option JsString := text.filter (· ≠ [])

structure StreamingToolCall where
  id : JsString
  name : JsString
  arguments : Json
  partialArgs : JsString
  streamIndex : Option JsNumber
  thoughtSignature : Option JsString

inductive StreamingBlock where
  | text (text : JsString)
  | thinking (thinking thinkingSignature : JsString)
  | toolCall (call : StreamingToolCall)

inductive StreamEvent where
  | start
  | textStart (contentIndex : ℕ)
  | textDelta (contentIndex : ℕ) (delta : JsString)
  | textEnd (contentIndex : ℕ) (content : JsString)
  | thinkingStart (contentIndex : ℕ)
  | thinkingDelta (contentIndex : ℕ) (delta : JsString)
  | thinkingEnd (contentIndex : ℕ) (content : JsString)
  | toolcallStart (contentIndex : ℕ)
  | toolcallDelta (contentIndex : ℕ) (delta : JsString)
  | toolcallEnd (contentIndex : ℕ) (call : StreamingToolCall)
  | done (reason : StopReason)
  | error (message : JsString)

structure Streaming where
  blocks : List StreamingBlock := []
  textBlock : Option ℕ := none
  thinkingBlock : Option ℕ := none
  toolCallBlocksByIndex : JsMap JsNumber ℕ := .empty
  toolCallBlocksById : JsMap JsString ℕ := .empty
  stopReason : StopReason := .stop
  errorMessage : Option JsString := none
  hasFinishReason : Bool := false
  events : List StreamEvent := [.start]

/-- The provider of the model, and `parseStreamingJson`. -/
structure CompletionsEnvironment where
  provider : JsString
  parseStreamingJson : JsString → Json

namespace Streaming

def push (st : Streaming) (event : StreamEvent) : Streaming := { st with events := st.events ++ [event] }

/-- The block at a place is changed. -/
def modify (st : Streaming) (place : ℕ) (change : StreamingBlock → StreamingBlock) : Streaming :=
  { st with blocks := st.blocks.modify place change }

def addText (delta : JsString) : StreamingBlock → StreamingBlock
  | .text text => .text (text ++ delta)
  | other => other

def addThinking (delta : JsString) : StreamingBlock → StreamingBlock
  | .thinking thinking signature => .thinking (thinking ++ delta) signature
  | other => other

def onCall (change : StreamingToolCall → StreamingToolCall) : StreamingBlock → StreamingBlock
  | .toolCall call => .toolCall (change call)
  | other => other

def ensureTextBlock (st : Streaming) : Streaming × ℕ :=
  match st.textBlock with
  | some place => (st, place)
  | none =>
    let place := st.blocks.length
    (push { st with textBlock := some place, blocks := st.blocks ++ [.text []] } (.textStart place), place)

def ensureThinkingBlock (st : Streaming) (thinkingSignature : JsString) : Streaming × ℕ :=
  match st.thinkingBlock with
  | some place => (st, place)
  | none =>
    let place := st.blocks.length
    (push { st with thinkingBlock := some place, blocks := st.blocks ++ [.thinking [] thinkingSignature] }
      (.thinkingStart place), place)

/-- The block that is known for the index, or else for the id. -/
def knownBlock (st : Streaming) (toolCall : ToolCallDelta) : Option ℕ :=
  (toolCall.index.bind st.toolCallBlocksByIndex.get?).or ((truthy toolCall.id).bind st.toolCallBlocksById.get?)

def setIndex (st : Streaming) (index : Option JsNumber) (place : ℕ) : Streaming :=
  match index with
  | none => st
  | some index => { st with toolCallBlocksByIndex := st.toolCallBlocksByIndex.set index place }

def setId (st : Streaming) (id : Option JsString) (place : ℕ) : Streaming :=
  match truthy id with
  | none => st
  | some id => { st with toolCallBlocksById := st.toolCallBlocksById.set id place }

def newToolCall (toolCall : ToolCallDelta) : StreamingToolCall where
  id := toolCall.id.getD []
  name := toolCall.name.getD []
  arguments := .obj []
  partialArgs := []
  streamIndex := toolCall.index
  thoughtSignature := none

/-- The `streamIndex` of the block at a place. -/
def streamIndexAt (st : Streaming) (place : ℕ) : Option JsNumber :=
  match st.blocks[place]? with
  | some (.toolCall call) => call.streamIndex
  | _ => none

/-- The index of a part becomes that of a block that has none. -/
def adoptIndex (st : Streaming) (index : Option JsNumber) (place : ℕ) : Streaming :=
  if index.isSome ∧ st.streamIndexAt place = none then
    (st.modify place (onCall fun call => { call with streamIndex := index })).setIndex index place
  else st

def ensureToolCallBlock (st : Streaming) (toolCall : ToolCallDelta) : Streaming × ℕ :=
  match st.knownBlock toolCall with
  | some place => (((st.adoptIndex toolCall.index place).setId toolCall.id place), place)
  | none =>
    let place := st.blocks.length
    let st := (st.setIndex toolCall.index place).setId toolCall.id place
    let st := push { st with blocks := st.blocks ++ [.toolCall (newToolCall toolCall)] } (.toolcallStart place)
    (((st.adoptIndex toolCall.index place).setId toolCall.id place), place)

/-- What a part changes in its block. -/
def extendCall (env : CompletionsEnvironment) (toolCall : ToolCallDelta) (call : StreamingToolCall) :
    StreamingToolCall :=
  let id := if call.id = [] then (truthy toolCall.id).getD call.id else call.id
  let name := if call.name = [] then (truthy toolCall.name).getD call.name else call.name
  match truthy toolCall.arguments with
  | none => { call with id, name }
  | some delta =>
    let partialArgs := call.partialArgs ++ delta
    { call with id, name, partialArgs, arguments := env.parseStreamingJson partialArgs }

/-- The id of a part that its block adopts is already known for the block. -/
def applyToolCall (env : CompletionsEnvironment) (st : Streaming) (toolCall : ToolCallDelta) : Streaming :=
  let (st, place) := st.ensureToolCallBlock toolCall
  (st.modify place (onCall (extendCall env toolCall))).push (.toolcallDelta place (toolCall.arguments.getD []))

/-- The signature goes to the first tool call with the id. -/
def applyDetail (st : Streaming) (detail : ReasoningDetail) : Streaming :=
  match truthy detail.id, truthy detail.data with
  | some id, some _ =>
    let place := st.blocks.findIdx fun
      | .toolCall call => call.id = id
      | _ => false
    st.modify place (onCall fun call => { call with thoughtSignature := some detail.text })
  | _, _ => st

/-- The first reasoning field with a text. -/
def reasoningField (delta : ChunkDelta) : Option (JsString × JsString) :=
  [("reasoning_content", delta.reasoningContent), ("reasoning", delta.reasoning),
    ("reasoning_text", delta.reasoningText)].findSome? fun field => (truthy field.2).map (js field.1, ·)

def applyContent (st : Streaming) (content : Option JsString) : Streaming :=
  match truthy content with
  | none => st
  | some delta =>
    let (st, place) := st.ensureTextBlock
    (st.modify place (addText delta)).push (.textDelta place delta)

def applyReasoning (env : CompletionsEnvironment) (st : Streaming) (delta : ChunkDelta) : Streaming :=
  match reasoningField delta with
  | none => st
  | some (field, text) =>
    let thinkingSignature :=
      if env.provider = js "opencode-go" ∧ field = js "reasoning" then js "reasoning_content" else field
    let (st, place) := st.ensureThinkingBlock thinkingSignature
    (st.modify place (addThinking text)).push (.thinkingDelta place text)

def applyDelta (env : CompletionsEnvironment) (st : Streaming) (delta : ChunkDelta) : Streaming :=
  let st := applyReasoning env (st.applyContent delta.content) delta
  delta.reasoningDetails.foldl applyDetail (delta.toolCalls.foldl (applyToolCall env) st)

/-- The reasons that are not listed are a normal stop. -/
def mapStopReason (reason : JsString) : StopReason × Option JsString :=
  if reason = js "length" then (.length, none)
  else if reason = js "function_call" ∨ reason = js "tool_calls" then (.toolUse, none)
  else if reason = js "content_filter" then (.error, some (js "Provider finish_reason: content_filter"))
  else if reason = js "network_error" then (.error, some (js "Provider finish_reason: network_error"))
  else (.stop, none)

def applyFinish (st : Streaming) (finishReason : Option JsString) : Streaming :=
  match truthy finishReason with
  | none => st
  | some reason =>
    let (stopReason, errorMessage) := mapStopReason reason
    { st with stopReason, errorMessage := errorMessage.or st.errorMessage, hasFinishReason := true }

def applyChunk (env : CompletionsEnvironment) (st : Streaming) (chunk : Chunk) : Streaming :=
  let st := st.applyFinish chunk.finishReason
  match chunk.delta with
  | none => st
  | some delta => st.applyDelta env delta

/-- The arguments are parsed for the last time. -/
def finishCall (env : CompletionsEnvironment) (call : StreamingToolCall) : StreamingToolCall :=
  { call with arguments := env.parseStreamingJson call.partialArgs, partialArgs := [], streamIndex := none }

def finishBlock (env : CompletionsEnvironment) : StreamingBlock → StreamingBlock := onCall (finishCall env)

def endEvent (contentIndex : ℕ) : StreamingBlock → StreamEvent
  | .text text => .textEnd contentIndex text
  | .thinking thinking _ => .thinkingEnd contentIndex thinking
  | .toolCall call => .toolcallEnd contentIndex call

def finishBlocks (env : CompletionsEnvironment) (st : Streaming) : Streaming :=
  let blocks := st.blocks.map (finishBlock env)
  { st with blocks, events := st.events ++ blocks.mapIdx endEvent }

/-- What the stream ends with. -/
def lastEvent (st : Streaming) (aborted : Bool) : StreamEvent :=
  if aborted then .error (js "Request was aborted")
  else if st.stopReason = .error then
    .error ((truthy st.errorMessage).getD (js "Provider returned an error stop reason"))
  else if !st.hasFinishReason then .error (js "Stream ended without finish_reason")
  else .done st.stopReason

end Streaming

/-- All chunks are taken and the blocks are finished. -/
def streamOpenAICompletions (env : CompletionsEnvironment) (chunks : List Chunk) (aborted : Bool) : Streaming :=
  let st := (chunks.foldl (Streaming.applyChunk env) {}).finishBlocks env
  st.push (st.lastEvent aborted)

end PieAgent.Model.CompletionsStream
