import PieAgent.JavaScript.Core.Utf8
import PieAgent.Model.Providers.TransformMessages

/-! # Messages for the chat completions API

The transformed conversation becomes the message list of a request. The results of an answer are sent one after the other;
their images follow in a message of the user. A compatibility setting puts an answer of its own between tool results and a
message of the user. Messages without content are skipped.

The details of the reasoning that go with tool calls are left out, and a signature of a thinking block names a field of its
own.
-/

namespace PieAgent.Model

open JavaScript

/-- The settings that `convertMessages` reads. -/
structure CompletionsCompat where
  supportsDeveloperRole : Bool
  requiresToolResultName : Bool
  requiresAssistantAfterToolResult : Bool
  requiresThinkingAsText : Bool
  requiresReasoningContentOnAssistantMessages : Bool

structure CompletionsModel extends TargetModel where
  reasoning : Bool

inductive ChatPart where
  | text (text : JsString)
  | imageUrl (url : JsString)
deriving DecidableEq

inductive ChatContent where
  | text (text : JsString)
  | parts (parts : List ChatPart)
deriving DecidableEq

structure ChatToolCall where
  id : JsString
  name : JsString
  arguments : List Char
deriving DecidableEq

/-- An answer; without content it is `null`, and the reasoning stands in fields of its own. -/
structure ChatAssistant where
  content : Option ChatContent
  toolCalls : List ChatToolCall := []
  reasoning : List (JsString × JsString) := []
deriving DecidableEq

structure ChatTool where
  content : JsString
  toolCallId : JsString
  name : Option JsString := none
deriving DecidableEq

inductive ChatMessage where
  | instruction (developer : Bool) (content : JsString)
  | user (content : ChatContent)
  | assistant (message : ChatAssistant)
  | tool (message : ChatTool)
  /-- The answer that bridges the gap between tool results and a message of the user. -/
  | bridge
deriving DecidableEq

def bridgeText : JsString := js "I have processed the tool results."

/-- The answer that a message is sent as. -/
def ChatMessage.assistant? : ChatMessage → Option ChatAssistant
  | .assistant message => some message
  | .bridge => some { content := some (.text bridgeText) }
  | _ => none

/-- Removes the surrogates that have no partner. -/
def sanitizeSurrogates (text : JsString) : JsString :=
  ((characters text).filter fun
    | [unit] => !isHighSurrogate unit && !isLowSurrogate unit
    | _ => true).flatten

/-- `normalizeToolCallId` of the chat completions code. -/
def completionsToolCallId (model : TargetModel) : IdNormalizer := fun id _ =>
  if bar ∈ id then ((id.takeWhile (· != bar)).map fun unit => if isIdUnit unit then unit else 0x5F).take 40
  else if model.provider = js "openai" then id.take 40
  else id

def imageUrl (image : ImageContent) : ChatPart :=
  .imageUrl (js "data:" ++ image.mimeType ++ js ";base64," ++ image.data)

def userPart : UserBlock → ChatPart
  | .text block => .text (sanitizeSurrogates block.text)
  | .image image => imageUrl image

/-- The content of a user message, unless it is empty. -/
def userContent? : UserContent → Option ChatContent
  | .plain text => some (.text (sanitizeSurrogates text))
  | .blocks [] => none
  | .blocks content => some (.parts (content.map userPart))

def AssistantMessage.sentTexts (message : AssistantMessage) : List JsString :=
  message.content.filterMap fun
    | .text block => if trim block.text = [] then none else some (sanitizeSurrogates block.text)
    | _ => none

def AssistantMessage.sentThinking (message : AssistantMessage) : List ThinkingContent :=
  message.content.filterMap fun
    | .thinking block => if trim block.thinking = [] then none else some block
    | _ => none

/-- The field that the reasoning is sent in, with its text. -/
def reasoningField (model : CompletionsModel) : List ThinkingContent → List (JsString × JsString)
  | [] => []
  | first :: rest =>
    let thinking := join (js "\n") ((first :: rest).map (·.thinking))
    match first.thinkingSignature with
    | none | some [] => []
    | some signature =>
      if model.provider = js "opencode-go" ∧ signature = js "reasoning" then [(js "reasoning_content", thinking)]
      else [(signature, thinking)]

/-- The answer that is sent, unless it has neither content nor tool calls. -/
def assistantParam? (model : CompletionsModel) (compat : CompletionsCompat) (message : AssistantMessage) :
    Option ChatAssistant :=
  let texts := message.sentTexts
  let thinking := message.sentThinking
  let asText := thinking ≠ [] && compat.requiresThinkingAsText
  let content : Option ChatContent :=
    if asText then
      let thinkingText := join (js "\n\n") (thinking.map (sanitizeSurrogates ·.thinking))
      some (.parts (.text thinkingText :: texts.map .text))
    else if join (js "\n") texts ≠ [] then some (.text (join (js "\n") texts))
    else if compat.requiresAssistantAfterToolResult then some (.text [])
    else none
  let toolCalls := message.toolCalls.map fun call =>
    { id := call.id, name := call.name, arguments := stringify call.arguments }
  let reasoning := if asText then [] else reasoningField model thinking
  let reasoning :=
    if compat.requiresReasoningContentOnAssistantMessages && model.reasoning &&
        (reasoning.lookup (js "reasoning_content")).isNone then reasoning ++ [(js "reasoning_content", [])]
    else reasoning
  let hasContent := match content with
    | none => false
    | some (.text text) => !text.isEmpty
    | some (.parts parts) => !parts.isEmpty
  if !hasContent && toolCalls.isEmpty then none else some { content, toolCalls, reasoning }

def resultText (message : ToolResultMessage) : JsString :=
  join (js "\n") (message.content.filterMap fun
    | .text block => some block.text
    | .image _ => none)

def toolParam (compat : CompletionsCompat) (message : ToolResultMessage) : ChatTool where
  content := sanitizeSurrogates (if resultText message = [] then js "(see attached image)" else resultText message)
  toolCallId := message.toolCallId
  name := if compat.requiresToolResultName ∧ message.toolName ≠ [] then some message.toolName else none

/-- The images of a result that are sent. -/
def resultImages (model : TargetModel) (message : ToolResultMessage) : List ChatPart :=
  if model.readsImages then message.content.filterMap fun
    | .text _ => none
    | .image image => some (imageUrl image)
  else []

/-- `lastRole`. -/
inductive ChatRole where
  | user
  | assistant
  | toolResult
deriving DecidableEq

/-- Where the loop stands: between messages, or within tool results with the images of those before. -/
inductive ChatState where
  | between (lastRole : Option ChatRole)
  | inResults (images : List ChatPart)

def ChatState.images : ChatState → List ChatPart
  | .between _ => []
  | .inResults images => images

section Loop

variable (model : CompletionsModel) (compat : CompletionsCompat)

def bridges : List ChatMessage := if compat.requiresAssistantAfterToolResult then [.bridge] else []

/-- What follows tool results, and the role that they leave. -/
def ChatState.close : ChatState → List ChatMessage × Option ChatRole
  | .between lastRole => ([], lastRole)
  | .inResults [] => ([], some .toolResult)
  | .inResults images =>
    (bridges compat ++ [.user (.parts (.text (js "Attached image(s) from tool result:") :: images))], some .user)

/-- What a user message is sent as, and the role that it leaves. -/
def convertUser (lastRole : Option ChatRole) (message : UserMessage) : List ChatMessage × Option ChatRole :=
  let bridge := if lastRole = some .toolResult then bridges compat else []
  match userContent? message.content with
  | none => (bridge, lastRole)
  | some content => (bridge ++ [.user content], some .user)

def convertAssistant (lastRole : Option ChatRole) (message : AssistantMessage) : List ChatMessage × Option ChatRole :=
  match assistantParam? model compat message with
  | none => ([], lastRole)
  | some param => ([.assistant param], some .assistant)

/-- The loop over the transformed messages. -/
def convertLoop : ChatState → List Message → List ChatMessage
  | state, [] => (state.close compat).1
  | state, .toolResult message :: rest =>
    .tool (toolParam compat message) ::
      convertLoop (.inResults (state.images ++ resultImages model.toTargetModel message)) rest
  | state, .user message :: rest =>
    let (closing, lastRole) := state.close compat
    let (sent, lastRole) := convertUser compat lastRole message
    closing ++ sent ++ convertLoop (.between lastRole) rest
  | state, .assistant message :: rest =>
    let (closing, lastRole) := state.close compat
    let (sent, lastRole) := convertAssistant model compat lastRole message
    closing ++ sent ++ convertLoop (.between lastRole) rest

def instructions (systemPrompt : Option JsString) : List ChatMessage :=
  match systemPrompt with
  | none | some [] => []
  | some prompt => [.instruction (model.reasoning && compat.supportsDeveloperRole) (sanitizeSurrogates prompt)]

def convertMessages (now : ℤ) (systemPrompt : Option JsString) (messages : List Message) : List ChatMessage :=
  instructions model compat systemPrompt ++ convertLoop model compat (.between none)
    (transformMessages now messages model.toTargetModel (some (completionsToolCallId model.toTargetModel)))

end Loop

end PieAgent.Model
