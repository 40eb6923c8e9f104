import Mathlib.Data.Nat.Digits.Defs
import PieAgent.Model.Core.Messages

/-! # Preparing a conversation for another model

`transformMessages` runs before every provider request. A first pass replaces images the target
cannot read, adapts the content of answers from other models, and renames their tool calls; the
renaming is remembered in a map that lives across the whole conversation. A second pass drops failed
answers and adds a result for every tool call that has none.
-/

namespace PieAgent.Model

open JavaScript

/-- The fields of a target model that the transformation reads. -/
structure TargetModel where
  provider : JsString
  api : JsString
  id : JsString
  readsImages : Bool

/-- `normalizeToolCallId` with the target model applied. -/
abbrev IdNormalizer := JsString → AssistantMessage → JsString

def nonVisionUserImagePlaceholder : JsString := js "(image omitted: model does not support images)"

def nonVisionToolImagePlaceholder : JsString := js "(tool image omitted: model does not support images)"

/-- Replace every run of images by one placeholder, none after a text that equals it. -/
def replaceImagesWithPlaceholder (placeholder : JsString) : Bool → List UserBlock → List UserBlock
  | _, [] => []
  | previousWasPlaceholder, .image _ :: rest =>
    if previousWasPlaceholder then replaceImagesWithPlaceholder placeholder true rest
    else .text { text := placeholder } :: replaceImagesWithPlaceholder placeholder true rest
  | _, .text block :: rest =>
    .text block :: replaceImagesWithPlaceholder placeholder (block.text == placeholder) rest

/-- One message of `downgradeUnsupportedImages`. -/
def downgradeImages (model : TargetModel) (message : Message) : Message :=
  if model.readsImages then message
  else match message with
    | .user ⟨.blocks content, timestamp⟩ =>
      .user ⟨.blocks (replaceImagesWithPlaceholder nonVisionUserImagePlaceholder false content), timestamp⟩
    | .toolResult message =>
      .toolResult { message with
        content := replaceImagesWithPlaceholder nonVisionToolImagePlaceholder false message.content }
    | message => message

def downgradeUnsupportedImages (model : TargetModel) (messages : List Message) : List Message :=
  messages.map (downgradeImages model)

/-- The answer comes from the target model itself. -/
def isSameModel (model : TargetModel) (message : AssistantMessage) : Bool :=
  message.provider == model.provider && message.api == model.api && message.model == model.id

/-- The id under which a call of an answer is sent. -/
def normalizedCallId (model : TargetModel) (normalize : Option IdNormalizer) (message : AssistantMessage)
    (id : JsString) : JsString :=
  match normalize with
  | none => id
  | some normalize => if isSameModel model message then id else normalize id message

/-- The transformed thinking block, if it is kept. -/
def transformThinking (same : Bool) (block : ThinkingContent) : List AssistantBlock :=
  if block.redacted then (if same then [.thinking block] else [])
  else if same && (block.thinkingSignature.any (!·.isEmpty)) then [.thinking block]
  else if (trim block.thinking).isEmpty then []
  else if same then [.thinking block]
  else [.text { text := block.thinking }]

/-- The transformed tool call. -/
def transformToolCall (model : TargetModel) (normalize : Option IdNormalizer) (message : AssistantMessage)
    (call : ToolCall) : ToolCall :=
  { call with
    id := normalizedCallId model normalize message call.id
    thoughtSignature :=
      if isSameModel model message then call.thoughtSignature else call.thoughtSignature.filter (·.isEmpty) }

def transformBlock (model : TargetModel) (normalize : Option IdNormalizer) (message : AssistantMessage) :
    AssistantBlock → List AssistantBlock
  | .thinking block => transformThinking (isSameModel model message) block
  | .text block => [.text (if isSameModel model message then block else { text := block.text })]
  | .toolCall call => [.toolCall (transformToolCall model normalize message call)]

/-- The map from original to normalised ids, latest entry first. -/
abbrev ToolCallIdMap := List (JsString × JsString)

/-- `toolCallIdMap.set` for a call whose id changes. -/
def recordRenaming (model : TargetModel) (normalize : Option IdNormalizer) (message : AssistantMessage)
    (toolCallIdMap : ToolCallIdMap) (call : ToolCall) : ToolCallIdMap :=
  let normalizedId := normalizedCallId model normalize message call.id
  if normalizedId = call.id then toolCallIdMap else (call.id, normalizedId) :: toolCallIdMap

/-- The id of a tool result after the first pass. -/
def mappedResultId (toolCallIdMap : ToolCallIdMap) (toolCallId : JsString) : JsString :=
  match toolCallIdMap.lookup toolCallId with
  | some (unit :: rest) => unit :: rest
  | _ => toolCallId

/-- The first pass over one assistant message. -/
def transformAssistant (model : TargetModel) (normalize : Option IdNormalizer) (message : AssistantMessage) :
    AssistantMessage :=
  { message with content := message.content.flatMap (transformBlock model normalize message) }

/-- The map after one assistant message. -/
def recordRenamings (model : TargetModel) (normalize : Option IdNormalizer) (toolCallIdMap : ToolCallIdMap)
    (message : AssistantMessage) : ToolCallIdMap :=
  message.toolCalls.foldl (recordRenaming model normalize message) toolCallIdMap

/-- The first pass. -/
def transformPass (model : TargetModel) (normalize : Option IdNormalizer) : ToolCallIdMap → List Message → List Message
  | _, [] => []
  | toolCallIdMap, .user message :: rest => .user message :: transformPass model normalize toolCallIdMap rest
  | toolCallIdMap, .toolResult message :: rest =>
    .toolResult { message with toolCallId := mappedResultId toolCallIdMap message.toolCallId } ::
      transformPass model normalize toolCallIdMap rest
  | toolCallIdMap, .assistant message :: rest =>
    .assistant (transformAssistant model normalize message) ::
      transformPass model normalize (recordRenamings model normalize toolCallIdMap message) rest

/-- The result made up for a call without one. -/
def syntheticResult (now : ℤ) (call : ToolCall) : ToolResultMessage :=
  { toolCallId := call.id, toolName := call.name, content := [.text { text := js "No result provided" }]
    isError := true, timestamp := .millis now }

/-- The results inserted for the pending calls. -/
def insertSyntheticToolResults (now : ℤ) (pendingToolCalls : List ToolCall) (existingToolResultIds : List JsString) :
    List ToolResultMessage :=
  (pendingToolCalls.filter fun call => call.id ∉ existingToolResultIds).map (syntheticResult now)

/-- An answer that failed is not sent again. -/
def AssistantMessage.failed (message : AssistantMessage) : Bool :=
  message.stopReason == .error || message.stopReason == .aborted

/-- The second pass, from the pending calls and the ids of the results seen since. -/
def pairPass (now : ℤ) : List ToolCall → List JsString → List Message → List Message
  | pending, existing, [] => (insertSyntheticToolResults now pending existing).map .toolResult
  | pending, existing, .assistant message :: rest =>
    let existingAfter := if pending.isEmpty then existing else []
    (insertSyntheticToolResults now pending existing).map .toolResult ++
      if message.failed then pairPass now [] existingAfter rest
      else if message.toolCalls.isEmpty then .assistant message :: pairPass now [] existingAfter rest
      else .assistant message :: pairPass now message.toolCalls [] rest
  | pending, existing, .toolResult message :: rest =>
    .toolResult message :: pairPass now pending (message.toolCallId :: existing) rest
  | pending, existing, .user message :: rest =>
    (insertSyntheticToolResults now pending existing).map .toolResult ++
      .user message :: pairPass now [] (if pending.isEmpty then existing else []) rest

def transformMessages (now : ℤ) (messages : List Message) (model : TargetModel) (normalize : Option IdNormalizer) :
    List Message :=
  pairPass now [] [] (transformPass model normalize [] (downgradeUnsupportedImages model messages))

end PieAgent.Model

/-! ## Tool call ids for the responses API

`normalizeToolCallId` of the shared responses code: an id part keeps letters, digits, underscores
and dashes, at most 64 of them, and no trailing underscore. A composite id `call|item` of an older
transcript keeps its structure; a foreign item id is replaced by a hash.
-/

namespace PieAgent.Model

open JavaScript

/-- The class `[a-zA-Z0-9_-]`. -/
def isIdUnit (unit : CodeUnit) : Bool :=
  (0x61 ≤ unit && unit ≤ 0x7A) || (0x41 ≤ unit && unit ≤ 0x5A) || (0x30 ≤ unit && unit ≤ 0x39) ||
    unit == 0x5F || unit == 0x2D

def normalizeIdPart (part : JsString) : JsString :=
  ((part.map fun unit => if isIdUnit unit then unit else 0x5F).take 64).rdropWhile (· == 0x5F)

/-- The digits of `Number.prototype.toString(36)`. -/
def toBase36 (n : UInt32) : JsString :=
  if n = 0 then js "0" else ofText ((Nat.digits 36 n.toNat).reverse.map hexDigit)

/-- `Math.imul`. -/
def imul (first second : UInt32) : UInt32 := first * second

/-- One round of the hash loop. -/
def hashRound (state : UInt32 × UInt32) (ch : CodeUnit) : UInt32 × UInt32 :=
  (imul (state.1 ^^^ ch.toUInt32) 2654435761, imul (state.2 ^^^ ch.toUInt32) 1597334677)

def shortHash (text : JsString) : JsString :=
  let (h1, h2) := text.foldl hashRound (0xdeadbeef, 0x41c6ce57)
  let h1 := imul (h1 ^^^ (h1 >>> 16)) 2246822507 ^^^ imul (h2 ^^^ (h2 >>> 13)) 3266489909
  let h2 := imul (h2 ^^^ (h2 >>> 16)) 2246822507 ^^^ imul (h1 ^^^ (h1 >>> 13)) 3266489909
  toBase36 h2 ++ toBase36 h1

def buildForeignResponsesItemId (itemId : JsString) : JsString := (js "fc_" ++ shortHash itemId).take 64

/-- The code unit of the bar that separates the parts of a composite id. -/
def bar : CodeUnit := 0x7C

def normalizeToolCallId (allowedToolCallProviders : List JsString) (model : TargetModel) : IdNormalizer :=
  fun id source =>
    if model.provider ∉ allowedToolCallProviders then normalizeIdPart id
    else if bar ∉ id then normalizeIdPart id
    else
      let callId := id.takeWhile (· != bar)
      let itemId := (id.drop (callId.length + 1)).takeWhile (· != bar)
      let isForeignToolCall := source.provider != model.provider || source.api != model.api
      let normalizedItemId :=
        if isForeignToolCall then buildForeignResponsesItemId itemId else normalizeIdPart itemId
      let normalizedItemId :=
        if (js "fc_").isPrefixOf normalizedItemId then normalizedItemId
        else normalizeIdPart (js "fc_" ++ normalizedItemId)
      normalizeIdPart callId ++ [bar] ++ normalizedItemId

/-- `OPENAI_TOOL_CALL_PROVIDERS`. -/
def openaiToolCallProviders : List JsString := [js "openai", js "openai-codex", js "opencode"]

end PieAgent.Model
