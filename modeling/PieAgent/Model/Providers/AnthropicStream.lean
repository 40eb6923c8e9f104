import PieAgent.JavaScript.Core.JsonParse
import PieAgent.Model.Core.Messages
import PieAgent.Model.Providers.AnthropicSse

/-! # An Anthropic answer as it streams in

The events of the response body are parsed one after another, and each changes the message that is being put
together and pushes events of its own. Whatever throws on the way, the stream ends with an `error` event. When
nothing does, it ends with `done`.

Token counts and prices are left out, the signature of a thinking block is kept as its block starts it, and of
what is added to them it is kept that the addition may throw.
-/

namespace PieAgent.Model.Providers

open JavaScript

/-- What the code takes from its surroundings: the text of a number, the message of the error that `JSON.parse` throws,
`parseStreamingJson`, `toLowerCase`, and from the request whether its token is an OAuth token and which tools it names. -/
structure StreamEnvironment where
  numberText : NumberLiteral → JsString
  syntaxError : Line → JsString
  parseStreamingJson : Option JsString → Json
  toLowerCase : JsString → JsString
  isOAuth : Bool := false
  tools : List JsString := []

section Repair

def isHexDigit (c : Char) : Bool := (hexValue? c).isSome

def validJsonEscapes : List Char := ['"', '\\', '/', 'b', 'f', 'n', 'r', 't', 'u']

def escapeControlCharacter (c : Char) : Line :=
  if c.toNat = 8 then ['\\', 'b']
  else if c.toNat = 12 then ['\\', 'f']
  else if c = '\n' then ['\\', 'n']
  else if c = '\r' then ['\\', 'r']
  else if c = '\t' then ['\\', 't']
  else ['\\', 'u', '0', '0', hexDigit (c.toNat / 16), hexDigit (c.toNat % 16)]

/-- The loop of `repairJson`; the first argument is `inString`. -/
def repairFrom : Bool → Line → Line
  | _, [] => []
  | false, c :: rest => c :: repairFrom (c == '"') rest
  | true, '"' :: rest => '"' :: repairFrom false rest
  | true, ['\\'] => ['\\', '\\']
  | true, '\\' :: next :: rest =>
    if next == 'u' && (rest.take 4).length == 4 && (rest.take 4).all isHexDigit then
      '\\' :: 'u' :: repairFrom true rest
    else if validJsonEscapes.contains next then '\\' :: next :: repairFrom true rest
    else '\\' :: '\\' :: repairFrom true (next :: rest)
  | true, c :: rest => (if c.toNat ≤ 0x1F then escapeControlCharacter c else [c]) ++ repairFrom true rest

def repairJson (json : Line) : Line := repairFrom false json

def parseJsonWithRepair (env : StreamEnvironment) (json : Line) : Except JsString Json :=
  match parse? json with
  | some value => .ok value
  | none =>
    if repairJson json = json then .error (env.syntaxError json)
    else match parse? (repairJson json) with
      | some value => .ok value
      | none => .error (env.syntaxError (repairJson json))

end Repair

section Values

/-- `value[key]`, absent when it is `undefined`. -/
def readProperty (value : Option Json) (key : String) : Except JsString (Option Json) :=
  match value with
  | none => .error (js "Cannot read properties of undefined (reading '" ++ js key ++ js "')")
  | some .null => .error (js "Cannot read properties of null (reading '" ++ js key ++ js "')")
  | some value => .ok (value.get? (js key))

mutual

/-- The text of a value that is added to a text. An object of JSON that has a `toString` of its own has no text. -/
def toText (env : StreamEnvironment) : Json → Except JsString JsString
  | .null => .ok (js "null")
  | .bool value => .ok (if value then js "true" else js "false")
  | .num literal => .ok (env.numberText literal)
  | .str value => .ok value
  | .arr items => (itemTexts env items).map (join (js ","))
  | .obj members =>
    if members.any (·.1 == js "toString") then .error (js "Cannot convert object to primitive value")
    else .ok (js "[object Object]")

def itemTexts (env : StreamEnvironment) : List Json → Except JsString (List JsString)
  | [] => .ok []
  | .null :: rest => (itemTexts env rest).map ([] :: ·)
  | item :: rest => do
    let text ← toText env item
    return text :: (← itemTexts env rest)

end

def valueText (env : StreamEnvironment) : Option Json → Except JsString JsString
  | none => .ok (js "undefined")
  | some value => toText env value

def truthy (env : StreamEnvironment) : Option Json → Bool
  | none | some .null => false
  | some (.bool value) => value
  | some (.num literal) => env.numberText literal != js "0"
  | some (.str value) => !value.isEmpty
  | some (.arr _) | some (.obj _) => true

/-- `===` of values that come from two texts: an object is never the other one. -/
def strictlyEqual (env : StreamEnvironment) : Option Json → Option Json → Bool
  | none, none | some .null, some .null => true
  | some (.bool first), some (.bool second) => first == second
  | some (.num first), some (.num second) => env.numberText first == env.numberText second
  | some (.str first), some (.str second) => first == second
  | _, _ => false

def isText (value : Option Json) (text : String) : Bool := value == some (.str (js text))

end Values

section Messages

/-- A block that is being put together. The `partialJson` of a tool call is absent when the block has stopped. -/
inductive StreamBlock where
  | text (text : JsString)
  | thinking (thinking : JsString) (thinkingSignature : Option Json) (redacted : Bool)
  | toolCall (id name : Option Json) (arguments : Json) (partialJson : Option JsString)
deriving DecidableEq

/-- A block and its `index`, absent when the block has stopped. -/
structure Block where
  block : StreamBlock
  index : Option Json
deriving DecidableEq

/-- The message that is being put together, as far as the stream changes it. -/
structure AnthropicOutput where
  content : List Block := []
  responseId : Option Json := none
  stopReason : StopReason := .stop
  errorMessage : Option JsString := none
deriving DecidableEq

inductive AnthropicEvent where
  | start
  | textStart (contentIndex : ℕ)
  | textDelta (contentIndex : ℕ) (delta : Option Json)
  | textEnd (contentIndex : ℕ) (content : JsString)
  | thinkingStart (contentIndex : ℕ)
  | thinkingDelta (contentIndex : ℕ) (delta : Option Json)
  | thinkingEnd (contentIndex : ℕ) (content : JsString)
  | toolcallStart (contentIndex : ℕ)
  | toolcallDelta (contentIndex : ℕ) (delta : Option Json)
  | toolcallEnd (contentIndex : ℕ) (toolCall : StreamBlock)
  | done (reason : StopReason) (message : AnthropicOutput)
  | error (reason : StopReason) (error : AnthropicOutput)
deriving DecidableEq

structure StreamState where
  output : AnthropicOutput := {}
  pushed : List AnthropicEvent := [.start]

/-- A step of the handler. What it has changed before it throws stays changed. -/
abbrev Handler := ExceptT JsString (StateM StreamState)

def Handler.push (event : AnthropicEvent) : Handler Unit :=
  modify fun state => { state with pushed := state.pushed ++ [event] }

/-- `output.content.push(block)`, and the event of its start. -/
def Handler.pushBlock (block : StreamBlock) (index : Option Json) (started : ℕ → AnthropicEvent) : Handler Unit := do
  modify fun state => { state with output.content := state.output.content ++ [{ block, index }] }
  Handler.push (started ((← get).output.content.length - 1))

/-- The first block with the index, and where it stands. -/
def Handler.findBlock (env : StreamEnvironment) (index : Option Json) : Handler (Option (ℕ × StreamBlock)) := do
  let content := (← get).output.content
  let position := content.findIdx fun block => strictlyEqual env block.index index
  return content[position]?.map fun block => (position, block.block)

def Handler.setBlock (position : ℕ) (block : StreamBlock) : Handler Unit :=
  modify fun state => { state with
    output.content := state.output.content.modify position fun known => { known with block } }

def mapStopReason (reason : Option Json) : StopReason :=
  if isText reason "max_tokens" then .length
  else if isText reason "tool_use" then .toolUse
  else .stop

/-- The name of the tool that the request gives in another case. -/
def fromClaudeCodeName (env : StreamEnvironment) (name : Option Json) : Except JsString (Option Json) :=
  if env.tools = [] then .ok name
  else match name with
    | none => .error (js "Cannot read properties of undefined (reading 'toLowerCase')")
    | some .null => .error (js "Cannot read properties of null (reading 'toLowerCase')")
    | some (.str text) =>
      .ok (some (.str ((env.tools.find? fun tool => env.toLowerCase tool == env.toLowerCase text).getD text)))
    | some _ => .error (js "name.toLowerCase is not a function")

/-- The counts of a `message_start` are taken over where they are truthy, and then added up. -/
def takeUsage (env : StreamEnvironment) (usage : Option Json) : Except JsString Unit := do
  for key in ["input_tokens", "output_tokens", "cache_read_input_tokens", "cache_creation_input_tokens"] do
    let count ← readProperty usage key
    if truthy env count then discard <| valueText env count

/-- The counts of a `message_delta` are added where they are there. -/
def addUsage (env : StreamEnvironment) (usage : Option Json) : Except JsString Unit := do
  for key in ["input_tokens", "output_tokens", "cache_read_input_tokens", "cache_creation_input_tokens"] do
    let count ← readProperty usage key
    if count ≠ none ∧ count ≠ some .null then discard <| valueText env count

def handleMessageStart (env : StreamEnvironment) (event : Option Json) : Handler Unit := do
  let message ← readProperty event "message"
  let responseId ← readProperty message "id"
  modify fun state => { state with output.responseId := responseId }
  takeUsage env (← readProperty message "usage")

def handleBlockStart (env : StreamEnvironment) (event : Option Json) : Handler Unit := do
  let contentBlock ← readProperty event "content_block"
  let type ← readProperty contentBlock "type"
  let index ← readProperty event "index"
  if isText type "text" then Handler.pushBlock (.text []) index .textStart
  else if isText type "thinking" then
    Handler.pushBlock (.thinking [] (some (.str [])) false) index .thinkingStart
  else if isText type "redacted_thinking" then
    Handler.pushBlock (.thinking (js "[Reasoning redacted]") (← readProperty contentBlock "data") true) index .thinkingStart
  else if isText type "tool_use" then do
    let id ← readProperty contentBlock "id"
    let named ← readProperty contentBlock "name"
    let name ← if env.isOAuth then fromClaudeCodeName env named else pure named
    let input ← readProperty contentBlock "input"
    let arguments := match input with
      | none | some .null => .obj []
      | some input => input
    Handler.pushBlock (.toolCall id name arguments (some [])) index .toolcallStart

def handleBlockDelta (env : StreamEnvironment) (event : Option Json) : Handler Unit := do
  let delta ← readProperty event "delta"
  let type ← readProperty delta "type"
  let index ← readProperty event "index"
  if isText type "text_delta" then
    if let some (position, .text text) ← Handler.findBlock env index then do
      let added ← readProperty delta "text"
      Handler.setBlock position (.text (text ++ (← valueText env added)))
      Handler.push (.textDelta position added)
  else if isText type "thinking_delta" then
    if let some (position, .thinking thinking signature redacted) ← Handler.findBlock env index then do
      let added ← readProperty delta "thinking"
      Handler.setBlock position (.thinking (thinking ++ (← valueText env added)) signature redacted)
      Handler.push (.thinkingDelta position added)
  else if isText type "input_json_delta" then
    if let some (position, .toolCall id name _ partialJson) ← Handler.findBlock env index then do
      let added ← readProperty delta "partial_json"
      let partialJson := partialJson.getD (js "undefined") ++ (← valueText env added)
      Handler.setBlock position (.toolCall id name (env.parseStreamingJson (some partialJson)) (some partialJson))
      Handler.push (.toolcallDelta position added)
  else if isText type "signature_delta" then
    if let some (_, .thinking _ signature _) ← Handler.findBlock env index then do
      if truthy env signature then discard <| valueText env signature
      discard <| valueText env (← readProperty delta "signature")

def handleBlockStop (env : StreamEnvironment) (event : Option Json) : Handler Unit := do
  if let some (position, block) ← Handler.findBlock env (← readProperty event "index") then do
    modify fun state => { state with
      output.content := state.output.content.modify position fun known => { known with index := none } }
    match block with
    | .text text => Handler.push (.textEnd position text)
    | .thinking thinking _ _ => Handler.push (.thinkingEnd position thinking)
    | .toolCall id name _ partialJson =>
      let toolCall := .toolCall id name (env.parseStreamingJson partialJson) none
      Handler.setBlock position toolCall
      Handler.push (.toolcallEnd position toolCall)

def handleMessageDelta (env : StreamEnvironment) (event : Option Json) : Handler Unit := do
  let stopReason ← readProperty (← readProperty event "delta") "stop_reason"
  if truthy env stopReason then
    modify fun state => { state with output.stopReason := mapStopReason stopReason }
  addUsage env (← readProperty event "usage")

/-- The body of the loop over the events. -/
def handleEvent (env : StreamEnvironment) (event : Json) : Handler Unit := do
  let type := event.get? (js "type")
  if isText type "message_start" then handleMessageStart env (some event)
  else if isText type "content_block_start" then handleBlockStart env (some event)
  else if isText type "content_block_delta" then handleBlockDelta env (some event)
  else if isText type "content_block_stop" then handleBlockStop env (some event)
  else if isText type "message_delta" then handleMessageDelta env (some event)

end Messages

section Events

def anthropicMessageEvents : List String :=
  ["message_start", "message_delta", "message_stop", "content_block_start", "content_block_delta", "content_block_stop"]

/-- The message of an error event, or the fixed text. -/
def anthropicSseErrorMessage (data : Line) : JsString :=
  let message := ((parse? data).bind (·.get? (js "error"))).bind (·.get? (js "message"))
  match message with
  | some (.str (unit :: rest)) => unit :: rest
  | _ => js "anthropic error"

/-- The event that `iterateAnthropicEvents` yields for a server-sent event: an error, an event that it passes over,
or a value that has a `type` to read. -/
def readMessageEvent (env : StreamEnvironment) (sse : ServerSentEvent) : Except JsString (Option Json) :=
  if sse.event = some "error".toList then .error (anthropicSseErrorMessage sse.data)
  else if ((sse.event.map String.ofList).any anthropicMessageEvents.contains) = false then .ok none
  else
    let parsed := do
      let event ← parseJsonWithRepair env sse.data
      discard <| readProperty (some event) "type"
      return event
    match parsed with
    | .ok event => .ok (some event)
    | .error message =>
      .error (js "Could not parse Anthropic SSE event " ++ ofText (sse.event.getD []) ++ js ": " ++ message ++
        js "; data=" ++ ofText sse.data ++ js "; raw=" ++ join (js "\\n") (sse.raw.map ofText))

/-- The state of the two loops. -/
structure AnthropicState where
  sawMessageStart : Bool := false
  sawMessageEnd : Bool := false
  stream : StreamState := {}

/-- A server-sent event goes through both loops; an error ends them. -/
def receiveEvent (env : StreamEnvironment) (state : AnthropicState) (sse : ServerSentEvent) :
    Option JsString × AnthropicState :=
  match readMessageEvent env sse with
  | .error error => (some error, state)
  | .ok none => (none, state)
  | .ok (some event) =>
    let type := event.get? (js "type")
    let (result, stream) := (handleEvent env event).run state.stream
    (match result with | .ok _ => none | .error error => some error,
      { sawMessageStart := state.sawMessageStart || isText type "message_start"
        sawMessageEnd := state.sawMessageEnd || isText type "message_stop"
        stream })

def receiveEvents (env : StreamEnvironment) (state : AnthropicState) : List ServerSentEvent → Option JsString × AnthropicState
  | [] => (none, state)
  | sse :: events =>
    match receiveEvent env state sse with
    | (some error, state) => (some error, state)
    | (none, state) => receiveEvents env state events

structure ResponseBody where
  chunks : List (List UInt8)
  bodyEnd : BodyEnd

/-- The last event when something has thrown. -/
def failureEvent (aborted : Bool) (error : JsString) (output : AnthropicOutput) : AnthropicEvent :=
  if aborted then .error .aborted { stopReason := .aborted, errorMessage := some (js "aborted") }
  else .error .error { output with stopReason := .error, errorMessage := some error }

/-- What has thrown: an event, a read, or one of the checks behind the loops. -/
def answerError (eventError readError : Option JsString) (state : AnthropicState) (aborted : Bool) : Option JsString :=
  if eventError.isSome then eventError
  else if readError.isSome then readError
  else if state.sawMessageStart && !state.sawMessageEnd then some (js "Anthropic stream ended before message_stop")
  else if aborted then some (js "Request was aborted")
  else if state.stream.output.stopReason = .aborted ∨ state.stream.output.stopReason = .error then
    some (js "An unknown error occurred")
  else none

/-- The events that `streamAnthropic` pushes once it has a response: its body, or none. `aborted` is the signal when
the loop over the events has ended. -/
def streamAnthropic (env : StreamEnvironment) (response : Option ResponseBody) (aborted : Bool) : List AnthropicEvent :=
  match response with
  | none => [.start, failureEvent aborted (js "Attempted to iterate over an Anthropic response with no body") {}]
  | some body =>
    let (events, readError) := iterateSseMessages body.chunks body.bodyEnd
    let (eventError, state) := receiveEvents env {} events
    let output := state.stream.output
    state.stream.pushed ++ [match answerError eventError readError state aborted with
      | some error => failureEvent aborted error output
      | none => .done output.stopReason output]

end Events

end PieAgent.Model.Providers
