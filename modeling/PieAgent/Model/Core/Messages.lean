import PieAgent.JavaScript.Core.Json

/-! # Messages and session entries

The conversation data shared by the agent loop, the session tree, compaction and the providers.
Token costs and provider diagnostics are left out: no modelled function reads them. A message
built from an entry carries `new Date(entry.timestamp).getTime()`, kept here as `Timestamp.parsed`.
-/

namespace PieAgent.Model

open JavaScript

/-- A message time: milliseconds, or the parsed date text of a session entry. -/
inductive Timestamp where
  | millis (time : ℤ)
  | parsed (date : JsString)
deriving DecidableEq

structure TextContent where
  text : JsString
  textSignature : Option JsString := none
deriving DecidableEq

structure ImageContent where
  data : JsString
  mimeType : JsString
deriving DecidableEq

structure ThinkingContent where
  thinking : JsString
  thinkingSignature : Option JsString := none
  redacted : Bool := false
deriving DecidableEq

structure ToolCall where
  id : JsString
  name : JsString
  arguments : Json
  thoughtSignature : Option JsString := none
deriving DecidableEq

/-- A content block of a user or tool-result message. -/
inductive UserBlock where
  | text (block : TextContent)
  | image (block : ImageContent)
deriving DecidableEq

/-- A content block of an assistant message. -/
inductive AssistantBlock where
  | text (block : TextContent)
  | thinking (block : ThinkingContent)
  | toolCall (call : ToolCall)
deriving DecidableEq

/-- `string | (TextContent | ImageContent)[]`. -/
inductive UserContent where
  | plain (text : JsString)
  | blocks (content : List UserBlock)
deriving DecidableEq

structure Usage where
  input : ℕ
  output : ℕ
  cacheRead : ℕ
  cacheWrite : ℕ
  totalTokens : ℕ
deriving DecidableEq

inductive StopReason where
  | stop | length | toolUse | error | aborted
deriving DecidableEq

structure UserMessage where
  content : UserContent
  timestamp : Timestamp
deriving DecidableEq

structure AssistantMessage where
  content : List AssistantBlock
  api : JsString
  provider : JsString
  model : JsString
  usage : Usage
  stopReason : StopReason
  errorMessage : Option JsString := none
  timestamp : Timestamp
deriving DecidableEq

structure ToolResultMessage where
  toolCallId : JsString
  toolName : JsString
  content : List UserBlock
  details : Option Json := none
  isError : Bool
  timestamp : Timestamp
deriving DecidableEq

/-- The messages a provider understands. -/
inductive Message where
  | user (message : UserMessage)
  | assistant (message : AssistantMessage)
  | toolResult (message : ToolResultMessage)

structure BashExecutionMessage where
  command : JsString
  output : JsString
  exitCode : Option ℤ
  cancelled : Bool
  truncated : Bool
  fullOutputPath : Option JsString := none
  timestamp : Timestamp
  excludeFromContext : Bool := false
deriving DecidableEq

structure CustomMessage where
  customType : JsString
  content : UserContent
  display : Bool
  details : Option Json := none
  timestamp : Timestamp
deriving DecidableEq

structure BranchSummaryMessage where
  summary : JsString
  fromId : JsString
  timestamp : Timestamp
deriving DecidableEq

structure CompactionSummaryMessage where
  summary : JsString
  tokensBefore : ℕ
  timestamp : Timestamp
deriving DecidableEq

/-- The messages an agent keeps in its context. -/
inductive AgentMessage where
  | user (message : UserMessage)
  | assistant (message : AssistantMessage)
  | toolResult (message : ToolResultMessage)
  | bashExecution (message : BashExecutionMessage)
  | custom (message : CustomMessage)
  | branchSummary (message : BranchSummaryMessage)
  | compactionSummary (message : CompactionSummaryMessage)
deriving DecidableEq

/-- The tool calls of an assistant message, in order. -/
def AssistantMessage.toolCalls (message : AssistantMessage) : List ToolCall :=
  message.content.filterMap fun
    | .toolCall call => some call
    | _ => none

/-- The fields of a session entry that depend on its type. -/
inductive EntryBody where
  | message (message : AgentMessage)
  | thinkingLevelChange (thinkingLevel : JsString)
  | modelChange (provider modelId : JsString)
  | compaction (summary firstKeptEntryId : JsString) (tokensBefore : ℕ) (details : Option Json) (fromHook : Bool)
  | branchSummary (fromId summary : JsString) (details : Option Json) (fromHook : Bool)
  | custom (customType : JsString) (data : Option Json)
  | customMessage (customType : JsString) (content : UserContent) (details : Option Json) (display : Bool)
  | label (targetId : JsString) (label : Option JsString)
  | sessionInfo (name : Option JsString)
  | leaf (targetId : Option JsString)
deriving DecidableEq

/-- A node of the session tree. -/
structure SessionTreeEntry where
  id : JsString
  parentId : Option JsString
  timestamp : JsString
  body : EntryBody
deriving DecidableEq

def createBranchSummaryMessage (summary fromId timestamp : JsString) : BranchSummaryMessage :=
  { summary, fromId, timestamp := .parsed timestamp }

def createCompactionSummaryMessage (summary : JsString) (tokensBefore : ℕ) (timestamp : JsString) :
    CompactionSummaryMessage :=
  { summary, tokensBefore, timestamp := .parsed timestamp }

def createCustomMessage (customType : JsString) (content : UserContent) (display : Bool) (details : Option Json)
    (timestamp : JsString) : CustomMessage :=
  { customType, content, display, details, timestamp := .parsed timestamp }

def compactionSummaryPrefix : JsString :=
  js "The conversation history before this point was compacted into the following summary:\n\n<summary>\n"

def compactionSummarySuffix : JsString := js "\n</summary>"

def branchSummaryPrefix : JsString :=
  js "The following is a summary of a branch that this conversation came back from:\n\n<summary>\n"

def branchSummarySuffix : JsString := js "</summary>"

/-- A code unit for the backtick, which the source writes inside template literals. -/
def backtick : JsString := [0x60]

def bashExecutionToText (message : BashExecutionMessage) : JsString :=
  js "Ran " ++ backtick ++ message.command ++ backtick ++ js "\n" ++
    (if message.output.isEmpty then js "(no output)"
      else backtick ++ backtick ++ backtick ++ js "\n" ++ message.output ++ js "\n" ++
        backtick ++ backtick ++ backtick) ++
    (if message.cancelled then js "\n\n(command cancelled)"
      else match message.exitCode with
        | none => []
        | some code => if code = 0 then [] else js "\n\nCommand exited with code " ++ js (toString code)) ++
    (match message.truncated, message.fullOutputPath with
      | true, some (unit :: path) => js "\n\n[Output truncated. Full output: " ++ (unit :: path) ++ js "]"
      | _, _ => [])

/-- The provider message an agent message stands for, if any. -/
def toLlm? : AgentMessage → Option Message
  | .bashExecution message =>
    if message.excludeFromContext then none
    else some (.user ⟨.blocks [.text { text := bashExecutionToText message }], message.timestamp⟩)
  | .custom message =>
    let content := match message.content with
      | .plain text => .blocks [.text { text }]
      | .blocks content => .blocks content
    some (.user ⟨content, message.timestamp⟩)
  | .branchSummary message =>
    some (.user ⟨.blocks [.text { text := branchSummaryPrefix ++ message.summary ++ branchSummarySuffix }],
      message.timestamp⟩)
  | .compactionSummary message =>
    some (.user ⟨.blocks [.text { text := compactionSummaryPrefix ++ message.summary ++ compactionSummarySuffix }],
      message.timestamp⟩)
  | .user message => some (.user message)
  | .assistant message => some (.assistant message)
  | .toolResult message => some (.toolResult message)

/-- `convertToLlm`. -/
def convertToLlm (messages : List AgentMessage) : List Message := messages.filterMap toLlm?

end PieAgent.Model
