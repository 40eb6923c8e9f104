import PieAgent.Model.Compaction.Summarizer
import PieAgent.Model.Session.JsonlStorage

/-! # The compaction module of the coding agent

The coding agent keeps its own copy of the compaction functions. It estimates tokens by length,
shortens tool results in the serialized conversation, sends every request once, and treats an
aborted answer like a finished one.
-/

namespace PieAgent.Model.CodingAgent

open JavaScript

/-- `Math.ceil(chars / 4)`. -/
def charTokens (chars : ℕ) : ℕ := (chars + 3) / 4

/-- The length of the text blocks of a content list. -/
def textChars (content : List UserBlock) : ℕ :=
  (content.map fun
    | .text block => block.text.length
    | .image _ => 0).sum

/-- The length of the text blocks of a content list, an image counting as 4800 characters. -/
def contentChars (content : List UserBlock) : ℕ :=
  (content.map fun
    | .text block => block.text.length
    | .image _ => 4800).sum

def assistantChars : AssistantBlock → ℕ
  | .text block => block.text.length
  | .thinking block => block.thinking.length
  | .toolCall call => call.name.length + (ofText (stringify call.arguments)).length

def estimateTokens : AgentMessage → ℕ
  | .user message =>
    match message.content with
    | .plain text => charTokens text.length
    | .blocks content => charTokens (textChars content)
  | .assistant message => charTokens (message.content.map assistantChars).sum
  | .custom message =>
    match message.content with
    | .plain text => charTokens text.length
    | .blocks content => charTokens (contentChars content)
  | .toolResult message => charTokens (contentChars message.content)
  | .bashExecution message => charTokens (message.command.length + message.output.length)
  | .branchSummary message => charTokens message.summary.length
  | .compactionSummary message => charTokens message.summary.length

/-- The usage of an answer that did not fail. -/
def getAssistantUsage : AgentMessage → Option Usage
  | .assistant message =>
    if message.stopReason = .aborted || message.stopReason = .error then none else some message.usage
  | _ => none

/-- `byId.get`: a later entry with the same id replaces an earlier one. -/
def entryById? (entries : List SessionTreeEntry) (id : JsString) : Option SessionTreeEntry :=
  entries.reverse.find? fun entry => entry.id == id

/-- Walk from an entry to the root, adding each entry in front of the path. A branch has no cycle, so
as many steps as it has entries suffice. -/
def walkToRoot (entries : List SessionTreeEntry) :
    ℕ → SessionTreeEntry → List SessionTreeEntry → List SessionTreeEntry
  | 0, _, path => path
  | steps + 1, current, path =>
    match (truthy? current.parentId).bind (entryById? entries) with
    | none => current :: path
    | some parent => walkToRoot entries steps parent (current :: path)

/-- `buildSessionContext` without an explicit leaf: the context of the path to the last entry. -/
def buildSessionContext (entries : List SessionTreeEntry) : SessionContext :=
  match entries.getLast? with
  | none => { messages := [], thinkingLevel := js "off", model := none }
  | some leaf => Model.buildSessionContext (walkToRoot entries entries.length leaf [])

def prepareCompaction (pathEntries : List SessionTreeEntry) (settings : CompactionSettings) : PrepareResult :=
  if endsWithCompaction pathEntries then .notApplicable
  else
    let tokensBefore := contextTokens estimateTokens getAssistantUsage (buildSessionContext pathEntries).messages
    prepareBranch estimateTokens tokensBefore pathEntries settings

def toolResultMaxChars : ℕ := 2000

def truncateForSummary (text : JsString) (maxChars : ℕ) : JsString :=
  if text.length ≤ maxChars then text
  else
    text.take maxChars ++ js "\n\n[... " ++ digits (text.length - maxChars) ++ js " more characters truncated]"

/-- The text blocks of a content list, concatenated. -/
def textBlocks (content : List UserBlock) : JsString :=
  content.flatMap fun
    | .text block => block.text
    | .image _ => []

/-- `key=value` for every argument of a call. -/
def serializeArguments : Json → JsString
  | .obj members => join (js ", ") (members.map fun (key, value) => key ++ js "=" ++ ofText (stringify value))
  | _ => []

/-- A labelled part, left out when there is nothing to show. -/
def labelledPart (label : JsString) (separator : JsString) (texts : List JsString) : List JsString :=
  if texts.isEmpty then [] else [label ++ join separator texts]

def serializeMessage : Message → List JsString
  | .user message =>
    let content := match message.content with
      | .plain text => text
      | .blocks content => textBlocks content
    if content.isEmpty then [] else [js "[User]: " ++ content]
  | .assistant message =>
    labelledPart (js "[Assistant thinking]: ") (js "\n") (message.content.filterMap fun
      | .thinking block => some block.thinking
      | _ => none) ++
    labelledPart (js "[Assistant]: ") (js "\n") (message.content.filterMap fun
      | .text block => some block.text
      | _ => none) ++
    labelledPart (js "[Assistant tool calls]: ") (js "; ")
      (message.toolCalls.map fun call => call.name ++ js "(" ++ serializeArguments call.arguments ++ js ")")
  | .toolResult message =>
    let content := textBlocks message.content
    if content.isEmpty then [] else [js "[Tool result]: " ++ truncateForSummary content toolResultMaxChars]

def serializeConversation (messages : List Message) : JsString :=
  join (js "\n\n") (messages.flatMap serializeMessage)

/-- Send a request once; only an answer that reports an error fails the call. -/
def completeSummary (summarizer : Summarizer) (call : SummaryCall) (failedText : JsString)
    (request : SummaryRequest) : Except CompactionFailure AcceptedSummary :=
  match summarizer.respond call 0 request with
  | .error reason => .error (.rejected reason)
  | .ok response =>
    if response.stopReason = .error then
      .error (.rejected (failedText ++ orElse response.errorMessage (js "Unknown error")))
    else .ok { request, text := responseText response }

def generateSummary (summarizer : Summarizer) (reserveTokens : ℤ) (currentMessages : List AgentMessage)
    (previousSummary : Option JsString) : Except CompactionFailure AcceptedSummary :=
  completeSummary summarizer .history (js "Summarization failed: ")
    { systemPrompt := summarizationSystemPrompt
      promptText :=
        summarizer.historyPrompt (serializeConversation (convertToLlm currentMessages)) previousSummary
      maxTokens := summarizer.model.capTokens (reserveTokens * 4 / 5)
      reasoning := summarizer.reasoning }

def generateTurnPrefixSummary (summarizer : Summarizer) (reserveTokens : ℤ) (messages : List AgentMessage) :
    Except CompactionFailure AcceptedSummary :=
  completeSummary summarizer .turnPrefix (js "Turn prefix summarization failed: ")
    { systemPrompt := summarizationSystemPrompt
      promptText := turnPrefixPrompt (serializeConversation (convertToLlm messages))
      maxTokens := summarizer.model.capTokens (reserveTokens / 2)
      reasoning := summarizer.reasoning }

/-- `compact` of the coding agent, which tests the id of the first kept entry only after the calls. -/
def compact (summarizer : Summarizer) (preparation : CompactionPreparation) : Except CompactionFailure Compacted := do
  let compacted ← compactWith (generateSummary summarizer preparation.settings.reserveTokens)
    (generateTurnPrefixSummary summarizer preparation.settings.reserveTokens) preparation
  if preparation.firstKeptEntryId.isEmpty && !compacted.requests.isEmpty then
    .error (.rejected (js "First kept entry has no UUID - session may need migration"))
  else .ok compacted

end PieAgent.Model.CodingAgent

/-! ## Collecting the entries of a branch that is left

Before a session moves to another entry, the entries that only the old leaf leads over are collected for a
summary. The last loop follows the parent ids up to the common ancestor; a round adds an entry or ends it.
-/

namespace PieAgent.Model

open JavaScript

/-- The entries selected for a branch summary, in chronological order. -/
structure CollectEntriesResult where
  entries : List StoredEntry
  commonAncestorId : Option JsString
deriving DecidableEq

namespace JsonlSessionStorage

variable (storage : JsonlSessionStorage)

/-- `Session.getBranch` from an entry. -/
def getBranch (fromId : JsString) : Except SessionError (List StoredEntry) := storage.getPathToRoot (some fromId)

/-- The last entry of the target path that is on the old path. -/
def findCommonAncestor (oldPath targetPath : List StoredEntry) : Option JsString :=
  (targetPath.reverse.find? fun entry => entry.id ∈ oldPath.map StoredEntry.id).map StoredEntry.id

/-- The loop from the old leaf up. The collected entries are in the order of `push`. -/
def collectUpTo (commonAncestorId : Option JsString) :
    ℕ → List StoredEntry → Option JsString → Except SessionError (List StoredEntry)
  | 0, entries, _ | _ + 1, entries, none | _ + 1, entries, some [] => .ok entries
  | rounds + 1, entries, some (unit :: rest) =>
    if some (unit :: rest) = commonAncestorId then .ok entries
    else match storage.getEntry (unit :: rest) with
      | none => .error ⟨.invalidSession, js "Entry " ++ (unit :: rest) ++ js " not found"⟩
      | some entry => collectUpTo commonAncestorId rounds (entries ++ [entry]) entry.parentId

/-- `collectEntriesForBranchSummary`. The rounds bound the loop. -/
def collectEntriesForBranchSummary (rounds : ℕ) (oldLeafId : Option JsString) (targetId : JsString) :
    Except SessionError CollectEntriesResult :=
  match oldLeafId with
  | none | some [] => .ok ⟨[], none⟩
  | some oldLeafId => do
    let oldPath ← storage.getBranch oldLeafId
    let targetPath ← storage.getBranch targetId
    let commonAncestorId := findCommonAncestor oldPath targetPath
    let entries ← storage.collectUpTo commonAncestorId rounds [] (some oldLeafId)
    .ok ⟨entries.reverse, commonAncestorId⟩

end JsonlSessionStorage

end PieAgent.Model
