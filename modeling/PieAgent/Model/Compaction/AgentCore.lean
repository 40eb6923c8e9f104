import PieAgent.Model.Compaction.Summarizer

/-! # The compaction module of the agent core

Tokens are estimated by character class. The serialized conversation is trimmed to a token budget
before it is sent, and a request that overflows the context of the model is retried with the newer
half of the messages.
-/

namespace PieAgent.Model.AgentCore

open JavaScript

def estimateTextTokens (text : JsString) : ℕ :=
  let ascii := (characters text).countP fun ch => codePoint ch < 128
  (ascii + 3) / 4 + ((characters text).length - ascii)

def imageTokens : ℕ := 768

def estimateBlockTokens : UserBlock → ℕ
  | .text block => estimateTextTokens block.text
  | .image _ => imageTokens

def estimateContentTokens : UserContent → ℕ
  | .plain text => estimateTextTokens text
  | .blocks content => (content.map estimateBlockTokens).sum

def estimateAssistantTokens : AssistantBlock → ℕ
  | .text block => estimateTextTokens block.text
  | .thinking block => estimateTextTokens block.thinking
  | .toolCall call => estimateTextTokens call.name + estimateTextTokens (ofText (stringify call.arguments))

def estimateTokens : AgentMessage → ℕ
  | .user message => estimateContentTokens message.content
  | .assistant message => (message.content.map estimateAssistantTokens).sum
  | .custom message => estimateContentTokens message.content
  | .toolResult message => (message.content.map estimateBlockTokens).sum
  | .bashExecution message => estimateTextTokens message.command + estimateTextTokens message.output
  | .branchSummary message => estimateTextTokens message.summary
  | .compactionSummary message => estimateTextTokens message.summary

/-- The usage of an answer that neither failed nor reports zero throughout. -/
def getAssistantUsage : AgentMessage → Option Usage
  | .assistant message =>
    if message.stopReason = .aborted || message.stopReason = .error then none
    else if message.usage = ⟨0, 0, 0, 0, 0⟩ then none
    else some message.usage
  | _ => none

/-- `prepareCompaction` over any token estimate. -/
def prepareCompactionWith (estimateTokens : AgentMessage → ℕ) (pathEntries : List SessionTreeEntry)
    (settings : CompactionSettings) : PrepareResult :=
  if pathEntries.isEmpty || endsWithCompaction pathEntries then .notApplicable
  else
    let tokensBefore := contextTokens estimateTokens getAssistantUsage (buildSessionContext pathEntries).messages
    prepareBranch estimateTokens tokensBefore pathEntries settings

def prepareCompaction : List SessionTreeEntry → CompactionSettings → PrepareResult :=
  prepareCompactionWith estimateTokens

def serializeUserBlock : UserBlock → JsString
  | .text block => block.text
  | .image _ => js "<image>"

def serializeAssistantBlock : AssistantBlock → JsString
  | .text block => block.text
  | .thinking block => js "<thinking>" ++ block.thinking ++ js "</thinking>"
  | .toolCall call =>
    js "<tool_call name=\"" ++ call.name ++ js "\">" ++ ofText (stringify call.arguments) ++ js "</tool_call>"

/-- The text blocks of a content list, concatenated. -/
def textBlocks (content : List UserBlock) : JsString :=
  content.flatMap fun
    | .text block => block.text
    | .image _ => []

def serializeMessage : Message → JsString
  | .user message =>
    js "USER:\n" ++
      (match message.content with
        | .plain text => text
        | .blocks content => content.flatMap serializeUserBlock) ++
      js "\n\n"
  | .assistant message => js "ASSISTANT:\n" ++ message.content.flatMap serializeAssistantBlock ++ js "\n\n"
  | .toolResult message =>
    js "TOOL_RESULT[" ++ message.toolName ++ js "]:\n" ++ textBlocks message.content ++ js "\n\n"

def serializeConversation (messages : List Message) : JsString := messages.flatMap serializeMessage

def defaultReserveTokens : ℤ := 16384

def maxSummaryOverflowRetries : ℕ := 3

def summaryOutputTokens (model : SummaryModel) (reserveTokens : ℤ) : ℤ :=
  let reserve := if 0 < reserveTokens then reserveTokens else defaultReserveTokens
  let output := model.capTokens reserve
  if 0 < model.contextWindow then max (min output (model.contextWindow / 4)) 1 else output

def defaultSummaryPromptTokenBudget : ℤ := 64000

def summaryPromptFramingTokens : ℕ := 512

def summaryPromptOverheadTokens (customInstructions : Option JsString) : ℕ :=
  summaryPromptFramingTokens + estimateTextTokens summarizationSystemPrompt +
    match truthy? customInstructions with
    | some instructions => estimateTextTokens instructions
    | none => 0

def summarizePromptEstimateTokens (messages : List AgentMessage) (customInstructions : Option JsString) : ℕ :=
  summaryPromptOverheadTokens customInstructions + (messages.map estimateTokens).sum

def summarizationPromptBudget (model : SummaryModel) (reserveTokens : ℤ) : ℤ :=
  if model.contextWindow = 0 then defaultSummaryPromptTokenBudget
  else max 0 (model.contextWindow - summaryOutputTokens model reserveTokens) * 4 / 5

/-- Collect messages from the newest backwards until the budget is used up; the result is oldest first. -/
def collectNewest (budgetTokens : ℤ) : List AgentMessage → List AgentMessage → ℕ → List AgentMessage
  | [], kept, _ => kept
  | message :: older, kept, total =>
    let messageTokens := estimateTokens message
    if !kept.isEmpty && budgetTokens < (total + messageTokens : ℕ) then kept
    else if budgetTokens ≤ (total + messageTokens : ℕ) then message :: kept
    else collectNewest budgetTokens older (message :: kept) (total + messageTokens)

/-- The note that replaces messages left out of a prompt. -/
def omissionNote (now : ℤ) (omitted : ℕ) (reason : JsString) : AgentMessage :=
  .user ⟨.plain (js "[compaction note: omitted " ++ digits omitted ++
    js " older message(s) before summarization because " ++ reason ++ js "]"), .millis now⟩

def trimMessagesForSummaryBudget (now : ℤ) (messages : List AgentMessage) (budgetTokens : ℤ)
    (customInstructions : Option JsString) : List AgentMessage :=
  if (summarizePromptEstimateTokens messages customInstructions : ℤ) ≤ budgetTokens then messages
  else
    let kept := collectNewest budgetTokens messages.reverse [] (summaryPromptOverheadTokens customInstructions)
    let omitted := messages.length - kept.length
    if omitted = 0 then kept
    else omissionNote now omitted (js "the session exceeded the summarizer prompt budget") :: kept

/-- How many characters, taken from the end, fit the budget. The list is the text backwards. -/
def suffixLengthForTokenBudget (budgetTokens : ℤ) : List JsString → ℕ → ℕ → ℕ
  | [], _, _ => 0
  | ch :: earlier, ascii, nonAscii =>
    let nextAscii := if codePoint ch < 128 then ascii + 1 else ascii
    let nextNonAscii := if codePoint ch < 128 then nonAscii else nonAscii + 1
    if budgetTokens < ((nextAscii + 3) / 4 + nextNonAscii : ℕ) then 0
    else suffixLengthForTokenBudget budgetTokens earlier nextAscii nextNonAscii + 1

def suffixStartForTokenBudget (chars : List JsString) (budgetTokens : ℤ) : ℕ :=
  chars.length - suffixLengthForTokenBudget budgetTokens chars.reverse 0 0

def serializedContentNote : JsString :=
  js ("[compaction note: omitted older serialized content before summarization because the session exceeded " ++
    "the summarizer prompt budget]\n\n")

def serializeConversationForSummaryBudget (now : ℤ) (messages : List AgentMessage) (budgetTokens : ℤ)
    (customInstructions : Option JsString) : JsString :=
  let trimmed := trimMessagesForSummaryBudget now messages budgetTokens customInstructions
  let conversation := serializeConversation (convertToLlm trimmed)
  let availableTokens := max 0 (budgetTokens - summaryPromptOverheadTokens customInstructions)
  if (estimateTextTokens conversation : ℤ) ≤ availableTokens then conversation
  else
    let noteTokens := estimateTextTokens serializedContentNote
    if availableTokens ≤ noteTokens then
      ((characters serializedContentNote).take (availableTokens * 4).toNat).flatten
    else
      let chars := characters conversation
      serializedContentNote ++
        (chars.drop (suffixStartForTokenBudget chars (availableTokens - noteTokens))).flatten

/-- `shrinkMessagesForOverflowRetry`: the newer half, and the number of messages dropped. -/
def shrinkMessagesForOverflowRetry (messages : List AgentMessage) : List AgentMessage × ℕ :=
  let keep := max 1 ((messages.length + 1) / 2)
  (messages.drop (messages.length - keep), messages.length - keep)

/-- The messages of an attempt, headed by a note when earlier attempts dropped some. -/
def promptMessages (summarizer : Summarizer) (coreMessages : List AgentMessage) (omittedCount : ℕ) :
    List AgentMessage :=
  if omittedCount = 0 then coreMessages
  else omissionNote summarizer.now omittedCount (js "the summarizer prompt was too large for the model") :: coreMessages

/-- What tells the two retry loops of the module apart. -/
structure SummaryKind where
  call : SummaryCall
  request : List AgentMessage → SummaryRequest
  abortedText : JsString
  failedText : JsString

/-- The retry loop of a summary call, with `retries` overflow retries left. -/
def summaryLoop (summarizer : Summarizer) (kind : SummaryKind) :
    ℕ → List AgentMessage → ℕ → Except CompactionFailure AcceptedSummary
  | retries, coreMessages, omittedCount =>
    let request := kind.request (promptMessages summarizer coreMessages omittedCount)
    match summarizer.respond kind.call (maxSummaryOverflowRetries - retries) request with
    | .error reason => .error (.rejected reason)
    | .ok response =>
      match response.stopReason with
      | .aborted => .error (.aborted (orElse response.errorMessage kind.abortedText))
      | .error =>
        let failure : CompactionFailure :=
          .summarizationFailed (kind.failedText ++ orElse response.errorMessage (js "Unknown error"))
        match retries with
        | 0 => .error failure
        | retries + 1 =>
          if 1 < coreMessages.length && summarizer.isContextOverflow response summarizer.model.window then
            let (kept, omitted) := shrinkMessagesForOverflowRetry coreMessages
            summaryLoop summarizer kind retries kept (omittedCount + omitted)
          else .error failure
      | _ => .ok { request, text := responseText response }

def generateSummary (summarizer : Summarizer) (reserveTokens : ℤ) (currentMessages : List AgentMessage)
    (previousSummary : Option JsString) : Except CompactionFailure AcceptedSummary :=
  let request (messages : List AgentMessage) : SummaryRequest :=
    let conversationText := serializeConversationForSummaryBudget summarizer.now messages
      (summarizationPromptBudget summarizer.model reserveTokens) summarizer.customInstructions
    { systemPrompt := summarizationSystemPrompt
      promptText := summarizer.historyPrompt conversationText previousSummary
      maxTokens := summaryOutputTokens summarizer.model reserveTokens
      reasoning := summarizer.reasoning }
  summaryLoop summarizer
    { call := .history, request, abortedText := js "Summarization aborted", failedText := js "Summarization failed: " }
    maxSummaryOverflowRetries currentMessages 0

def generateTurnPrefixSummary (summarizer : Summarizer) (reserveTokens : ℤ) (messages : List AgentMessage) :
    Except CompactionFailure AcceptedSummary :=
  let request (messages : List AgentMessage) : SummaryRequest :=
    { systemPrompt := summarizationSystemPrompt
      promptText := turnPrefixPrompt (serializeConversation (convertToLlm messages))
      maxTokens := summarizer.model.capTokens (reserveTokens / 2)
      reasoning := summarizer.reasoning }
  summaryLoop summarizer
    { call := .turnPrefix, request, abortedText := js "Turn prefix summarization aborted"
      failedText := js "Turn prefix summarization failed: " }
    maxSummaryOverflowRetries messages 0

/-- `compact` of the agent core. -/
def compact (summarizer : Summarizer) (preparation : CompactionPreparation) : Except CompactionFailure Compacted :=
  if preparation.firstKeptEntryId.isEmpty then
    .error (.invalidSession (js "First kept entry has no UUID - session may need migration"))
  else
    compactWith (generateSummary summarizer preparation.settings.reserveTokens)
      (generateTurnPrefixSummary summarizer preparation.settings.reserveTokens) preparation

/-- A history summary. -/
def historyKind (summarizer : Summarizer) (reserveTokens : ℤ) (previousSummary : Option JsString) : SummaryKind where
  call := .history
  request messages :=
    let conversationText := serializeConversationForSummaryBudget summarizer.now messages
      (summarizationPromptBudget summarizer.model reserveTokens) summarizer.customInstructions
    { systemPrompt := summarizationSystemPrompt
      promptText := summarizer.historyPrompt conversationText previousSummary
      maxTokens := summaryOutputTokens summarizer.model reserveTokens
      reasoning := summarizer.reasoning }
  abortedText := js "Summarization aborted"
  failedText := js "Summarization failed: "

/-- A turn-prefix summary. -/
def turnPrefixKind (summarizer : Summarizer) (reserveTokens : ℤ) : SummaryKind where
  call := .turnPrefix
  request messages :=
    { systemPrompt := summarizationSystemPrompt
      promptText := turnPrefixPrompt (serializeConversation (convertToLlm messages))
      maxTokens := summarizer.model.capTokens (reserveTokens / 2)
      reasoning := summarizer.reasoning }
  abortedText := js "Turn prefix summarization aborted"
  failedText := js "Turn prefix summarization failed: "

/-- An answer that makes the retry loop try again with fewer messages. -/
def overflows (summarizer : Summarizer) : Except JsString AssistantMessage → Bool
  | .error _ => false
  | .ok response =>
    response.stopReason = .error && summarizer.isContextOverflow response summarizer.model.window

/-- The requests that the retry loop sends, in order. -/
def sentRequests (summarizer : Summarizer) (kind : SummaryKind) : ℕ → List AgentMessage → ℕ → List SummaryRequest
  | retries, coreMessages, omittedCount =>
    let request := kind.request (promptMessages summarizer coreMessages omittedCount)
    request :: match retries with
      | 0 => []
      | retries + 1 =>
        if overflows summarizer (summarizer.respond kind.call (maxSummaryOverflowRetries - (retries + 1)) request) &&
            decide (1 < coreMessages.length) then
          let (kept, omitted) := shrinkMessagesForOverflowRetry coreMessages
          sentRequests summarizer kind retries kept (omittedCount + omitted)
        else []

/-- The requests that `compact` sends. -/
def compactRequests (summarizer : Summarizer) (preparation : CompactionPreparation) : List SummaryRequest :=
  let history := sentRequests summarizer
    (historyKind summarizer preparation.settings.reserveTokens preparation.previousSummary)
    maxSummaryOverflowRetries preparation.messagesToSummarize 0
  let turnPrefix := sentRequests summarizer (turnPrefixKind summarizer preparation.settings.reserveTokens)
    maxSummaryOverflowRetries preparation.turnPrefixMessages 0
  if preparation.firstKeptEntryId.isEmpty then []
  else if preparation.messagesToSummarize.isEmpty && preparation.turnPrefixMessages.isEmpty then []
  else if preparation.isSplitTurn && !preparation.turnPrefixMessages.isEmpty then
    if preparation.messagesToSummarize.isEmpty then turnPrefix else history ++ turnPrefix
  else history

end PieAgent.Model.AgentCore
