import PieAgent.Model.Compaction.Preparation

/-! # Asking a model for a summary

What both compaction modules send to the summarizer and what they make of its answers. A request
wraps the serialized conversation in tags, appends the previous summary when there is one, and ends
with the instructions. The summarizer is a parameter: for each of the two calls a compaction may
make, and for each attempt, it answers with an assistant message or throws.
-/

namespace PieAgent.Model

open JavaScript

/-- `SUMMARIZATION_SYSTEM_PROMPT`. -/
def summarizationSystemPrompt : JsString :=
  jsLines [
    "You are a context summarization assistant. Your task is to read a conversation between a user and an AI coding assistant, then produce a structured summary following the exact format specified.",
    "",
    "Do NOT continue the conversation. Do NOT respond to any questions in the conversation. ONLY output the structured summary."]

/-- `SUMMARIZATION_PROMPT`. -/
def summarizationPrompt : JsString :=
  jsLines [
    "The messages above are a conversation to summarize. Create a structured context checkpoint summary that another LLM will use to continue the work.",
    "",
    "Use this EXACT format:",
    "",
    "## Goal",
    "[What is the user trying to accomplish? Can be multiple items if the session covers different tasks.]",
    "",
    "## Constraints & Preferences",
    "- [Any constraints, preferences, or requirements mentioned by user]",
    "- [Or \"(none)\" if none were mentioned]",
    "",
    "## Progress",
    "### Done",
    "- [x] [Completed tasks/changes]",
    "",
    "### In Progress",
    "- [ ] [Current work]",
    "",
    "### Blocked",
    "- [Issues preventing progress, if any]",
    "",
    "## Key Decisions",
    "- **[Decision]**: [Brief rationale]",
    "",
    "## Next Steps",
    "1. [Ordered list of what should happen next]",
    "",
    "## Critical Context",
    "- [Any data, examples, or references needed to continue]",
    "- [Or \"(none)\" if not applicable]",
    "",
    "Keep each section concise. Preserve exact file paths, function names, and error messages."]

/-- `UPDATE_SUMMARIZATION_PROMPT`. -/
def updateSummarizationPrompt : JsString :=
  jsLines [
    "The messages above are NEW conversation messages to incorporate into the existing summary provided in <previous-summary> tags.",
    "",
    "Update the existing structured summary with new information. RULES:",
    "- PRESERVE all existing information from the previous summary",
    "- ADD new progress, decisions, and context from the new messages",
    "- UPDATE the Progress section: move items from \"In Progress\" to \"Done\" when completed",
    "- UPDATE \"Next Steps\" based on what was accomplished",
    "- PRESERVE exact file paths, function names, and error messages",
    "- If something is no longer relevant, you may remove it",
    "",
    "Use this EXACT format:",
    "",
    "## Goal",
    "[Preserve existing goals, add new ones if the task expanded]",
    "",
    "## Constraints & Preferences",
    "- [Preserve existing, add new ones discovered]",
    "",
    "## Progress",
    "### Done",
    "- [x] [Include previously done items AND newly completed items]",
    "",
    "### In Progress",
    "- [ ] [Current work - update based on progress]",
    "",
    "### Blocked",
    "- [Current blockers - remove if resolved]",
    "",
    "## Key Decisions",
    "- **[Decision]**: [Brief rationale] (preserve all previous, add new)",
    "",
    "## Next Steps",
    "1. [Update based on current state]",
    "",
    "## Critical Context",
    "- [Preserve important context, add new if needed]",
    "",
    "Keep each section concise. Preserve exact file paths, function names, and error messages."]

/-- `TURN_PREFIX_SUMMARIZATION_PROMPT`. -/
def turnPrefixSummarizationPrompt : JsString :=
  jsLines [
    "This is the PREFIX of a turn that was too large to keep. The SUFFIX (recent work) is retained.",
    "",
    "Summarize the prefix to provide context for the retained suffix:",
    "",
    "## Original Request",
    "[What did the user ask for in this turn?]",
    "",
    "## Early Progress",
    "- [Key decisions and work done in the prefix]",
    "",
    "## Context for Suffix",
    "- [Information needed to understand the retained recent work]",
    "",
    "Be concise. Focus on what's needed to understand the kept suffix."]

/-- The test `if (text)` on an optional string. -/
def truthy? : Option JsString → Option JsString
  | some (unit :: rest) => some (unit :: rest)
  | _ => none

inductive ThinkingLevel where
  | off | minimal | low | medium | high | xhigh
deriving DecidableEq

/-- The fields of a model that compaction reads. -/
structure SummaryModel where
  maxTokens : ℤ
  contextWindow : ℤ
  reasoning : Bool

/-- The window handed to the overflow test, absent when the model reports none. -/
def SummaryModel.window (model : SummaryModel) : Option ℤ :=
  if 0 < model.contextWindow then some model.contextWindow else none

structure SummaryRequest where
  systemPrompt : JsString
  promptText : JsString
  maxTokens : ℤ
  reasoning : Option ThinkingLevel

/-- The two calls to the summarizer that one compaction can make. -/
inductive SummaryCall where
  | history
  | turnPrefix

/-- The arguments of `compact` besides the preparation, and the world they act in. -/
structure Summarizer where
  model : SummaryModel
  thinkingLevel : Option ThinkingLevel
  customInstructions : Option JsString
  now : ℤ
  isContextOverflow : AssistantMessage → Option ℤ → Bool
  /-- The answer to an attempt of a call, or the reason the stream function rejects with. -/
  respond : SummaryCall → ℕ → SummaryRequest → Except JsString AssistantMessage

/-- Why no summary came out: a compaction error with its code, or a rejection. -/
inductive CompactionFailure where
  | aborted (message : JsString)
  | summarizationFailed (message : JsString)
  | invalidSession (message : JsString)
  | rejected (reason : JsString)

/-- A summary text together with the request it answers. -/
structure AcceptedSummary where
  request : SummaryRequest
  text : JsString

/-- The text blocks of an answer, one per line. -/
def responseText (response : AssistantMessage) : JsString :=
  join (js "\n") (response.content.filterMap fun
    | .text block => some block.text
    | _ => none)

/-- The reasoning option of a request. -/
def Summarizer.reasoning (summarizer : Summarizer) : Option ThinkingLevel :=
  if summarizer.model.reasoning then summarizer.thinkingLevel.filter (· ≠ .off) else none

/-- `Math.min(cap, model.maxTokens > 0 ? model.maxTokens : Infinity)`. -/
def SummaryModel.capTokens (model : SummaryModel) (cap : ℤ) : ℤ :=
  if 0 < model.maxTokens then min cap model.maxTokens else cap

/-- The instructions of a history summary. -/
def Summarizer.basePrompt (summarizer : Summarizer) (previousSummary : Option JsString) : JsString :=
  let prompt :=
    if (truthy? previousSummary).isSome then updateSummarizationPrompt else summarizationPrompt
  match truthy? summarizer.customInstructions with
  | some instructions => prompt ++ js "\n\nAdditional focus: " ++ instructions
  | none => prompt

/-- The conversation between its tags. -/
def conversationSection (conversationText : JsString) : JsString :=
  js "<conversation>\n" ++ conversationText ++ js "\n</conversation>\n\n"

/-- The previous summary between its tags. -/
def previousSummarySection (previousSummary : JsString) : JsString :=
  js "<previous-summary>\n" ++ previousSummary ++ js "\n</previous-summary>\n\n"

/-- The prompt of a history summary. -/
def Summarizer.historyPrompt (summarizer : Summarizer) (conversationText : JsString)
    (previousSummary : Option JsString) : JsString :=
  conversationSection conversationText ++
    (match truthy? previousSummary with
      | some summary => previousSummarySection summary
      | none => []) ++
    summarizer.basePrompt previousSummary

/-- The prompt of a turn-prefix summary. -/
def turnPrefixPrompt (conversationText : JsString) : JsString :=
  conversationSection conversationText ++ turnPrefixSummarizationPrompt

structure CompactionResult where
  summary : JsString
  firstKeptEntryId : JsString
  tokensBefore : ℕ
  details : CompactionDetails

/-- A finished compaction and the requests whose answers make up its summary. -/
structure Compacted where
  result : CompactionResult
  requests : List SummaryRequest

/-- The summary of a split turn. -/
def splitTurnSummary (historyText turnPrefixText : JsString) : JsString :=
  historyText ++ js "\n\n---\n\n**Turn Context (split turn):**\n\n" ++ turnPrefixText

/-- The file operations of a preparation, sorted into lists. -/
def CompactionPreparation.details (preparation : CompactionPreparation) : CompactionDetails :=
  computeFileLists preparation.fileOps

/-- The result of `compact` for a summary text. -/
def CompactionPreparation.finish (preparation : CompactionPreparation) (summary : JsString)
    (requests : List SummaryRequest) : Compacted :=
  { result :=
      { summary, firstKeptEntryId := preparation.firstKeptEntryId
        tokensBefore := preparation.tokensBefore, details := preparation.details }
    requests }

/-- The body of `compact`, over the two summary functions of the module it stands in. -/
def compactWith (generateSummary : List AgentMessage → Option JsString → Except CompactionFailure AcceptedSummary)
    (generateTurnPrefixSummary : List AgentMessage → Except CompactionFailure AcceptedSummary)
    (preparation : CompactionPreparation) : Except CompactionFailure Compacted :=
  if preparation.messagesToSummarize.isEmpty && preparation.turnPrefixMessages.isEmpty then
    .ok (preparation.finish [] [])
  else if preparation.isSplitTurn && !preparation.turnPrefixMessages.isEmpty then
    if preparation.messagesToSummarize.isEmpty then do
      let turnPrefix ← generateTurnPrefixSummary preparation.turnPrefixMessages
      let summary := splitTurnSummary (js "No prior history.") turnPrefix.text
      .ok (preparation.finish (summary ++ formatFileOperations preparation.details) [turnPrefix.request])
    else do
      let history ← generateSummary preparation.messagesToSummarize preparation.previousSummary
      let turnPrefix ← generateTurnPrefixSummary preparation.turnPrefixMessages
      let summary := splitTurnSummary history.text turnPrefix.text
      .ok (preparation.finish (summary ++ formatFileOperations preparation.details)
        [history.request, turnPrefix.request])
  else do
    let history ← generateSummary preparation.messagesToSummarize preparation.previousSummary
    .ok (preparation.finish (history.text ++ formatFileOperations preparation.details) [history.request])

end PieAgent.Model
