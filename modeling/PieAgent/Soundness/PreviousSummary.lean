import PieAgent.Model.Compaction.AgentCore
import PieAgent.Model.Compaction.CodingAgent
import PieAgent.Proofs.Compaction.Preparation

/-! # When the previous summary survives a compaction

A later compaction must hand the summary of an earlier one to the summarizer, otherwise everything
before the earlier compaction is gone. Both compaction modules do so except when the cut falls
inside the first turn after the boundary: then there is no history to summarize, the history call is
replaced by a fixed text, and the previous summary is not sent at all.
-/

/-! ## Which requests make up a new summary

The history request carries the previous summary, the turn-prefix request never does. A compaction
with a nonempty summary makes the history request unless the cut falls inside the first turn after
the previous boundary.
-/

namespace PieAgent.Model

open JavaScript

/-- The summary is empty, or the request presents it to the summarizer as the previous summary. -/
def HandsOver (summarizer : Summarizer) (summary : JsString) (request : SummaryRequest) : Prop :=
  summary = [] ∨ ∃ conversation, request.promptText =
    conversationSection conversation ++ previousSummarySection summary ++ summarizer.basePrompt (some summary)

theorem historyPrompt_handsOver {summarizer : Summarizer} {summary conversation : JsString} {request : SummaryRequest}
    (prompt : request.promptText = summarizer.historyPrompt conversation (some summary)) :
    HandsOver summarizer summary request := by
  cases summary with
  | nil => exact Or.inl rfl
  | cons unit rest => exact Or.inr ⟨conversation, prompt⟩

private theorem jsLines_end {lines : List String} (nonempty : lines ≠ []) (front : String) {last : String}
    (line : lines.getLast nonempty = front ++ last) : ∃ before, jsLines lines = before ++ js last := by
  obtain ⟨before, ending⟩ := jsLines_eq_append nonempty
  rw [line, js_append, ← List.append_assoc] at ending
  exact ⟨_, ending⟩

private theorem updateSummarizationPrompt_end : ∃ before, updateSummarizationPrompt = before ++ js "s." :=
  jsLines_end (List.cons_ne_nil _ _)
    "Keep each section concise. Preserve exact file paths, function names, and error message" (by simp)

private theorem turnPrefixSummarizationPrompt_end : ∃ before, turnPrefixSummarizationPrompt = before ++ js "x." :=
  jsLines_end (List.cons_ne_nil _ _) "Be concise. Focus on what's needed to understand the kept suffi" (by simp)

/-- Without custom instructions no turn-prefix prompt hands over a previous summary. -/
theorem not_handsOver_turnPrefixPrompt {summarizer : Summarizer} (plain : summarizer.customInstructions = none)
    {summary : JsString} (text : summary ≠ []) {conversation : JsString} {request : SummaryRequest}
    (prompt : request.promptText = turnPrefixPrompt conversation) : ¬ HandsOver summarizer summary request := by
  rintro (empty | ⟨other, same⟩)
  · exact text empty
  · obtain ⟨unit, rest, rfl⟩ := List.exists_cons_of_ne_nil text
    have update : summarizer.basePrompt (some (unit :: rest)) = updateSummarizationPrompt := by
      simp [Summarizer.basePrompt, plain, truthy?]
    obtain ⟨before, ending⟩ := turnPrefixSummarizationPrompt_end
    obtain ⟨otherBefore, otherEnding⟩ := updateSummarizationPrompt_end
    rw [prompt, turnPrefixPrompt, update, ending, otherEnding, ← List.append_assoc, ← List.append_assoc] at same
    exact absurd (js_inj.mp (List.append_inj' same (by decide)).2) (by simp)

/-- An accepted summary of the retry loop answers a request built from some of the messages. -/
theorem AgentCore.summaryLoop_request {summarizer : Summarizer} {kind : AgentCore.SummaryKind} {retries : ℕ}
    {coreMessages : List AgentMessage} {omittedCount : ℕ} {accepted : AcceptedSummary}
    (success : AgentCore.summaryLoop summarizer kind retries coreMessages omittedCount = .ok accepted) :
    ∃ messages, accepted.request = kind.request messages := by
  induction retries generalizing coreMessages omittedCount with
  | zero =>
    rw [AgentCore.summaryLoop] at success
    dsimp only at success
    split at success
    · cases success
    · split at success
      · cases success
      · cases success
      · cases success
        exact ⟨_, rfl⟩
  | succ retries ih =>
    rw [AgentCore.summaryLoop] at success
    dsimp only at success
    split at success
    · cases success
    · split at success
      · cases success
      · split at success
        · exact ih success
        · cases success
      · cases success
        exact ⟨_, rfl⟩

theorem AgentCore.generateSummary_handsOver {summarizer : Summarizer} {reserveTokens : ℤ}
    {messages : List AgentMessage} {summary : JsString} {accepted : AcceptedSummary}
    (success : AgentCore.generateSummary summarizer reserveTokens messages (some summary) = .ok accepted) :
    HandsOver summarizer summary accepted.request := by
  obtain ⟨prompted, same⟩ := AgentCore.summaryLoop_request success
  exact historyPrompt_handsOver (by rw [same])

theorem CodingAgent.completeSummary_request {summarizer : Summarizer} {call : SummaryCall} {failedText : JsString}
    {request : SummaryRequest} {accepted : AcceptedSummary}
    (success : CodingAgent.completeSummary summarizer call failedText request = .ok accepted) :
    accepted.request = request := by
  unfold CodingAgent.completeSummary at success
  split at success
  · cases success
  · split at success
    · cases success
    · cases success
      rfl

theorem CodingAgent.generateSummary_handsOver {summarizer : Summarizer} {reserveTokens : ℤ}
    {messages : List AgentMessage} {summary : JsString} {accepted : AcceptedSummary}
    (success : CodingAgent.generateSummary summarizer reserveTokens messages (some summary) = .ok accepted) :
    HandsOver summarizer summary accepted.request := by
  exact historyPrompt_handsOver (by rw [CodingAgent.completeSummary_request success])

private theorem except_bind_ok {ε α β : Type} {first : Except ε α} {next : α → Except ε β} {result : β}
    (success : (first >>= next) = .ok result) : ∃ value, first = .ok value ∧ next value = .ok result := by
  cases first with
  | error failure => cases success
  | ok value => exact ⟨value, rfl, success⟩

section CompactWith

variable {generateSummary : List AgentMessage → Option JsString → Except CompactionFailure AcceptedSummary}
variable {generateTurnPrefixSummary : List AgentMessage → Except CompactionFailure AcceptedSummary}
variable {preparation : CompactionPreparation} {compacted : Compacted}

/-- A split turn with a prefix but without history before it. -/
def CompactionPreparation.onlyTurnPrefix (preparation : CompactionPreparation) : Bool :=
  preparation.isSplitTurn && !preparation.turnPrefixMessages.isEmpty && preparation.messagesToSummarize.isEmpty

/-- The summary is empty, or it rests on the turn prefix alone, or on an answer to the history request. -/
theorem compactWith_cases (success : compactWith generateSummary generateTurnPrefixSummary preparation = .ok compacted) :
    compacted.result.summary = [] ∨
      (preparation.onlyTurnPrefix ∧ ∃ turnPrefix, compacted.requests = [turnPrefix]) ∨
      ∃ accepted, generateSummary preparation.messagesToSummarize preparation.previousSummary = .ok accepted ∧
        accepted.request ∈ compacted.requests := by
  unfold compactWith at success
  split at success
  · cases success
    exact Or.inl rfl
  · split at success
    · next split =>
      split at success
      · next empty =>
        obtain ⟨turnPrefix, _, finished⟩ := except_bind_ok success
        cases finished
        exact Or.inr (Or.inl ⟨by simp [CompactionPreparation.onlyTurnPrefix, split, empty], _, rfl⟩)
      · obtain ⟨accepted, ran, success⟩ := except_bind_ok success
        obtain ⟨turnPrefix, _, finished⟩ := except_bind_ok success
        cases finished
        exact Or.inr (Or.inr ⟨accepted, ran, List.mem_cons_self⟩)
    · obtain ⟨accepted, ran, finished⟩ := except_bind_ok success
      cases finished
      exact Or.inr (Or.inr ⟨accepted, ran, List.mem_cons_self⟩)

private theorem splitTurnSummary_ne_nil (historyText turnPrefixText : JsString) :
    splitTurnSummary historyText turnPrefixText ≠ [] :=
  List.append_ne_nil_of_left_ne_nil (List.append_ne_nil_of_right_ne_nil _ (by decide)) _

/-- Without history the turn-prefix request is the only one. -/
theorem compactWith_onlyTurnPrefix
    (generateSummary : List AgentMessage → Option JsString → Except CompactionFailure AcceptedSummary)
    {turnPrefix : AcceptedSummary} (only : preparation.onlyTurnPrefix)
    (turn : generateTurnPrefixSummary preparation.turnPrefixMessages = .ok turnPrefix) :
    ∃ compacted, compactWith generateSummary generateTurnPrefixSummary preparation = .ok compacted ∧
      compacted.result.summary ≠ [] ∧ compacted.requests = [turnPrefix.request] := by
  simp only [CompactionPreparation.onlyTurnPrefix, Bool.and_eq_true, Bool.not_eq_true'] at only
  obtain ⟨⟨split, withPrefix⟩, noHistory⟩ := only
  refine ⟨preparation.finish (splitTurnSummary (js "No prior history.") turnPrefix.text ++
    formatFileOperations preparation.details) [turnPrefix.request], ?_, ?_, rfl⟩
  · simp [compactWith, split, withPrefix, noHistory, turn, bind, Except.bind]
  · exact List.append_ne_nil_of_left_ne_nil (splitTurnSummary_ne_nil _ _) _

end CompactWith

end PieAgent.Model

namespace PieAgent.Soundness

open JavaScript Model

/-- The cut falls inside a turn, and no entry between the boundary and that turn carries a message. -/
def SplitsFirstTurn (estimateTokens : AgentMessage → ℕ) (keepRecentTokens : WithTop ℤ)
    (entries : List SessionTreeEntry) : Prop :=
  ∃ cut turnStart, KeptFrom estimateTokens keepRecentTokens entries (boundaryStart entries) cut ∧
    IsGreatest {i | StartsTurn entries (boundaryStart entries) i ∧ i ≤ cut} turnStart ∧ turnStart < cut ∧
      ∀ index, boundaryStart entries ≤ index → index < turnStart →
        testAt entries EntryBody.carriesMessage index = false

/-- Whatever the summarizer answers, a new summary rests on a request that hands over the old one. -/
def CarriesSummary (compact : Summarizer → CompactionPreparation → Except CompactionFailure Compacted)
    (preparation : CompactionPreparation) (summary : JsString) : Prop :=
  ∀ summarizer compacted, compact summarizer preparation = .ok compacted → compacted.result.summary ≠ [] →
    ∃ request ∈ compacted.requests, HandsOver summarizer summary request

section Prepared

variable {estimateTokens : AgentMessage → ℕ} {tokensBefore : ℕ} {entries : List SessionTreeEntry}
variable {settings : CompactionSettings}

private theorem branchCut_turnStart_of_split {cut turnStart : ℕ}
    (kept : KeptFrom estimateTokens settings.keepRecentTokens entries (boundaryStart entries) cut)
    (greatest : IsGreatest {i | StartsTurn entries (boundaryStart entries) i ∧ i ≤ cut} turnStart)
    (inside : turnStart < cut) :
    cut = (branchCut estimateTokens entries settings).firstKeptEntryIndex ∧
      (branchCut estimateTokens entries settings).turnStartIndex = some turnStart := by
  have same := kept.unique (branchCut_keptFrom ..)
  have points : findValidCutPoints entries (boundaryStart entries) entries.length ≠ [] :=
    List.ne_nil_of_mem
      (mem_findValidCutPoints.mpr ⟨.of_startsTurn greatest.1.1, testAt_lt greatest.1.1.2⟩)
  refine ⟨same, (findCutPoint_turnStartIndex points).mpr ⟨?_, by rwa [← branchCut, ← same]⟩⟩
  rw [← branchCut, ← same]
  by_contra user
  have starts : StartsTurn entries (boundaryStart entries) cut :=
    ⟨kept.lower, testAt_imp EntryBody.startsTurn_of_isUserMessage (by simpa using user)⟩
  have := greatest.2 ⟨starts, le_rfl⟩
  omega

/-- A preparation is left with a turn prefix alone exactly when the cut splits the first turn. -/
theorem preparationAt_onlyTurnPrefix_iff (firstKeptEntryId : JsString) :
    (preparationAt tokensBefore entries settings (branchCut estimateTokens entries settings)
        firstKeptEntryId).onlyTurnPrefix ↔
      SplitsFirstTurn estimateTokens settings.keepRecentTokens entries := by
  have flag : (branchCut estimateTokens entries settings).isSplitTurn =
      (branchCut estimateTokens entries settings).turnStartIndex.isSome := findCutPoint_isSplitTurn
  constructor
  · intro only
    cases split : (branchCut estimateTokens entries settings).turnStartIndex with
    | none => simp [CompactionPreparation.onlyTurnPrefix, preparationAt, flag, split] at only
    | some turnStart =>
      simp only [CompactionPreparation.onlyTurnPrefix, preparationAt, flag, split, Option.isSome_some, ↓reduceIte,
        Option.getD_some, Bool.true_and, Bool.and_eq_true, Bool.not_eq_true', List.isEmpty_iff,
        List.isEmpty_eq_false_iff] at only
      obtain ⟨withPrefix, noHistory⟩ := only
      have points : findValidCutPoints entries (boundaryStart entries) entries.length ≠ [] := by
        intro none
        simp [branchCut, findCutPoint_turnStartIndex_nil none] at split
      obtain ⟨_, greatest⟩ := (findCutPoint_turnStartIndex points).mp split
      refine ⟨_, turnStart, branchCut_keptFrom .., greatest, ?_, messagesBetween_eq_nil_iff.mp noHistory⟩
      by_contra outside
      exact withPrefix (messagesBetween_eq_nil_iff.mpr fun index lower upper => by omega)
  · rintro ⟨cut, turnStart, kept, greatest, inside, noHistory⟩
    obtain ⟨rfl, split⟩ := branchCut_turnStart_of_split kept greatest inside
    simp only [CompactionPreparation.onlyTurnPrefix, preparationAt, flag, split, Option.isSome_some, ↓reduceIte,
      Option.getD_some, Bool.true_and, Bool.and_eq_true, Bool.not_eq_true', List.isEmpty_iff,
      List.isEmpty_eq_false_iff]
    refine ⟨fun none => ?_, messagesBetween_eq_nil_iff.mpr noHistory⟩
    have silent := messagesBetween_eq_nil_iff.mp none turnStart le_rfl inside
    have carries := testAt_imp EntryBody.carriesMessage_of_startsTurn greatest.1.1.2
    simp [carries] at silent

end Prepared

/-- A summarizer whose every answer is the text `x`. -/
private def plainSummarizer : Summarizer where
  model := { maxTokens := 4096, contextWindow := 200000, reasoning := false }
  thinkingLevel := none
  customInstructions := none
  now := 0
  isContextOverflow _ _ := false
  respond _ _ _ := .ok
    { content := [.text { text := js "x" }], api := js "api", provider := js "provider", model := js "model"
      usage := ⟨1, 1, 0, 0, 2⟩, stopReason := .stop, timestamp := .millis 0 }

section Copies

variable {compact : Summarizer → CompactionPreparation → Except CompactionFailure Compacted}
variable (generateSummary :
  Summarizer → ℤ → List AgentMessage → Option JsString → Except CompactionFailure AcceptedSummary)
variable (generateTurnPrefixSummary :
  Summarizer → ℤ → List AgentMessage → Except CompactionFailure AcceptedSummary)
variable {preparation : CompactionPreparation} {summary : JsString}

/-- Either copy of `compact` carries a previous summary unless only a turn prefix is summarized. -/
private theorem carriesSummary_iff
    (body : ∀ summarizer, compact summarizer preparation =
      compactWith (generateSummary summarizer preparation.settings.reserveTokens)
        (generateTurnPrefixSummary summarizer preparation.settings.reserveTokens) preparation)
    (hands : ∀ summarizer reserveTokens messages accepted,
      generateSummary summarizer reserveTokens messages (some summary) = .ok accepted →
        HandsOver summarizer summary accepted.request)
    (plain : ∀ reserveTokens messages, ∃ accepted conversation,
      generateTurnPrefixSummary plainSummarizer reserveTokens messages = .ok accepted ∧
        accepted.request.promptText = turnPrefixPrompt conversation)
    (previous : preparation.previousSummary = some summary) :
    CarriesSummary compact preparation summary ↔ summary = [] ∨ preparation.onlyTurnPrefix = false := by
  constructor
  · intro carries
    by_contra failing
    obtain ⟨text, only⟩ := not_or.mp failing
    obtain ⟨accepted, conversation, turn, prompt⟩ :=
      plain preparation.settings.reserveTokens preparation.turnPrefixMessages
    obtain ⟨compacted, success, written, requests⟩ := compactWith_onlyTurnPrefix
      (generateSummary plainSummarizer preparation.settings.reserveTokens) (by simpa using only) turn
    obtain ⟨request, member, handed⟩ := carries plainSummarizer compacted (by rw [body, success]) written
    rw [requests, List.mem_singleton] at member
    subst member
    exact not_handsOver_turnPrefixPrompt rfl text prompt handed
  · intro safe summarizer compacted success written
    rw [body] at success
    rcases compactWith_cases success with empty | ⟨only, request, requests⟩ | ⟨accepted, ran, member⟩
    · exact absurd empty written
    · rcases safe with empty | history
      · exact ⟨request, by simp [requests], Or.inl empty⟩
      · simp [only] at history
    · rw [previous] at ran
      exact ⟨_, member, hands _ _ _ _ ran⟩

end Copies

private theorem agentCore_carries_iff {preparation : CompactionPreparation} (summary : JsString)
    (previous : preparation.previousSummary = some summary) (identified : preparation.firstKeptEntryId ≠ []) :
    CarriesSummary AgentCore.compact preparation summary ↔ summary = [] ∨ preparation.onlyTurnPrefix = false :=
  carriesSummary_iff AgentCore.generateSummary AgentCore.generateTurnPrefixSummary
    (fun summarizer => by simp [AgentCore.compact, identified])
    (fun _ _ _ _ => AgentCore.generateSummary_handsOver)
    (fun _ messages => ⟨_, AgentCore.serializeConversation (convertToLlm messages), rfl, rfl⟩) previous

private theorem codingAgent_carries_iff {preparation : CompactionPreparation} (summary : JsString)
    (previous : preparation.previousSummary = some summary) (identified : preparation.firstKeptEntryId ≠ []) :
    CarriesSummary CodingAgent.compact preparation summary ↔ summary = [] ∨ preparation.onlyTurnPrefix = false :=
  carriesSummary_iff CodingAgent.generateSummary CodingAgent.generateTurnPrefixSummary
    (fun summarizer => by
      have nonempty : preparation.firstKeptEntryId.isEmpty = false := by simpa using identified
      simp only [CodingAgent.compact, nonempty, Bool.false_and, Bool.false_eq_true, ↓reduceIte]
      cases compactWith _ _ preparation <;> rfl)
    (fun _ _ _ _ => CodingAgent.generateSummary_handsOver)
    (fun _ messages => ⟨_, CodingAgent.serializeConversation (convertToLlm messages), rfl, rfl⟩) previous

/-- The previous summary is that of the last compaction entry of the branch. -/
theorem previousSummary?_eq (before : List SessionTreeEntry) {after : List SessionTreeEntry} {compaction : SessionTreeEntry}
    {summary firstKeptEntryId : JsString} {tokensBefore : ℕ} {details : Option Json} {fromHook : Bool}
    (kind : compaction.body = .compaction summary firstKeptEntryId tokensBefore details fromHook)
    (last : ∀ entry ∈ after, entry.body.isCompaction = false) :
    previousSummary? (before ++ compaction :: after) = some summary := by
  have here : (before ++ compaction :: after)[before.length]? = some compaction := by simp
  have found : prevCompactionIndex? (before ++ compaction :: after) = some before.length := by
    rw [prevCompactionIndex?, List.range_eq_range', List.find?_reverse_range'_isGreatest]
    refine ⟨⟨Nat.zero_le _, by simp, by simp [testAt, kind, EntryBody.isCompaction]⟩, fun index member => ?_⟩
    by_contra beyond
    obtain ⟨entry, read, isCompaction⟩ := Option.any_eq_true _ _ |>.mp member.2.2
    rw [List.getElem?_append_right (by omega), List.getElem?_cons, if_neg (by omega)] at read
    simp [last entry (List.mem_of_getElem? read)] at isCompaction
  rw [previousSummary?, found, Option.bind_some, here, Option.bind_some, kind]

/-- In the agent core and in the coding agent alike, a new summary rests on the previous one exactly
when that one is empty or the cut does not fall inside the first turn after the boundary. -/
theorem compact_carriesSummary_iff (before after : List SessionTreeEntry) (compaction : SessionTreeEntry)
    (summary firstKeptEntryId : JsString) (tokensBefore : ℕ) (details : Option Json) (fromHook : Bool)
    (settings : CompactionSettings)
    (kind : compaction.body = .compaction summary firstKeptEntryId tokensBefore details fromHook)
    (last : ∀ entry ∈ after, entry.body.isCompaction = false) :
    (∀ preparation,
        AgentCore.prepareCompaction (before ++ compaction :: after) settings = .prepared preparation →
          (CarriesSummary AgentCore.compact preparation summary ↔ summary = [] ∨
            ¬ SplitsFirstTurn AgentCore.estimateTokens settings.keepRecentTokens (before ++ compaction :: after))) ∧
      ∀ preparation,
        CodingAgent.prepareCompaction (before ++ compaction :: after) settings = .prepared preparation →
          (CarriesSummary CodingAgent.compact preparation summary ↔ summary = [] ∨
            ¬ SplitsFirstTurn CodingAgent.estimateTokens settings.keepRecentTokens
              (before ++ compaction :: after)) := by
  have previous := previousSummary?_eq before kind last
  constructor
  · intro preparation prepared
    unfold AgentCore.prepareCompaction AgentCore.prepareCompactionWith at prepared
    split at prepared
    · cases prepared
    · obtain ⟨entry, _, identified, rfl⟩ := prepareBranch_eq prepared
      rw [agentCore_carries_iff summary previous identified, ← preparationAt_onlyTurnPrefix_iff, Bool.not_eq_true]
  · intro preparation prepared
    unfold CodingAgent.prepareCompaction at prepared
    split at prepared
    · cases prepared
    · obtain ⟨entry, _, identified, rfl⟩ := prepareBranch_eq prepared
      rw [codingAgent_carries_iff summary previous identified, ← preparationAt_onlyTurnPrefix_iff, Bool.not_eq_true]

private def messageEntry (id : String) (message : AgentMessage) : SessionTreeEntry :=
  { id := js id, parentId := none, timestamp := js "2026-01-01T12:00:00.000Z", body := .message message }

private def questionEntry (id text : String) : SessionTreeEntry :=
  messageEntry id (.user ⟨.plain (js text), .millis 0⟩)

private def answer (text : String) : AgentMessage :=
  .assistant
    { content := [.text { text := js text }], api := js "api", provider := js "provider", model := js "model"
      usage := ⟨1, 1, 0, 0, 2⟩, stopReason := .stop, timestamp := .millis 0 }

/-- An earlier compaction that kept the question with id `b`. -/
private def earlierCompaction : SessionTreeEntry :=
  compactionEntry (js "c") none (js "2026-01-01T12:00:00.000Z") (js "S") (js "b") 10 none false

/-- Two answers to the question that the earlier compaction kept. -/
private def splitBranch : List SessionTreeEntry :=
  [questionEntry "a" "first", questionEntry "b" "second", earlierCompaction, messageEntry "d" (answer "one"),
    messageEntry "e" (answer "two")]

private def tightBudget : CompactionSettings :=
  { enabled := true, reserveTokens := 16384, keepRecentTokens := (1 : ℤ) }

/-- Both modules keep only the last answer and summarize the turn before it as a prefix. -/
private def carriedPreparation : CompactionPreparation :=
  { firstKeptEntryId := js "e"
    messagesToSummarize := []
    turnPrefixMessages := [.user ⟨.plain (js "second"), .millis 0⟩, answer "one"]
    isSplitTurn := true
    tokensBefore := 2
    previousSummary := some (js "S")
    fileOps := {}
    settings := tightBudget }

/-- When the first kept turn is split, a compaction can finish without the previous summary. -/
theorem splitFirstTurn_drops_summary :
    (AgentCore.prepareCompaction splitBranch tightBudget = .prepared carriedPreparation ∧
        ¬ CarriesSummary AgentCore.compact carriedPreparation (js "S")) ∧
      CodingAgent.prepareCompaction splitBranch tightBudget = .prepared carriedPreparation ∧
        ¬ CarriesSummary CodingAgent.compact carriedPreparation (js "S") := by
  refine ⟨⟨by decide, ?_⟩, by decide, ?_⟩
  · rw [agentCore_carries_iff (js "S") rfl (by decide)]
    decide
  · rw [codingAgent_carries_iff (js "S") rfl (by decide)]
    decide

/-- The law applied to that branch. -/
theorem compact_carriesSummary_splitBranch :
    (∀ preparation, AgentCore.prepareCompaction splitBranch tightBudget = .prepared preparation →
        (CarriesSummary AgentCore.compact preparation (js "S") ↔
          js "S" = [] ∨ ¬ SplitsFirstTurn AgentCore.estimateTokens (1 : ℤ) splitBranch)) ∧
      ∀ preparation, CodingAgent.prepareCompaction splitBranch tightBudget = .prepared preparation →
        (CarriesSummary CodingAgent.compact preparation (js "S") ↔
          js "S" = [] ∨ ¬ SplitsFirstTurn CodingAgent.estimateTokens (1 : ℤ) splitBranch) :=
  compact_carriesSummary_iff [questionEntry "a" "first", questionEntry "b" "second"]
    [messageEntry "d" (answer "one"), messageEntry "e" (answer "two")] earlierCompaction (js "S") (js "b") 10 none false
    tightBudget rfl (by decide)

end PieAgent.Soundness
