import PieAgent.Proofs.Compaction.PromptSize

/-! # Whether the requests of a compaction fit the window

The conversation of a history summary is cut to a budget, but the budget knows neither the previous summary nor
that nothing is left to cut, and the conversation of a turn prefix is not cut at all. The requests fit for all
messages exactly if the uncut parts leave enough of the window.
-/

namespace PieAgent.Soundness

open JavaScript Model Model.AgentCore Proofs.AgentCore

/-- The estimate of the prompt and the output limit fit the window together. -/
def FitsWindow (model : SummaryModel) (request : SummaryRequest) : Prop :=
  (estimateTextTokens request.systemPrompt + estimateTextTokens request.promptText : ℕ) + request.maxTokens ≤
    model.contextWindow

/-- The history prompt without a conversation, what the budget leaves to the conversation, and the output limit fit
the window. -/
def HistoryRoom (summarizer : Summarizer) (reserveTokens : ℤ) (previousSummary : Option JsString) : Prop :=
  (estimateTextTokens summarizationSystemPrompt + estimateTextTokens (summarizer.historyPrompt [] previousSummary) : ℕ) +
      availableTokens (summarizationPromptBudget summarizer.model reserveTokens) summarizer.customInstructions +
      summaryOutputTokens summarizer.model reserveTokens ≤ summarizer.model.contextWindow

/-- The whole turn prefix, and each of the halves that are sent after an overflow, fit the window with the
instructions and the output limit. -/
def TurnPrefixRoom (summarizer : Summarizer) (reserveTokens : ℤ) (messages : List AgentMessage) : Prop :=
  ∀ attempt ∈ attempts maxSummaryOverflowRetries messages 0,
    (estimateTextTokens summarizationSystemPrompt + estimateTextTokens (turnPrefixPrompt (serializeConversation
      (convertToLlm (promptMessages summarizer attempt.1 attempt.2)))) : ℕ) +
        summarizer.model.capTokens (reserveTokens / 2) ≤ summarizer.model.contextWindow

/-- A conversation that is serialized for a budget takes no more tokens than the instructions leave of it, with the note
about what was omitted. -/
theorem serialized_fits (now : ℤ) (messages : List AgentMessage) (budgetTokens : ℤ) (customInstructions : Option JsString) :
    (estimateTextTokens (serializeConversationForSummaryBudget now messages budgetTokens customInstructions) : ℤ) ≤
      max 0 (budgetTokens - summaryPromptOverheadTokens customInstructions) := by
  have fits := serializeConversation_le now messages budgetTokens customInstructions
  rwa [availableTokens] at fits

variable {summarizer : Summarizer} {preparation : CompactionPreparation} {reserveTokens : ℤ}
  {previousSummary : Option JsString} {messages : List AgentMessage}

private theorem characters_historyPrompt (summarizer : Summarizer) (previousSummary : Option JsString) :
    ∃ front back, ∀ conversation, characters (summarizer.historyPrompt conversation previousSummary) =
      front ++ characters conversation ++ back := by
  obtain ⟨tail, shape⟩ : ∃ tail, ∀ conversation, summarizer.historyPrompt conversation previousSummary =
      js "<conversation>\n" ++ (conversation ++ (js "\n</conversation>\n\n" ++ tail)) :=
    ⟨_, fun conversation => by
      simp only [Summarizer.historyPrompt, conversationSection, List.append_assoc]
      rfl⟩
  refine ⟨characters (js "<conversation>\n"), characters (js "\n</conversation>\n\n" ++ tail), fun conversation => ?_⟩
  have opening : Separate (js "<conversation>\n") (conversation ++ (js "\n</conversation>\n\n" ++ tail)) :=
    separate_of_end fun unit last => by
      cases (show some (0x0A : CodeUnit) = some unit from last)
      rfl
  have closing : Separate conversation (js "\n</conversation>\n\n" ++ tail) := by
    refine separate_of_start fun unit head => ?_
    have first : (js "\n</conversation>\n\n" ++ tail).head? = some 0x0A := rfl
    rw [first] at head
    cases head
    decide
  rw [shape, characters_append opening, characters_append closing, List.append_assoc]

private theorem estimate_historyPrompt_le (conversation : JsString) :
    estimateTextTokens (summarizer.historyPrompt conversation previousSummary) ≤
      estimateTextTokens conversation + estimateTextTokens (summarizer.historyPrompt [] previousSummary) := by
  obtain ⟨front, back, split⟩ := characters_historyPrompt summarizer previousSummary
  have empty := split []
  rw [characters, List.append_nil] at empty
  simp only [estimateTextTokens_eq, split conversation, empty]
  exact charTokens_insert_le front _ back

private theorem estimate_historyPrompt_ascii {conversation : JsString} {tokens : ℕ}
    (ascii : asciiCount (characters conversation) = (characters conversation).length)
    (size : (characters conversation).length = 4 * tokens) :
    estimateTextTokens (summarizer.historyPrompt conversation previousSummary) =
      tokens + estimateTextTokens (summarizer.historyPrompt [] previousSummary) := by
  obtain ⟨front, back, split⟩ := characters_historyPrompt summarizer previousSummary
  have empty := split []
  rw [characters, List.append_nil] at empty
  simp only [estimateTextTokens_eq, split conversation, empty]
  exact charTokens_insert_ascii ascii size

/-- With enough room every history request fits, whatever it summarizes. -/
private theorem historyRequest_fits (room : HistoryRoom summarizer reserveTokens previousSummary)
    (messages : List AgentMessage) :
    FitsWindow summarizer.model ((historyKind summarizer reserveTokens previousSummary).request messages) := by
  have conversation := serializeConversation_le summarizer.now messages
    (summarizationPromptBudget summarizer.model reserveTokens) summarizer.customInstructions
  have prompt := @estimate_historyPrompt_le summarizer previousSummary
    (serializeConversationForSummaryBudget summarizer.now messages
      (summarizationPromptBudget summarizer.model reserveTokens) summarizer.customInstructions)
  unfold HistoryRoom at room
  unfold FitsWindow historyKind
  dsimp only
  omega

/-- Some message makes the history request fill the room completely. -/
private theorem exists_full_historyRequest (summarizer : Summarizer) (reserveTokens : ℤ) (previousSummary : Option JsString) :
    ∃ message, FitsWindow summarizer.model ((historyKind summarizer reserveTokens previousSummary).request [message]) →
      HistoryRoom summarizer reserveTokens previousSummary := by
  obtain ⟨message, tokens, same, ascii, size⟩ := exists_saturating summarizer.now
    (summarizationPromptBudget summarizer.model reserveTokens) summarizer.customInstructions
  refine ⟨message, fun fits => ?_⟩
  have prompt := @estimate_historyPrompt_ascii summarizer previousSummary _ _ ascii size
  unfold FitsWindow historyKind at fits
  dsimp only at fits
  unfold HistoryRoom
  omega

private theorem turnPrefixRequest_fits_iff {attempt : List AgentMessage × ℕ} :
    FitsWindow summarizer.model (attemptRequest summarizer (turnPrefixKind summarizer reserveTokens) attempt) ↔
      (estimateTextTokens summarizationSystemPrompt + estimateTextTokens (turnPrefixPrompt (serializeConversation
        (convertToLlm (promptMessages summarizer attempt.1 attempt.2)))) : ℕ) +
          summarizer.model.capTokens (reserveTokens / 2) ≤ summarizer.model.contextWindow := by
  unfold FitsWindow attemptRequest turnPrefixKind
  dsimp only
  exact Iff.rfl

/-- The requests of a compaction are those of its one or two calls. -/
private theorem mem_compactRequests {request : SummaryRequest} (sent : request ∈ compactRequests summarizer preparation) :
    preparation.firstKeptEntryId ≠ [] ∧
      (request ∈ sentRequests summarizer
          (historyKind summarizer preparation.settings.reserveTokens preparation.previousSummary)
          maxSummaryOverflowRetries preparation.messagesToSummarize 0 ∨
        preparation.isSplitTurn = true ∧ preparation.turnPrefixMessages ≠ [] ∧
          request ∈ sentRequests summarizer (turnPrefixKind summarizer preparation.settings.reserveTokens)
            maxSummaryOverflowRetries preparation.turnPrefixMessages 0) := by
  unfold compactRequests at sent
  dsimp only at sent
  split at sent
  · cases sent
  next named =>
    refine ⟨by simpa using named, ?_⟩
    split at sent
    · cases sent
    split at sent
    next split_ =>
      obtain ⟨isSplit, nonempty⟩ := Bool.and_eq_true_iff.mp split_
      have nonempty : preparation.turnPrefixMessages ≠ [] := by simpa using nonempty
      split at sent
      · exact .inr ⟨isSplit, nonempty, sent⟩
      · exact (List.mem_append.mp sent).imp_right fun member => ⟨isSplit, nonempty, member⟩
    · exact .inl sent

private theorem history_sent (named : preparation.firstKeptEntryId ≠ []) (some_ : preparation.messagesToSummarize ≠ [])
    {request : SummaryRequest} (sent : request ∈ sentRequests summarizer
      (historyKind summarizer preparation.settings.reserveTokens preparation.previousSummary)
      maxSummaryOverflowRetries preparation.messagesToSummarize 0) :
    request ∈ compactRequests summarizer preparation := by
  unfold compactRequests
  dsimp only
  rw [if_neg (by simpa using named), if_neg (by simp [some_])]
  split
  · rw [if_neg (by simpa using some_)]
    exact List.mem_append_left _ sent
  · exact sent

private theorem turnPrefix_sent (named : preparation.firstKeptEntryId ≠ []) (isSplit : preparation.isSplitTurn = true)
    (some_ : preparation.turnPrefixMessages ≠ []) {request : SummaryRequest}
    (sent : request ∈ sentRequests summarizer (turnPrefixKind summarizer preparation.settings.reserveTokens)
      maxSummaryOverflowRetries preparation.turnPrefixMessages 0) :
    request ∈ compactRequests summarizer preparation := by
  unfold compactRequests
  dsimp only
  rw [if_neg (by simpa using named), if_neg (by simp [some_]), if_pos (by simp [isSplit, some_])]
  split
  · exact sent
  · exact List.mem_append_right _ sent

/-- The requests of a compaction fit the window for all messages to summarize and all answers exactly if the parts
of the prompts that are never cut leave enough room. -/
theorem compactRequests_fit_iff (overflow : ∃ response, overflows summarizer (.ok response) = true) :
    (∀ messages respond, ∀ request ∈
        compactRequests { summarizer with respond } { preparation with messagesToSummarize := messages },
        FitsWindow summarizer.model request) ↔
      preparation.firstKeptEntryId = [] ∨
        HistoryRoom summarizer preparation.settings.reserveTokens preparation.previousSummary ∧
          (preparation.isSplitTurn = true → preparation.turnPrefixMessages ≠ [] →
            TurnPrefixRoom summarizer preparation.settings.reserveTokens preparation.turnPrefixMessages) := by
  constructor
  · intro fits
    by_cases named : preparation.firstKeptEntryId = []
    · exact .inl named
    refine .inr ⟨?_, fun isSplit some_ attempt member => ?_⟩
    · obtain ⟨message, full⟩ := exists_full_historyRequest summarizer preparation.settings.reserveTokens
        preparation.previousSummary
      have sent := fits [message] summarizer.respond
      generalize same : ({ preparation with messagesToSummarize := [message] } : CompactionPreparation) = changed at sent
      have name : changed.firstKeptEntryId ≠ [] := by rw [← same]; exact named
      have first : changed.messagesToSummarize = [message] := by rw [← same]
      have settings : changed.settings = preparation.settings := by rw [← same]
      have previous : changed.previousSummary = preparation.previousSummary := by rw [← same]
      rw [← settings, ← previous] at full ⊢
      refine full (sent _ (history_sent name (by rw [first]; exact List.cons_ne_nil _ _) ?_))
      rw [first]
      exact List.mem_cons_self
    · obtain ⟨response, rejected⟩ := overflow
      have sent := @turnPrefix_sent { summarizer with respond := fun _ _ _ => .ok response }
        { preparation with messagesToSummarize := [] } named isSplit some_
        (attemptRequest summarizer (turnPrefixKind summarizer preparation.settings.reserveTokens) attempt) (by
          rw [sentRequests_overflow _ _ _ _ fun _ _ => rejected]
          exact List.mem_map_of_mem member)
      exact (turnPrefixRequest_fits_iff).mp (fits [] (fun _ _ _ => .ok response) _ sent)
  · rintro room messages respond request sent
    obtain ⟨named, member⟩ := mem_compactRequests sent
    obtain ⟨history, turnPrefix⟩ := room.resolve_left named
    rcases member with member | ⟨isSplit, some_, member⟩
    · obtain ⟨attempt, _, rfl⟩ := List.mem_map.mp (sentRequests_subset _ _ _ _ _ request member)
      exact historyRequest_fits history _
    · obtain ⟨attempt, tried, rfl⟩ := List.mem_map.mp (sentRequests_subset _ _ _ _ _ request member)
      exact (turnPrefixRequest_fits_iff).mpr (turnPrefix isSplit some_ attempt tried)

private def overflowAnswer : AssistantMessage where
  content := []
  api := js "openai-completions"
  provider := js "openai"
  model := js "small"
  usage := ⟨0, 0, 0, 0, 0⟩
  stopReason := .error
  timestamp := .millis 0

/-- A model with a window of 8192 tokens, at a provider that refuses everything as too long. -/
private def smallSummarizer (maxTokens : ℤ) : Summarizer where
  model := ⟨maxTokens, 8192, false⟩
  thinkingLevel := none
  customInstructions := none
  now := 0
  isContextOverflow _ _ := true
  respond _ _ _ := .ok overflowAnswer

/-- The first turn of a session, split after a short request. -/
private def splitPreparation : CompactionPreparation where
  firstKeptEntryId := js "e"
  messagesToSummarize := []
  turnPrefixMessages := [.user ⟨.plain (js "hi"), .millis 0⟩]
  isSplitTurn := true
  tokensBefore := 0
  previousSummary := none
  fileOps := {}
  settings := ⟨true, 16384, ((20000 : ℤ) : WithTop ℤ)⟩

/-- The law for a model with a small window. -/
theorem compactRequests_fit_iff_small :
    (∀ messages respond, ∀ request ∈ compactRequests { smallSummarizer 1024 with respond }
        { splitPreparation with messagesToSummarize := messages }, FitsWindow (smallSummarizer 1024).model request) ↔
      splitPreparation.firstKeptEntryId = [] ∨
        HistoryRoom (smallSummarizer 1024) splitPreparation.settings.reserveTokens splitPreparation.previousSummary ∧
          (splitPreparation.isSplitTurn = true → splitPreparation.turnPrefixMessages ≠ [] →
            TurnPrefixRoom (smallSummarizer 1024) splitPreparation.settings.reserveTokens
              splitPreparation.turnPrefixMessages) :=
  compactRequests_fit_iff ⟨overflowAnswer, rfl⟩

private theorem estimate_pos {text : JsString} (some_ : text ≠ []) : 0 < estimateTextTokens text := by
  have counted : (characters text).countP (fun ch => codePoint ch < 128) ≤ (characters text).length :=
    List.countP_le_length
  have length : (characters text).length ≠ 0 := fun none_ => some_ (by
    rw [← flatten_characters text, List.length_eq_zero_iff.mp none_, List.flatten_nil])
  rw [estimateTextTokens]
  omega

private theorem turnPrefixPrompt_counted (conversation : JsString) :
    0 < estimateTextTokens (turnPrefixPrompt conversation) := by
  refine estimate_pos fun empty => ?_
  rw [turnPrefixPrompt, conversationSection] at empty
  have opening := (List.append_eq_nil_iff.mp (List.append_eq_nil_iff.mp (List.append_eq_nil_iff.mp empty).1).1).1
  cases (show some (0x3C : CodeUnit) = none from congrArg List.head? opening)

/-- An output limit that is as large as the window leaves no room for the prompt. -/
private theorem not_fits_of_limit {attempt : List AgentMessage × ℕ}
    (limit : summarizer.model.capTokens (reserveTokens / 2) = summarizer.model.contextWindow) :
    ¬ FitsWindow summarizer.model (attemptRequest summarizer (turnPrefixKind summarizer reserveTokens) attempt) := by
  have counted := turnPrefixPrompt_counted
    (serializeConversation (convertToLlm (promptMessages summarizer attempt.1 attempt.2)))
  rw [turnPrefixRequest_fits_iff, limit]
  omega

/-- The output limit of a turn-prefix summary alone fills a window of 8192 tokens. -/
theorem turnPrefix_exceeds_window :
    ¬ ∀ summarizer preparation, ∀ request ∈ compactRequests summarizer preparation,
      FitsWindow summarizer.model request := by
  intro fits
  have overflow : overflows (smallSummarizer 8192) (.ok overflowAnswer) = true := rfl
  have sent := @turnPrefix_sent (smallSummarizer 8192) splitPreparation (by decide) rfl (List.cons_ne_nil _ _)
    (attemptRequest (smallSummarizer 8192) (turnPrefixKind (smallSummarizer 8192) 16384)
      (splitPreparation.turnPrefixMessages, 0)) (by
    rw [sentRequests_overflow _ _ _ _ fun _ _ => overflow]
    exact List.mem_cons_self)
  have limit : (smallSummarizer 8192).model.capTokens (16384 / 2) = (smallSummarizer 8192).model.contextWindow := by
    decide
  exact not_fits_of_limit limit (fits _ _ _ sent)

end PieAgent.Soundness
