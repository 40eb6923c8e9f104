import PieAgent.JavaScript.Proofs.Characters
import PieAgent.Model.Compaction.AgentCore

/-! # The size of a summary prompt

The estimate of a text counts its ASCII characters in fours and every other character once. The serialized
conversation stays within the part of the budget that the overhead leaves, however long the messages are, and
there are messages that use this part up.
-/

namespace PieAgent.Proofs.AgentCore

open JavaScript PieAgent.Model PieAgent.Model.AgentCore

section Estimate

/-- The number of ASCII characters. -/
def asciiCount (chars : List JsString) : ℕ := chars.countP fun ch => codePoint ch < 128

/-- The estimate of characters. -/
def charTokens (chars : List JsString) : ℕ := (asciiCount chars + 3) / 4 + (chars.length - asciiCount chars)

theorem estimateTextTokens_eq (text : JsString) : estimateTextTokens text = charTokens (characters text) := rfl

variable {chars front back middle : List JsString}

theorem asciiCount_le (chars : List JsString) : asciiCount chars ≤ chars.length := List.countP_le_length

@[simp] theorem asciiCount_append (front back : List JsString) :
    asciiCount (front ++ back) = asciiCount front + asciiCount back := List.countP_append

/-- Characters put between others add at most their own estimate. -/
theorem charTokens_insert_le (front middle back : List JsString) :
    charTokens (front ++ middle ++ back) ≤ charTokens middle + charTokens (front ++ back) := by
  have := asciiCount_le front
  have := asciiCount_le middle
  have := asciiCount_le back
  simp only [charTokens, asciiCount_append, List.length_append]
  omega

/-- ASCII characters in fours add exactly their estimate. -/
theorem charTokens_insert_ascii (ascii : asciiCount middle = middle.length) {tokens : ℕ}
    (size : middle.length = 4 * tokens) :
    charTokens (front ++ middle ++ back) = tokens + charTokens (front ++ back) := by
  have := asciiCount_le front
  have := asciiCount_le back
  simp only [charTokens, asciiCount_append, List.length_append]
  omega

theorem charTokens_append_le (front back : List JsString) :
    charTokens (front ++ back) ≤ charTokens front + charTokens back := by
  simpa using charTokens_insert_le [] front back

end Estimate

section Suffix

variable {budgetTokens : ℤ}

/-- The characters taken from the end, with those counted before, stay within the budget. -/
private theorem suffixLength_le (earlier : List JsString) (ascii nonAscii : ℕ)
    (within : ((ascii + 3) / 4 + nonAscii : ℕ) ≤ budgetTokens) :
    let taken := earlier.take (suffixLengthForTokenBudget budgetTokens earlier ascii nonAscii)
    ((ascii + asciiCount taken + 3) / 4 + (nonAscii + (taken.length - asciiCount taken)) : ℕ) ≤ budgetTokens := by
  induction earlier generalizing ascii nonAscii with
  | nil => simpa [suffixLengthForTokenBudget, asciiCount] using within
  | cons ch earlier ih =>
    rw [suffixLengthForTokenBudget]
    by_cases small : codePoint ch < 128
    · simp only [small, if_true]
      split
      · simpa [asciiCount] using within
      · next fits =>
        have rest := ih (ascii + 1) nonAscii (not_lt.mp fits)
        have bound := asciiCount_le (earlier.take (suffixLengthForTokenBudget budgetTokens earlier (ascii + 1) nonAscii))
        rw [List.take_succ_cons]
        simp only [asciiCount, List.countP_cons, small, decide_true, if_true, List.length_cons] at rest bound ⊢
        omega
    · simp only [small, if_false]
      split
      · simpa [asciiCount] using within
      · next fits =>
        have rest := ih ascii (nonAscii + 1) (not_lt.mp fits)
        have bound := asciiCount_le (earlier.take (suffixLengthForTokenBudget budgetTokens earlier ascii (nonAscii + 1)))
        rw [List.take_succ_cons]
        simp only [asciiCount, List.countP_cons, small, decide_false, Bool.false_eq_true, if_false, List.length_cons]
          at rest bound ⊢
        omega

theorem charTokens_suffix_le (chars : List JsString) (positive : 0 ≤ budgetTokens) :
    (charTokens (chars.drop (suffixStartForTokenBudget chars budgetTokens)) : ℤ) ≤ budgetTokens := by
  have taken := @suffixLength_le budgetTokens chars.reverse 0 0 (by simpa using positive)
  have same : charTokens (chars.drop (suffixStartForTokenBudget chars budgetTokens)) =
      charTokens (chars.reverse.take (suffixLengthForTokenBudget budgetTokens chars.reverse 0 0)) := by
    rw [suffixStartForTokenBudget, List.take_reverse]
    simp only [charTokens, asciiCount, List.countP_reverse, List.length_reverse]
  rw [same, charTokens]
  simpa using taken

end Suffix

section Serialized

variable {now : ℤ} {messages : List AgentMessage} {budgetTokens : ℤ} {customInstructions : Option JsString}

/-- What the overhead leaves of a budget. -/
def availableTokens (budgetTokens : ℤ) (customInstructions : Option JsString) : ℤ :=
  max 0 (budgetTokens - summaryPromptOverheadTokens customInstructions)

private theorem ascii_note : (characters serializedContentNote).all (fun ch => codePoint ch < 128) = true := by
  rw [serializedContentNote, js_append, js_ofList, js_ofList]
  decide

/-- The note is longer than one token. -/
private theorem note_long : 4 ≤ (characters serializedContentNote).length ∧
    1 ≤ estimateTextTokens serializedContentNote := by
  obtain ⟨a, b, c, d, rest, shape⟩ : ∃ a b c d rest, characters serializedContentNote = a :: b :: c :: d :: rest := by
    rw [serializedContentNote, js_append, js_ofList, js_ofList]
    exact ⟨_, _, _, _, _, rfl⟩
  have long : 4 ≤ (characters serializedContentNote).length := by simp [shape]
  refine ⟨long, ?_⟩
  rw [estimateTextTokens]
  omega

private theorem separate_note (text : JsString) : Separate serializedContentNote text :=
  separate_of_end fun unit last => by
    have ends : serializedContentNote.getLast? = some 0x0A := by
      rw [serializedContentNote, js_append, js_ofList, js_ofList]
      decide
    cases ends.symm.trans last
    rfl

private theorem charTokens_note_take (n : ℕ) : charTokens ((characters serializedContentNote).take n) ≤ (n + 3) / 4 := by
  have all : asciiCount ((characters serializedContentNote).take n) =
      ((characters serializedContentNote).take n).length :=
    List.countP_eq_length.mpr fun ch member => List.all_eq_true.mp ascii_note ch (List.mem_of_mem_take member)
  have short := List.length_take_le n (characters serializedContentNote)
  rw [charTokens, all]
  omega

/-- The serialized conversation fits what the overhead leaves of the budget. -/
theorem serializeConversation_le (now : ℤ) (messages : List AgentMessage) (budgetTokens : ℤ)
    (customInstructions : Option JsString) :
    (estimateTextTokens (serializeConversationForSummaryBudget now messages budgetTokens customInstructions) : ℤ) ≤
      availableTokens budgetTokens customInstructions := by
  unfold serializeConversationForSummaryBudget
  dsimp only
  rw [← availableTokens]
  have positive : 0 ≤ availableTokens budgetTokens customInstructions := le_max_left _ _
  split
  · assumption
  split
  · have front := charTokens_note_take (availableTokens budgetTokens customInstructions * 4).toNat
    rw [estimateTextTokens_eq, characters_take]
    omega
  · next room =>
    rw [not_le] at room
    rw [estimateTextTokens_eq, characters_append (separate_note _), characters_drop]
    have parts := charTokens_append_le (characters serializedContentNote)
      ((characters (serializeConversation (convertToLlm (trimMessagesForSummaryBudget now messages budgetTokens
        customInstructions)))).drop (suffixStartForTokenBudget (characters (serializeConversation (convertToLlm
          (trimMessagesForSummaryBudget now messages budgetTokens customInstructions))))
            (availableTokens budgetTokens customInstructions - estimateTextTokens serializedContentNote)))
    have suffix := charTokens_suffix_le (characters (serializeConversation (convertToLlm (trimMessagesForSummaryBudget
      now messages budgetTokens customInstructions))))
      (show 0 ≤ availableTokens budgetTokens customInstructions - estimateTextTokens serializedContentNote by omega)
    rw [← estimateTextTokens_eq] at parts
    omega

private theorem asciiCount_ascii {text : JsString} (ascii : ∀ unit ∈ text, unit < 0x80) :
    asciiCount (characters text) = text.length ∧ (characters text).length = text.length := by
  rw [characters_ascii ascii]
  refine ⟨?_, List.length_map ..⟩
  rw [asciiCount, List.countP_map]
  exact List.countP_eq_length.mpr fun unit member => decide_eq_true (UInt16.lt_iff_toNat_lt.mp (ascii unit member))

private theorem trim_singleton (now : ℤ) (message : AgentMessage) (budgetTokens : ℤ) (customInstructions : Option JsString) :
    trimMessagesForSummaryBudget now [message] budgetTokens customInstructions = [message] := by
  have kept : collectNewest budgetTokens [message] [] (summaryPromptOverheadTokens customInstructions) = [message] := by
    simp [collectNewest]
  simp [trimMessagesForSummaryBudget, kept]

/-- A message of ASCII text. -/
def asciiMessage (now : ℤ) (length : ℕ) : AgentMessage := .user ⟨.plain (List.replicate length 0x61), .millis now⟩

/-- Some message uses up what the overhead leaves of the budget. -/
theorem exists_saturating (now : ℤ) (budgetTokens : ℤ) (customInstructions : Option JsString) :
    ∃ message, ∃ tokens : ℕ, (tokens : ℤ) = availableTokens budgetTokens customInstructions ∧
      let chars := characters (serializeConversationForSummaryBudget now [message] budgetTokens customInstructions)
      asciiCount chars = chars.length ∧ chars.length = 4 * tokens := by
  obtain ⟨tokens, same⟩ := Int.eq_ofNat_of_zero_le (show 0 ≤ availableTokens budgetTokens customInstructions from le_max_left _ _)
  refine ⟨asciiMessage now (4 * tokens - 8), tokens, same.symm, ?_⟩
  have conversation : serializeConversation (convertToLlm [asciiMessage now (4 * tokens - 8)]) =
      js "USER:\n" ++ List.replicate (4 * tokens - 8) 0x61 ++ js "\n\n" := List.append_nil _
  have ascii : ∀ unit ∈ js "USER:\n" ++ List.replicate (4 * tokens - 8) 0x61 ++ js "\n\n", unit < 0x80 := by
    intro unit member
    rcases List.mem_append.mp member with member | member
    · rcases List.mem_append.mp member with member | member
      · exact of_decide_eq_true (List.all_eq_true.mp (rfl : (js "USER:\n").all (· < 0x80) = true) unit member)
      · rw [List.eq_of_mem_replicate member]
        decide
    · exact of_decide_eq_true (List.all_eq_true.mp (rfl : (js "\n\n").all (· < 0x80) = true) unit member)
  have size : (js "USER:\n" ++ List.replicate (4 * tokens - 8) 0x61 ++ js "\n\n").length = 4 * tokens - 8 + 8 := by
    simp only [List.length_append, List.length_replicate]
    have : (js "USER:\n").length = 6 := by decide
    have : (js "\n\n").length = 2 := by decide
    omega
  obtain ⟨count, length⟩ := asciiCount_ascii ascii
  have estimate : estimateTextTokens (js "USER:\n" ++ List.replicate (4 * tokens - 8) 0x61 ++ js "\n\n") =
      (4 * tokens - 8 + 8 + 3) / 4 := by
    rw [estimateTextTokens_eq, charTokens, count, length, size, Nat.sub_self, Nat.add_zero]
  unfold serializeConversationForSummaryBudget
  dsimp only
  rw [trim_singleton, conversation, ← availableTokens, same, estimate]
  by_cases room : 2 ≤ tokens
  · rw [if_pos (by omega)]
    exact ⟨count.trans length.symm, length.trans (by omega)⟩
  · obtain ⟨long, note⟩ := note_long
    rw [if_neg (by omega), if_pos (by omega), characters_take]
    have all : asciiCount ((characters serializedContentNote).take ((tokens : ℤ) * 4).toNat) =
        ((characters serializedContentNote).take ((tokens : ℤ) * 4).toNat).length :=
      List.countP_eq_length.mpr fun ch member => List.all_eq_true.mp ascii_note ch (List.mem_of_mem_take member)
    refine ⟨all, ?_⟩
    rw [List.length_take]
    omega

end Serialized

section Requests

variable {summarizer : Summarizer} {kind : SummaryKind} {retries omitted : ℕ} {messages : List AgentMessage}

/-- The lists of messages that a retry loop goes through when every request overflows, and how many it left out. -/
def attempts : ℕ → List AgentMessage → ℕ → List (List AgentMessage × ℕ)
  | 0, coreMessages, omittedCount => [(coreMessages, omittedCount)]
  | retries + 1, coreMessages, omittedCount =>
    (coreMessages, omittedCount) ::
      if 1 < coreMessages.length then
        attempts retries (shrinkMessagesForOverflowRetry coreMessages).1
          (omittedCount + (shrinkMessagesForOverflowRetry coreMessages).2)
      else []

/-- The request of an attempt. -/
def attemptRequest (summarizer : Summarizer) (kind : SummaryKind) (attempt : List AgentMessage × ℕ) : SummaryRequest :=
  kind.request (promptMessages summarizer attempt.1 attempt.2)

/-- Every request that is sent is the one of an attempt. -/
theorem sentRequests_subset (summarizer : Summarizer) (kind : SummaryKind) (retries : ℕ) (messages : List AgentMessage)
    (omitted : ℕ) : ∀ request ∈ sentRequests summarizer kind retries messages omitted,
      request ∈ (attempts retries messages omitted).map (attemptRequest summarizer kind) := by
  induction retries generalizing messages omitted with
  | zero => exact fun _ member => member
  | succ retries ih =>
    intro request member
    rw [sentRequests] at member
    rcases List.mem_cons.mp member with rfl | later
    · exact List.mem_cons_self
    · refine List.mem_cons_of_mem _ ?_
      dsimp only at later
      split at later
      · next again =>
        obtain ⟨_, many⟩ := Bool.and_eq_true_iff.mp again
        rw [if_pos (of_decide_eq_true many)]
        exact ih _ _ request later
      · cases later

/-- When every answer is an overflow, the requests of all attempts are sent. -/
theorem sentRequests_overflow (kind : SummaryKind) (retries : ℕ) (messages : List AgentMessage) (omitted : ℕ)
    (rejects : ∀ attempt request, overflows summarizer (summarizer.respond kind.call attempt request) = true) :
    sentRequests summarizer kind retries messages omitted =
      (attempts retries messages omitted).map (attemptRequest summarizer kind) := by
  induction retries generalizing messages omitted with
  | zero => rfl
  | succ retries ih =>
    rw [sentRequests, attempts, List.map_cons, rejects, Bool.true_and]
    by_cases many : 1 < messages.length
    · rw [if_pos (decide_eq_true many), if_pos many, ← ih]
      rfl
    · rw [if_neg (by simpa using many), if_neg many]
      rfl

end Requests

end PieAgent.Proofs.AgentCore
