import Mathlib.Data.List.TakeDrop
import PieAgent.Proofs.Core.Truncation

/-! # Truncated output tells the truth

The head keeps the longest prefix of whole lines within both limits, and says so. The tail keeps the longest suffix, or
the end of an over-long last line; but its account of which limit was hit is wrong in two cases. One is a text that only
its final line feed makes too long, the other an over-long last line when one line is allowed: both are put down to the
limit of lines.
-/

namespace PieAgent.Soundness.TruncatedOutput

open JavaScript Model Truncate Proofs.Truncation

section Truth

variable (content : JsString) (maxLines maxBytes : ℕ) (result : TruncationResult)

/-- The text starts with a piece, and no character is cut where it ends. -/
def IsHead (piece : JsString) : Prop :=
  ∃ back, content = piece ++ back ∧ characters content = characters piece ++ characters back

/-- The text ends with a piece, maybe before a final line feed, and no character is cut where it starts. -/
def IsTail (piece : JsString) : Prop :=
  ∃ front back, (back = [] ∨ back = js "\n") ∧ content = front ++ piece ++ back ∧
    characters content = characters front ++ characters piece ++ characters back

/-- What the result of `truncateHead` has to be: `outputLines` lines from the head, as many as both limits allow. -/
structure HeadTruth : Prop where
  content_ : result.content = join (js "\n") ((splitLines content).take result.outputLines)
  isHead : IsHead content result.content
  lines_le : result.outputLines ≤ maxLines ∧ result.outputLines ≤ (splitLines content).length
  bytes_le : utf8ByteLength result.content ≤ maxBytes
  longest : ∀ k, result.outputLines < k → k ≤ (splitLines content).length → k ≤ maxLines →
    maxBytes < size ((splitLines content).take k)
  truncated : result.truncated = true ↔ result.outputLines < (splitLines content).length
  unlimited : result.truncatedBy = none ↔ result.truncated = false
  byLines : result.truncatedBy = some .lines → result.outputLines = maxLines
  byBytes : result.truncatedBy = some .bytes → maxBytes < size ((splitLines content).take (result.outputLines + 1))
  totalLines : result.totalLines = (splitLines content).length
  totalBytes : result.totalBytes = utf8ByteLength content
  outputBytes : result.outputBytes = utf8ByteLength result.content
  complete : result.lastLinePartial = false
  firstLine : result.firstLineExceedsLimit = true ↔ maxBytes < utf8ByteLength ((splitLines content).headD [])

/-- The whole text fits the limits. -/
def Fits : Prop := (tailLines content).length ≤ maxLines ∧ utf8ByteLength content ≤ maxBytes

/-- The lines from the tail: all but the first ones. -/
def lastLines (k : ℕ) : List JsString := (tailLines content).drop ((tailLines content).length - k)

/-- The number of whole lines in the result. -/
def wholeLines : ℕ := if result.lastLinePartial then 0 else result.outputLines

/-- What the result of `truncateTail` has to be: the text itself, or `outputLines` lines from the tail, as many as both
limits allow, or the end of an over-long last line. -/
structure TailTruth : Prop where
  fits : Fits content maxLines maxBytes → result.content = content ∧ result.outputLines = (tailLines content).length
  content_ : ¬ Fits content maxLines maxBytes → result.lastLinePartial = false →
    result.content = join (js "\n") (lastLines content result.outputLines) ∧ IsTail content result.content
  partial_ : result.lastLinePartial = true ↔ 0 < maxLines ∧ maxBytes < utf8ByteLength ((tailLines content).getLastD [])
  cut : result.lastLinePartial = true →
    IsCut ((tailLines content).getLastD []) maxBytes result.content ∧ result.outputLines = 1
  lines_le : result.outputLines ≤ maxLines ∧ result.outputLines ≤ (tailLines content).length
  bytes_le : utf8ByteLength result.content ≤ maxBytes
  longest : ∀ k, wholeLines result < k → k ≤ (tailLines content).length → k ≤ maxLines →
    maxBytes < size (lastLines content k)
  truncated : result.truncated = true ↔ ¬ Fits content maxLines maxBytes
  unlimited : result.truncatedBy = none ↔ result.truncated = false
  byLines : result.truncatedBy = some .lines →
    wholeLines result = maxLines ∧ wholeLines result < (tailLines content).length
  byBytes : result.truncatedBy = some .bytes → maxBytes < utf8ByteLength content ∧
    (wholeLines result < (tailLines content).length → maxBytes < size (lastLines content (wholeLines result + 1)))
  totalLines : result.totalLines = (tailLines content).length
  totalBytes : result.totalBytes = utf8ByteLength content
  outputBytes : result.outputBytes = utf8ByteLength result.content
  firstLine : result.firstLineExceedsLimit = false

/-- Only the final line feed of the text is too much. -/
def OnlyLineFeed : Prop :=
  js "\n" <:+ content ∧ (tailLines content).length ≤ maxLines ∧ utf8ByteLength content = maxBytes + 1

/-- One line is allowed, and the last one is too long. -/
def OverlongLine : Prop := maxLines = 1 ∧ maxBytes < utf8ByteLength ((tailLines content).getLastD [])

instance : Decidable (OnlyLineFeed content maxLines maxBytes) := inferInstanceAs (Decidable (_ ∧ _ ∧ _))

instance : Decidable (OverlongLine content maxLines maxBytes) := inferInstanceAs (Decidable (_ ∧ _))

end Truth

section Lines

variable {content : JsString} {maxLines maxBytes : ℕ}

private theorem join_splitLines (content : JsString) : join (js "\n") (splitLines content) = content :=
  List.intercalate_splitOn 0x0A

private theorem splitLines_ne_nil (content : JsString) : splitLines content ≠ [] :=
  List.splitOn_ne_nil 0x0A content

private theorem size_splitLines (content : JsString) : size (splitLines content) = utf8ByteLength content := by
  rw [size, join_splitLines]

/-- The lines of the tail are those of the text, less an empty one that a final line feed starts. -/
private theorem tailLines_cases (content : JsString) :
    (tailLines content = splitLines content ∧ ¬ js "\n" <:+ content) ∨
      (splitLines content = tailLines content ++ [[]] ∧ tailLines content ≠ [] ∧
        content = join (js "\n") (tailLines content) ++ js "\n") := by
  unfold tailLines
  dsimp only
  split
  · next ends =>
    right
    have nonempty := splitLines_ne_nil content
    have last : (splitLines content).getLast nonempty = [] := by
      rw [← ends.2, List.getLastD_eq_getLast?, List.getLast?_eq_some_getLast nonempty, Option.getD_some]
    have split_ := List.dropLast_append_getLast nonempty
    rw [last] at split_
    have front : (splitLines content).dropLast ≠ [] := by
      intro none_
      have := congrArg List.length none_
      rw [List.length_dropLast, List.length_nil] at this
      omega
    refine ⟨split_.symm, front, ?_⟩
    conv => lhs; rw [← join_splitLines content, ← split_]
    rw [join_append front (by simp)]
    simp [join]
  · next open_ =>
    left
    refine ⟨rfl, ?_⟩
    rintro ⟨front, same⟩
    have pieces : splitLines content = front.splitOn 0x0A ++ [[]] := by
      rw [splitLines, ← same]
      exact List.splitOn_append_cons_self front []
    apply open_
    rw [pieces]
    refine ⟨?_, by simp⟩
    have := List.length_pos_of_ne_nil (List.splitOn_ne_nil 0x0A front)
    rw [List.length_append, List.length_singleton]
    omega

/-- The lines up to one of them are the head of the text. -/
private theorem isHead_take (content : JsString) (k : ℕ) :
    IsHead content (join (js "\n") ((splitLines content).take k)) := by
  have whole := join_splitLines content
  rcases eq_or_ne ((splitLines content).take k) [] with none_ | front
  · rw [none_]
    exact ⟨content, rfl, rfl⟩
  rcases eq_or_ne ((splitLines content).drop k) [] with all | back
  · have same := List.take_append_drop k (splitLines content)
    rw [all, List.append_nil] at same
    rw [same, whole]
    exact ⟨[], (List.append_nil _).symm, (List.append_nil _).symm⟩
  · rw [← List.take_append_drop k (splitLines content), join_append front back] at whole
    refine ⟨_, whole.symm, ?_⟩
    conv => lhs; rw [← whole]
    exact characters_append (separate_lineFeed_left _ _)

/-- The lines behind one of them are the tail of the text. -/
private theorem isTail_lastLines (content : JsString) (k : ℕ) :
    IsTail content (join (js "\n") (lastLines content k)) := by
  unfold lastLines
  generalize (tailLines content).length - k = n
  -- The text without the final line feed that starts no line.
  obtain ⟨back, either, split, apart⟩ : ∃ back, (back = [] ∨ back = js "\n") ∧
      content = join (js "\n") (tailLines content) ++ back ∧ ∀ front, Separate front back := by
    rcases tailLines_cases content with ⟨same, _⟩ | ⟨_, _, ends⟩
    · refine ⟨[], .inl rfl, ?_, fun front => separate_of_start nofun⟩
      rw [same, join_splitLines, List.append_nil]
    · exact ⟨js "\n", .inr rfl, ends, fun front => separate_lineFeed_left front []⟩
  have parts : characters content = characters (join (js "\n") (tailLines content)) ++ characters back := by
    conv => lhs; rw [split]
    exact characters_append (apart _)
  rcases eq_or_ne ((tailLines content).take n) [] with all | front
  · have same := List.take_append_drop n (tailLines content)
    rw [all, List.nil_append] at same
    rw [same]
    exact ⟨[], back, either, split, parts⟩
  rcases eq_or_ne ((tailLines content).drop n) [] with none_ | later
  · rw [none_]
    exact ⟨content, [], .inl rfl, by simp [join], by simp [join, characters]⟩
  · have joined := join_append front later
    rw [List.take_append_drop, ← List.append_assoc] at joined
    rw [joined] at split parts
    refine ⟨_, back, either, split, ?_⟩
    rw [parts]
    congr 1
    refine characters_append (separate_of_end fun unit last => ?_)
    rw [List.getLast?_append_of_ne_nil _ (by decide)] at last
    obtain rfl : 0x0A = unit := Option.some.inj last
    decide

end Lines

section Head

/-- The first line has no more bytes than some lines from the head. -/
private theorem first_le {lines : List JsString} (nonempty : lines ≠ []) {k : ℕ} (some_ : 0 < k) :
    utf8ByteLength (lines.headD []) ≤ size (lines.take k) := by
  have less := size_take_mono some_ lines
  cases lines with
  | nil => exact absurd rfl nonempty
  | cons line lines => simpa using less

variable (content : JsString) (options : TruncationOptions)

/-- The head is truncated to the longest prefix of whole lines, whatever the text and the limits are. -/
private theorem headTruth : HeadTruth content options.lineLimit options.byteLimit (truncateHead content options) := by
  have nonempty := splitLines_ne_nil content
  have bytes := size_splitLines content
  have length := List.length_pos_of_ne_nil nonempty
  have all : (splitLines content).take (splitLines content).length = splitLines content := List.take_length
  unfold truncateHead
  dsimp only
  generalize options.lineLimit = maxLines
  generalize options.byteLimit = maxBytes
  split
  · next fits =>
    refine ⟨?_, ?_, ⟨fits.1, le_rfl⟩, fits.2, fun k more few _ => absurd more (not_lt.mpr few), ?_, ?_, nofun, nofun,
      rfl, rfl, rfl, rfl, ?_⟩
    · rw [untruncated, all, join_splitLines]
    · exact ⟨[], (List.append_nil _).symm, (List.append_nil _).symm⟩
    · simp [untruncated]
    · simp [untruncated]
    · refine ⟨nofun, fun exceeds => ?_⟩
      have less := first_le nonempty length
      rw [all, bytes] at less
      omega
  next unfit =>
  split
  · next exceeds =>
    have beyond {k : ℕ} (some_ : 0 < k) : maxBytes < size ((splitLines content).take k) :=
      lt_of_lt_of_le exceeds (first_le nonempty some_)
    refine ⟨rfl, ⟨content, rfl, rfl⟩, ⟨Nat.zero_le _, Nat.zero_le _⟩, Nat.zero_le _, fun k more _ _ => beyond more, ?_,
      ?_, nofun, fun _ => beyond Nat.one_pos, rfl, rfl, rfl, rfl, ?_⟩
    · simpa using length
    · simp
    · simpa using exceeds
  · next short =>
    obtain ⟨k, bound, limit, runs, small, allowed, next⟩ :=
      @collectHead_spec maxBytes [] ((splitLines content).take maxLines) (Nat.zero_le _)
    rw [size_nil, List.nil_append, List.take_take] at runs
    rw [List.nil_append, List.take_take] at small
    rw [List.length_take] at bound allowed next
    rw [List.nil_append, List.take_take] at next
    have few : min k maxLines = k := by omega
    rw [few] at runs small
    have lines_ : ((splitLines content).take k).length = k := by
      rw [List.length_take]
      omega
    have left : k < (splitLines content).length := by
      by_contra all_
      rw [List.take_of_length_le (by omega), bytes] at small
      exact unfit ⟨by omega, small⟩
    have within_ : k ≤ maxLines := by omega
    rw [runs]
    dsimp only
    rw [lines_]
    refine ⟨rfl, isHead_take content k, ⟨within_, left.le⟩, small, fun j more few_ within => ?_, ?_, ?_, fun by_ => ?_,
      fun by_ => ?_, rfl, rfl, rfl, rfl, ?_⟩
    · change k < j at more
      cases limit with
      | lines =>
        have := allowed rfl
        omega
      | bytes =>
        obtain ⟨inside, exceeds⟩ := next rfl
        rw [show min (k + 1) maxLines = k + 1 by omega] at exceeds
        exact lt_of_lt_of_le exceeds (size_take_mono more _)
    · simpa using left
    · simp
    · rw [Option.some.injEq] at by_
      change k = maxLines
      split at by_
      · next full => exact le_antisymm within_ full.1
      · next room =>
        have := allowed by_
        omega
    · rw [Option.some.injEq] at by_
      change maxBytes < size ((splitLines content).take (k + 1))
      split at by_
      · cases by_
      · obtain ⟨inside, exceeds⟩ := next by_
        rwa [show min (k + 1) maxLines = k + 1 by omega] at exceeds
    · exact ⟨nofun, fun exceeds => absurd exceeds short⟩

end Head

section Tail

variable (content : JsString) (maxLines maxBytes : ℕ)

private theorem tailLines_ne_nil (content : JsString) : tailLines content ≠ [] := by
  rcases tailLines_cases content with ⟨same, _⟩ | ⟨_, nonempty, _⟩
  · rw [same]
    exact splitLines_ne_nil content
  · exact nonempty

/-- The bytes of the lines, and of the final line feed that starts no line. -/
private theorem size_tailLines (content : JsString) :
    utf8ByteLength content = size (tailLines content) ∧ ¬ js "\n" <:+ content ∨
      utf8ByteLength content = size (tailLines content) + 1 ∧ js "\n" <:+ content := by
  rcases tailLines_cases content with ⟨same, open_⟩ | ⟨_, _, ends⟩
  · exact .inl ⟨by rw [same, size_splitLines], open_⟩
  · refine .inr ⟨?_, ⟨_, ends.symm⟩⟩
    conv => lhs; rw [ends]
    exact utf8ByteLength_append (separate_lineFeed_left _ [])

/-- The last line has no more bytes than some lines from the tail. -/
private theorem last_le {k : ℕ} (some_ : 0 < k) :
    utf8ByteLength ((tailLines content).getLastD []) ≤ size (lastLines content k) := by
  have nonempty := tailLines_ne_nil content
  unfold lastLines
  generalize tailLines content = lines at nonempty
  have length := List.length_pos_of_ne_nil nonempty
  have less := @size_drop_mono (lines.length - k) (lines.length - 1) (by omega) lines
  rw [List.drop_length_sub_one nonempty, size_singleton] at less
  rwa [List.getLastD_eq_getLast?, List.getLast?_eq_some_getLast nonempty, Option.getD_some]

private theorem lastLines_length (content : JsString) :
    lastLines content (tailLines content).length = tailLines content := by
  rw [lastLines, Nat.sub_self, List.drop_zero]

/-- Lines taken from the reversed lines. -/
private theorem reverse_take_reverse (content : JsString) (k : ℕ) :
    ((tailLines content).reverse.take k).reverse = lastLines content k := by
  rw [List.take_reverse, List.reverse_reverse, lastLines]

private theorem size_lastLines_mono {first second : ℕ} (less : first ≤ second) :
    size (lastLines content first) ≤ size (lastLines content second) :=
  size_drop_mono (by omega) _

variable (options : TruncationOptions)

/-- The result for a text that fits. -/
private theorem tailTruth_fits (fits : Fits content maxLines maxBytes) :
    TailTruth content maxLines maxBytes (untruncated content (tailLines content).length maxLines maxBytes) := by
  have length := List.length_pos_of_ne_nil (tailLines_ne_nil content)
  have last := last_le content length
  rw [lastLines_length] at last
  refine ⟨fun _ => ⟨rfl, rfl⟩, fun unfit => absurd fits unfit, ⟨nofun, fun exceeds => ?_⟩, nofun, ⟨fits.1, le_rfl⟩,
    fits.2, fun k more few _ => absurd more (not_lt.mpr few), ?_, ?_, nofun, nofun, rfl, rfl, rfl, rfl⟩
  · have small := fits.2
    rcases size_tailLines content with ⟨same, _⟩ | ⟨same, _⟩ <;> omega
  · simp [untruncated, fits]
  · simp [untruncated]

/-- The result for a text that does not fit. -/
private def cutResult (state : TailState) : TruncationResult where
  content := join (js "\n") state.outputLinesArr
  truncated := true
  truncatedBy := some
    (if maxLines ≤ state.outputLinesArr.length ∧ state.outputBytesCount ≤ maxBytes then .lines else state.truncatedBy)
  totalLines := (tailLines content).length
  totalBytes := utf8ByteLength content
  outputLines := state.outputLinesArr.length
  outputBytes := utf8ByteLength (join (js "\n") state.outputLinesArr)
  lastLinePartial := state.lastLinePartial
  firstLineExceedsLimit := false
  maxLines := maxLines
  maxBytes := maxBytes

private theorem truncateTail_over (unfit : ¬ Fits content options.lineLimit options.byteLimit) :
    truncateTail content options = cutResult content options.lineLimit options.byteLimit
      (collectTail options.lineLimit options.byteLimit (tailLines content).reverse [] 0) := by
  unfold truncateTail
  exact if_neg unfit

variable {content maxLines maxBytes} {state : TailState}

private theorem size_le_bytes (content : JsString) : size (tailLines content) ≤ utf8ByteLength content := by
  rcases size_tailLines content with ⟨same, _⟩ | ⟨same, _⟩ <;> omega

/-- The tail ends with whole lines: the account is true unless only the final line feed was too much. -/
private theorem tailTruth_whole (unfit : ¬ Fits content maxLines maxBytes) {k : ℕ} (bound : k ≤ (tailLines content).length)
    (lines : state.outputLinesArr = lastLines content k) (count : state.outputBytesCount = size state.outputLinesArr)
    (fits : state.outputBytesCount ≤ maxBytes) (few : k ≤ maxLines) (complete : state.lastLinePartial = false)
    (byLines : state.truncatedBy = .lines → k = (tailLines content).length ∨ maxLines = k)
    (byBytes : state.truncatedBy = .bytes → k < (tailLines content).length ∧ 0 < k ∧
      maxBytes < size (lastLines content (k + 1))) :
    TailTruth content maxLines maxBytes (cutResult content maxLines maxBytes state) ↔
      ¬ OnlyLineFeed content maxLines maxBytes ∧ ¬ OverlongLine content maxLines maxBytes := by
  have length : (lastLines content k).length = k := by
    rw [lastLines, List.length_drop]
    omega
  rw [count, lines] at fits
  have whole : wholeLines (cutResult content maxLines maxBytes state) = k := by
    rw [wholeLines, cutResult, complete, lines, length]
    rfl
  have outputs : (cutResult content maxLines maxBytes state).outputLines = k := by rw [cutResult, lines, length]
  have content_ : (cutResult content maxLines maxBytes state).content = join (js "\n") (lastLines content k) := by
    rw [cutResult, lines]
  have limit : (cutResult content maxLines maxBytes state).truncatedBy =
      some (if maxLines ≤ k then .lines else state.truncatedBy) := by
    simp only [cutResult, lines, length, count, fits, and_true]
  have short : ¬(0 < maxLines ∧ maxBytes < utf8ByteLength ((tailLines content).getLastD [])) := by
    rintro ⟨some_, exceeds⟩
    rcases Nat.eq_zero_or_pos k with rfl | more
    · cases by_ : state.truncatedBy with
      | lines =>
        have := List.length_pos_of_ne_nil (tailLines_ne_nil content)
        have := byLines by_
        omega
      | bytes => exact absurd (byBytes by_).2.1 (Nat.lt_irrefl 0)
    · have := last_le content more
      omega
  constructor
  · refine fun truth => ⟨fun only => ?_, fun overlong => short ⟨overlong.1 ▸ Nat.one_pos, overlong.2⟩⟩
    obtain ⟨feed, allowed, bytes⟩ := only
    have exact_ : size (tailLines content) = maxBytes := by
      rcases size_tailLines content with ⟨_, open_⟩ | ⟨same, _⟩
      · exact absurd feed open_
      · omega
    have all : k = (tailLines content).length := by
      cases by_ : state.truncatedBy with
      | lines => rcases byLines by_ with same | same <;> omega
      | bytes =>
        obtain ⟨more, _, exceeds⟩ := byBytes by_
        have most := @size_lastLines_mono content (k + 1) (tailLines content).length more
        rw [lastLines_length] at most
        omega
    have label : (cutResult content maxLines maxBytes state).truncatedBy = some .lines := by
      rw [limit]
      split
      · rfl
      · cases by_ : state.truncatedBy with
        | lines => rfl
        | bytes =>
          have := (byBytes by_).1
          omega
    have := (truth.byLines label).2
    omega
  · rintro ⟨notOnly, _⟩
    have left : state.truncatedBy = .lines ∨ maxLines ≤ k → k = maxLines ∧ k < (tailLines content).length := by
      intro either
      have less : k < (tailLines content).length := by
        by_contra all
        obtain rfl : k = (tailLines content).length := by omega
        rw [lastLines_length] at fits
        rcases size_tailLines content with ⟨same, _⟩ | ⟨same, feed⟩
        · exact unfit ⟨few, by omega⟩
        · refine notOnly ⟨feed, few, ?_⟩
          by_contra differs
          exact unfit ⟨few, by omega⟩
      refine ⟨?_, less⟩
      rcases either with by_ | full
      · rcases byLines by_ with same | same <;> omega
      · omega
    refine ⟨fun all => absurd all unfit, fun _ _ => ?_, ?_, fun cut => ?_, ?_, ?_, fun j more allowed within => ?_, ?_, ?_,
      fun label => ?_, fun label => ?_, rfl, rfl, rfl, rfl⟩
    · rw [outputs, content_]
      exact ⟨rfl, isTail_lastLines content k⟩
    · exact ⟨fun cut => absurd (cut.symm.trans complete) (by decide), fun exceeds => absurd exceeds short⟩
    · exact absurd (cut.symm.trans complete) (by decide)
    · rw [outputs]
      exact ⟨few, bound⟩
    · rw [content_]
      exact fits
    · rw [whole] at more
      cases by_ : state.truncatedBy with
      | lines => rcases byLines by_ with same | same <;> omega
      | bytes => exact lt_of_lt_of_le (byBytes by_).2.2 (size_lastLines_mono content more)
    · exact ⟨fun _ => unfit, fun _ => rfl⟩
    · exact ⟨nofun, nofun⟩
    · rw [whole]
      apply left
      rw [limit, Option.some.injEq] at label
      split at label
      · next full => exact .inr full
      · exact .inl label
    · rw [limit, Option.some.injEq] at label
      split at label
      · cases label
      · obtain ⟨less, _, exceeds⟩ := byBytes label
        have most := @size_lastLines_mono content (k + 1) (tailLines content).length less
        rw [lastLines_length] at most
        rw [whole]
        exact ⟨lt_of_lt_of_le exceeds (most.trans (size_le_bytes content)), fun _ => exceeds⟩

/-- The tail is the end of its last line: the account is true unless one line is allowed. -/
private theorem tailTruth_cut (unfit : ¬ Fits content maxLines maxBytes) (some_ : 0 < maxLines)
    (exceeds : maxBytes < utf8ByteLength ((tailLines content).getLastD []))
    (lines : state.outputLinesArr = [truncateStringToBytesFromEnd ((tailLines content).getLastD []) maxBytes])
    (count : state.outputBytesCount =
      utf8ByteLength (truncateStringToBytesFromEnd ((tailLines content).getLastD []) maxBytes))
    (by_ : state.truncatedBy = .bytes) (cut : state.lastLinePartial = true) :
    TailTruth content maxLines maxBytes (cutResult content maxLines maxBytes state) ↔
      ¬ OnlyLineFeed content maxLines maxBytes ∧ ¬ OverlongLine content maxLines maxBytes := by
  have isCut := isCut_truncateStringToBytesFromEnd ((tailLines content).getLastD []) maxBytes
  have whole : wholeLines (cutResult content maxLines maxBytes state) = 0 := by
    rw [wholeLines, cutResult, cut]
    rfl
  have outputs : (cutResult content maxLines maxBytes state).outputLines = 1 := by
    rw [cutResult, lines, List.length_singleton]
  have content_ : (cutResult content maxLines maxBytes state).content =
      truncateStringToBytesFromEnd ((tailLines content).getLastD []) maxBytes := by
    rw [cutResult, lines, join, List.intercalate_singleton]
  have limit : (cutResult content maxLines maxBytes state).truncatedBy =
      some (if maxLines ≤ 1 then .lines else .bytes) := by
    simp only [cutResult, lines, List.length_singleton, count, isCut.fits, and_true, by_]
  have length := List.length_pos_of_ne_nil (tailLines_ne_nil content)
  have most := last_le content length
  rw [lastLines_length] at most
  constructor
  · refine fun truth => ⟨fun only => ?_, fun overlong => ?_⟩
    · obtain ⟨feed, _, bytes⟩ := only
      rcases size_tailLines content with ⟨_, open_⟩ | ⟨same, _⟩
      · exact absurd feed open_
      · omega
    · have label : (cutResult content maxLines maxBytes state).truncatedBy = some .lines := by
        rw [limit, if_pos overlong.1.le]
      have := (truth.byLines label).1
      have := overlong.1
      omega
  · rintro ⟨_, notOverlong⟩
    have several : ¬ maxLines ≤ 1 := fun one => notOverlong ⟨by omega, exceeds⟩
    rw [if_neg several] at limit
    refine ⟨fun all => absurd all unfit, fun _ complete => absurd (cut.symm.trans complete) (by decide),
      ⟨fun _ => ⟨some_, exceeds⟩, fun _ => cut⟩, fun _ => ?_, ?_, ?_, fun j more _ _ => ?_, ?_, ?_, fun label => ?_,
      fun label => ?_, rfl, rfl, rfl, rfl⟩
    · rw [content_]
      exact ⟨isCut, outputs⟩
    · rw [outputs]
      exact ⟨some_, length⟩
    · rw [content_]
      exact isCut.fits
    · rw [whole] at more
      exact lt_of_lt_of_le exceeds (last_le content more)
    · exact ⟨fun _ => unfit, fun _ => rfl⟩
    · exact ⟨fun same => (by cases same), fun same => by cases same⟩
    · rw [limit] at label
      cases label
    · rw [whole]
      exact ⟨lt_of_lt_of_le exceeds (most.trans (size_le_bytes content)),
        fun _ => lt_of_lt_of_le exceeds (last_le content Nat.one_pos)⟩

/-- The account of the tail is true except in the two cases. -/
private theorem tailTruth_iff (content : JsString) (options : TruncationOptions) :
    TailTruth content options.lineLimit options.byteLimit (truncateTail content options) ↔
      ¬ OnlyLineFeed content options.lineLimit options.byteLimit ∧
        ¬ OverlongLine content options.lineLimit options.byteLimit := by
  by_cases fits : Fits content options.lineLimit options.byteLimit
  · have truth := tailTruth_fits content _ _ fits
    have same : truncateTail content options =
        untruncated content (tailLines content).length options.lineLimit options.byteLimit := by
      unfold truncateTail
      exact if_pos fits
    rw [same]
    refine ⟨fun _ => ⟨fun only => ?_, fun overlong => ?_⟩, fun _ => truth⟩
    · have := only.2.2
      have := fits.2
      omega
    · have length := List.length_pos_of_ne_nil (tailLines_ne_nil content)
      have most := last_le content length
      rw [lastLines_length] at most
      have := overlong.2
      have := fits.2
      have := size_le_bytes content
      omega
  · rw [truncateTail_over content options fits]
    generalize options.lineLimit = maxLines at fits ⊢
    generalize options.byteLimit = maxBytes at fits ⊢
    have ends := @collectTail_spec maxLines maxBytes [] (tailLines content).reverse (Nat.zero_le _) (Nat.zero_le _)
    rw [size_nil] at ends
    generalize collectTail maxLines maxBytes (tailLines content).reverse [] 0 = state at ends ⊢
    cases ends with
    | whole k bound lines count small few complete byLines byBytes =>
      rw [List.length_reverse] at bound byLines byBytes
      rw [List.append_nil, reverse_take_reverse] at lines byBytes
      have length : state.outputLinesArr.length = k := by
        rw [lines, lastLines, List.length_drop]
        omega
      rw [length] at few byLines
      refine tailTruth_whole fits bound lines count small few complete byLines fun by_ => ?_
      obtain ⟨less, some_, exceeds⟩ := byBytes by_
      exact ⟨less, length ▸ List.length_pos_of_ne_nil some_, exceeds⟩
    | cut line others last first some_ exceeds lines count by_ cut =>
      have same : (tailLines content).getLastD [] = line := by
        rw [List.getLastD_eq_getLast?, List.getLast?_eq_head?_reverse, last, List.head?_cons, Option.getD_some]
      rw [← same] at exceeds lines count
      exact tailTruth_cut fits some_ exceeds lines count by_ cut

end Tail

/-- Both truncations keep what the limits allow and report it truly, exactly when it is not the final line feed alone that
is too much, and not one over-long line where one line is allowed. -/
theorem truthful_iff (content : JsString) (options : TruncationOptions) :
    (HeadTruth content options.lineLimit options.byteLimit (truncateHead content options) ∧
        TailTruth content options.lineLimit options.byteLimit (truncateTail content options)) ↔
      ¬ OnlyLineFeed content options.lineLimit options.byteLimit ∧
        ¬ OverlongLine content options.lineLimit options.byteLimit :=
  (and_iff_right (headTruth content options)).trans (tailTruth_iff content options)

/-- Four letters and a line feed, in five lines and four bytes, are cut by the limit of bytes, which the result puts down
to the limit of lines; so are six letters in one line and three bytes. -/
theorem blames_lines :
    (truncateTail (js "aaaa\n") ⟨some 5, some 4⟩).truncatedBy = some .lines ∧
      (truncateTail (js "abcdef") ⟨some 1, some 3⟩).truncatedBy = some .lines ∧
      ¬ TailTruth (js "aaaa\n") 5 4 (truncateTail (js "aaaa\n") ⟨some 5, some 4⟩) ∧
      ¬ TailTruth (js "abcdef") 1 3 (truncateTail (js "abcdef") ⟨some 1, some 3⟩) := by
  have first : (truncateTail (js "aaaa\n") ⟨some 5, some 4⟩).truncatedBy = some .lines := by decide
  have second : (truncateTail (js "abcdef") ⟨some 1, some 3⟩).truncatedBy = some .lines := by decide
  refine ⟨first, second, fun truth => ?_, fun truth => ?_⟩
  · exact absurd (truth.byLines first).1 (by decide)
  · exact absurd (truth.byLines second).1 (by decide)

end PieAgent.Soundness.TruncatedOutput
