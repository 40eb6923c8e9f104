import PieAgent.JavaScript.Proofs.Characters
import PieAgent.Model.Ui.Feed
import PieAgent.Proofs.Tui.TextWidth

/-! # The rows of the feed fit

When a row is broken at its last space, what stands behind the space is carried over to the next row and the character that
did not fit is appended without another test. The carried part is narrower than a row by what stands before the break, so
the new row is too wide exactly when the character is wider than that.
-/

namespace PieAgent.Soundness.FeedRows

open JavaScript Model Tui.TextWidth Feed

variable {unicode : Unicode} {text front back : JsString} {chars more : List JsString} {w limit : ℕ}

section Characters

/-- The characters of a string, in a list. -/
private def Aligned (chars : List JsString) : Prop := characters chars.flatten = chars

private theorem aligned_characters (text : JsString) : Aligned (characters text) := by
  rw [Aligned, flatten_characters]

private theorem Aligned.left (aligned : Aligned (chars ++ more)) : Aligned chars := by
  have taken := characters_take (chars ++ more).flatten chars.length
  rwa [aligned, List.take_left] at taken

private theorem Aligned.right (aligned : Aligned (chars ++ more)) : Aligned more := by
  have dropped := characters_drop (chars ++ more).flatten chars.length
  rwa [aligned, List.drop_left] at dropped

private theorem Aligned.push {ch : JsString} (aligned : Aligned (characters text ++ ch :: more)) :
    characters (text ++ ch) = characters text ++ [ch] := by
  rw [List.append_cons] at aligned
  have both := aligned.left
  rwa [Aligned, List.flatten_append, flatten_characters, List.flatten_singleton] at both

private theorem separate_white {white : JsString} (blank : ∀ unit ∈ white, isWhitespace unit.toNat = true) :
    Separate front white :=
  separate_of_start fun unit first => by
    have space := blank unit (List.mem_of_mem_head? first)
    by_contra low
    simp only [isWhitespace, Bool.or_eq_true, Bool.and_eq_true, decide_eq_true_eq, beq_iff_eq] at space
    simp only [isLowSurrogate, Bool.not_eq_false, Bool.and_eq_true, decide_eq_true_eq, UInt16.le_iff_toNat_le,
      UInt16.lt_iff_toNat_lt, UInt16.reduceToNat] at low
    omega

private theorem separate_space : Separate (front ++ js " ") back :=
  separate_of_end fun unit last => by
    have same : (front ++ js " ").getLast? = some 0x20 := List.getLast?_concat
    obtain rfl := Option.some.inj (same.symm.trans last)
    decide

private theorem strWidth_append (separate : Separate front back) :
    strWidth unicode (front ++ back) = strWidth unicode front + strWidth unicode back := by
  rw [strWidth, characters_append separate, List.map_append, List.sum_append]
  rfl

private theorem charWidth_space : charWidth unicode (js " ") = 1 := by
  have code : codePoint (js " ") = 0x20 := by decide
  rw [charWidth, code]
  rfl

private theorem strWidth_space : strWidth unicode (js " ") = 1 := by
  have one : characters (js " ") = [js " "] := by decide
  rw [strWidth, one, List.map_singleton, charWidth_space]
  rfl

/-- What is removed from the end of a text. -/
private def trailing (text : JsString) : JsString := text.rtakeWhile fun unit => isWhitespace unit.toNat

private theorem white_trailing {unit : CodeUnit} (inside : unit ∈ trailing text) : isWhitespace unit.toNat = true :=
  List.mem_rtakeWhile_imp (p := fun unit : CodeUnit => isWhitespace unit.toNat) inside

private theorem trimEnd_append_trailing (text : JsString) : trimEnd text ++ trailing text = text :=
  List.rdropWhile_append_rtakeWhile ..

private theorem strWidth_trimEnd_le (text : JsString) : strWidth unicode (trimEnd text) ≤ strWidth unicode text := by
  have whole := congrArg (strWidth unicode) (trimEnd_append_trailing text)
  rw [strWidth_append (separate_white fun unit => white_trailing)] at whole
  omega

/-- A text is the spaces that are removed from its start, and the rest. -/
private theorem exists_spaces (text : JsString) : ∃ count, text = List.replicate count 0x20 ++ trimStartSpaces text := by
  induction text with
  | nil => exact ⟨0, rfl⟩
  | cons unit text ih =>
    by_cases space : unit = 0x20
    · obtain ⟨count, split⟩ := ih
      refine ⟨count + 1, ?_⟩
      rw [trimStartSpaces, List.dropWhile_cons_of_pos (by simpa using space), List.replicate_succ, List.cons_append, space]
      exact congrArg _ split
    · exact ⟨0, by rw [trimStartSpaces, List.dropWhile_cons_of_neg (by simpa using space)]; rfl⟩

private theorem characters_trimStart (text : JsString) :
    ∃ spaces, characters text = spaces ++ characters (trimStartSpaces text) := by
  obtain ⟨count, split⟩ := exists_spaces text
  have separate : Separate (List.replicate count 0x20) (trimStartSpaces text) := separate_of_end fun unit last => by
    obtain rfl := List.eq_of_mem_replicate (List.mem_of_getLast? last)
    decide
  have parts := characters_append separate
  rw [← split] at parts
  exact ⟨_, parts⟩

private theorem strWidth_trimStart_le (text : JsString) :
    strWidth unicode (trimStartSpaces text) ≤ strWidth unicode text := by
  obtain ⟨spaces, parts⟩ := characters_trimStart text
  rw [strWidth, strWidth, parts, List.map_append, List.sum_append]
  exact Nat.le_add_left _ _

end Characters

section Texts

/-- A text without its white space. -/
def withoutWhite (text : JsString) : JsString := text.filter fun unit => !isWhitespace unit.toNat

private theorem withoutWhite_append (front back : JsString) :
    withoutWhite (front ++ back) = withoutWhite front ++ withoutWhite back :=
  List.filter_append ..

private theorem withoutWhite_trimEnd (text : JsString) : withoutWhite (trimEnd text) = withoutWhite text := by
  have blank : withoutWhite (trailing text) = [] :=
    List.filter_eq_nil_iff.mpr fun unit inside => by simp [white_trailing inside]
  have whole := congrArg withoutWhite (trimEnd_append_trailing text)
  rwa [withoutWhite_append, blank, List.append_nil] at whole

private theorem withoutWhite_trimStart (text : JsString) : withoutWhite (trimStartSpaces text) = withoutWhite text := by
  obtain ⟨count, split⟩ := exists_spaces text
  have blank : withoutWhite (List.replicate count 0x20) = [] :=
    List.filter_eq_nil_iff.mpr fun unit inside => by
      rw [List.eq_of_mem_replicate inside]
      decide
  have whole := congrArg withoutWhite split
  rw [withoutWhite_append, blank, List.nil_append] at whole
  exact whole.symm

/-- The text that has been taken up. -/
private def taken (st : Wrapping) : JsString := withoutWhite (st.rows.flatten ++ st.cur)

private theorem taken_breakRow (st : Wrapping) : taken (breakRow unicode st) = taken st := by
  rw [breakRow]
  cases st.lastSpace with
  | none => simp only [taken, List.flatten_append, List.flatten_singleton, List.append_nil]
  | some bp =>
    simp only [taken, List.flatten_append, List.flatten_singleton, withoutWhite_append, withoutWhite_trimEnd,
      withoutWhite_trimStart]
    rw [List.append_assoc, ← withoutWhite_append (st.cur.take bp), List.take_append_drop]

private theorem taken_wrapChar (st : Wrapping) (ch : JsString) :
    taken (wrapChar unicode w st ch) = taken st ++ withoutWhite ch := by
  have push (st : Wrapping) : taken (pushChar unicode st ch) = taken st ++ withoutWhite ch := by
    simp only [taken, pushChar, withoutWhite_append, List.append_assoc]
  rw [wrapChar]
  split
  · rw [push, taken_breakRow]
  · exact push st

private theorem taken_foldl (st : Wrapping) (chars : List JsString) :
    taken (chars.foldl (wrapChar unicode w) st) = taken st ++ withoutWhite chars.flatten := by
  induction chars generalizing st with
  | nil => exact (List.append_nil _).symm
  | cons ch chars ih =>
    rw [List.foldl_cons, ih, taken_wrapChar, List.flatten_cons, withoutWhite_append, List.append_assoc]

end Texts

section Rows

variable (unicode limit) in
/-- The row is broken at its last space, and what is carried over is too wide together with the next character. -/
def Overflows (st : Wrapping) (ch : JsString) : Prop :=
  max limit 1 < st.curW + charWidth unicode ch ∧ ∃ bp, st.lastSpace = some bp ∧
    max limit 1 < strWidth unicode (trimStartSpaces (st.cur.drop bp)) + charWidth unicode ch

/-- The row that is being filled, in front of the characters that are left. -/
private structure Row (unicode : Unicode) (more : List JsString) (st : Wrapping) : Prop where
  aligned : Aligned (characters st.cur ++ more)
  width : st.curW = strWidth unicode st.cur
  space : ∀ bp, st.lastSpace = some bp → bp ≤ st.cur.length ∧ ∃ front, st.cur.take bp = front ++ js " "

/-- No row so far is too wide. -/
private structure Fits (unicode : Unicode) (limit : ℕ) (st : Wrapping) : Prop where
  rows : ∀ row ∈ st.rows, strWidth unicode row ≤ limit
  cur : st.curW ≤ limit

variable {st : Wrapping} {ch : JsString}

private theorem Row.split (row : Row unicode more st) {bp : ℕ} (space : st.lastSpace = some bp) :
    strWidth unicode st.cur = strWidth unicode (st.cur.take bp) + strWidth unicode (st.cur.drop bp) ∧
      1 ≤ strWidth unicode (st.cur.take bp) := by
  obtain ⟨_, front, ends⟩ := row.space bp space
  have whole := @strWidth_append unicode _ _ (@separate_space front (st.cur.drop bp))
  rw [← ends, List.take_append_drop] at whole
  refine ⟨whole, ?_⟩
  rw [ends, strWidth_append (separate_white fun unit inside => ?_), strWidth_space]
  · exact Nat.le_add_left _ _
  · rw [List.mem_singleton.mp inside]
    decide

private theorem Row.pushChar (row : Row unicode (ch :: more) st) : Row unicode more (pushChar unicode st ch) := by
  have chars := row.aligned.push
  refine ⟨?_, ?_, fun bp found => ?_⟩
  · rw [Feed.pushChar, chars, List.append_assoc]
    exact row.aligned
  · simp only [Feed.pushChar]
    rw [strWidth, chars, List.map_append, List.sum_append, List.map_singleton, List.sum_singleton, row.width]
    rfl
  · simp only [Feed.pushChar] at found ⊢
    split at found
    · next same =>
      obtain rfl := Option.some.inj found
      exact ⟨le_rfl, st.cur, by rw [List.take_length, same]⟩
    · obtain ⟨bound, front, ends⟩ := row.space bp found
      refine ⟨?_, front, by rw [List.take_append_of_le_length bound, ends]⟩
      rw [List.length_append]
      omega

private theorem Row.breakRow (row : Row unicode more st) : Row unicode more (breakRow unicode st) := by
  rw [Feed.breakRow]
  cases space : st.lastSpace with
  | none => exact ⟨row.aligned.right, rfl, nofun⟩
  | some bp =>
    refine ⟨?_, rfl, nofun⟩
    obtain ⟨_, front, ends⟩ := row.space bp space
    obtain ⟨spaces, parts⟩ := characters_trimStart (st.cur.drop bp)
    have whole := characters_append (@separate_space front (st.cur.drop bp))
    rw [← ends, List.take_append_drop, parts] at whole
    have aligned := row.aligned
    rw [whole, List.append_assoc, List.append_assoc] at aligned
    exact aligned.right.right

private theorem Row.wrapChar (row : Row unicode (ch :: more) st) : Row unicode more (wrapChar unicode w st ch) := by
  rw [Feed.wrapChar]
  split
  · exact row.breakRow.pushChar
  · exact row.pushChar

private theorem ne_nil_of_curW (row : Row unicode more st) (wide : 0 < st.curW) : st.cur ≠ [] := by
  intro empty
  rw [row.width, empty] at wide
  exact absurd wide (lt_irrefl 0)

/-- A step that does not overflow keeps the rows narrow. -/
private theorem Fits.wrapChar (fits : Fits unicode limit st) (row : Row unicode (ch :: more) st)
    (wide : charWidth unicode ch ≤ limit) (carried : ¬ Overflows unicode limit st ch) :
    Fits unicode limit (wrapChar unicode (max limit 1) st ch) := by
  have cur := fits.cur
  rw [Feed.wrapChar]
  split
  · next full =>
    cases space : st.lastSpace with
    | none =>
      rw [breakRow, space]
      refine ⟨?_, ?_⟩
      · refine List.forall_mem_append.mpr ⟨fits.rows, List.forall_mem_singleton.mpr ?_⟩
        rwa [← row.width]
      · simpa [Feed.pushChar] using wide
    | some bp =>
      rw [breakRow, space]
      obtain ⟨parts, _⟩ := row.split space
      refine ⟨?_, ?_⟩
      · refine List.forall_mem_append.mpr ⟨fits.rows, List.forall_mem_singleton.mpr ?_⟩
        have trimmed := @strWidth_trimEnd_le unicode (st.cur.take bp)
        rw [row.width] at cur
        omega
      · have narrow : ¬ max limit 1 < strWidth unicode (trimStartSpaces (st.cur.drop bp)) + charWidth unicode ch :=
          fun excess => carried ⟨full.1, bp, space, excess⟩
        have rest := @strWidth_trimStart_le unicode (st.cur.drop bp)
        rw [row.width] at cur
        simp only [Feed.pushChar]
        omega
  · next free =>
    refine ⟨fits.rows, ?_⟩
    simp only [Feed.pushChar]
    by_cases empty : st.cur = []
    · have nothing : st.curW = 0 := by rw [row.width, empty]; rfl
      omega
    · have room : ¬ max limit 1 < st.curW + charWidth unicode ch := fun full => free ⟨full, empty⟩
      omega

/-- A row that is too wide and has no space. -/
private structure Stuck (unicode : Unicode) (limit : ℕ) (st : Wrapping) : Prop where
  wide : max limit 1 < strWidth unicode st.cur
  width : st.curW = strWidth unicode st.cur
  noSpace : st.lastSpace = none

private theorem Overflows.stuck (excess : Overflows unicode limit st ch) (fits : Fits unicode limit st)
    (row : Row unicode (ch :: more) st) : Stuck unicode limit (wrapChar unicode (max limit 1) st ch) := by
  obtain ⟨full, bp, space, excess⟩ := excess
  obtain ⟨parts, one⟩ := row.split space
  have cur := fits.cur
  have nonempty := ne_nil_of_curW row (by rw [row.width]; omega)
  have rest := @strWidth_trimStart_le unicode (st.cur.drop bp)
  have after : Row unicode more (wrapChar unicode (max limit 1) st ch) := row.wrapChar
  have shape : wrapChar unicode (max limit 1) st ch = pushChar unicode (breakRow unicode st) ch := by
    rw [Feed.wrapChar, if_pos ⟨full, nonempty⟩]
  rw [row.width] at cur
  have letter : ch ≠ js " " := by
    rintro rfl
    rw [charWidth_space] at excess
    omega
  refine ⟨?_, after.width, ?_⟩
  · rw [← after.width, shape, breakRow, space]
    exact excess
  · rw [shape, breakRow, space]
    exact if_neg letter

private theorem rows_subset (chars : List JsString) (st : Wrapping) :
    st.rows ⊆ (chars.foldl (wrapChar unicode w) st).rows := by
  induction chars generalizing st with
  | nil => exact List.Subset.refl _
  | cons ch chars ih =>
    refine List.Subset.trans ?_ (ih _)
    rw [Feed.wrapChar]
    split
    · rw [breakRow]
      split
      · exact List.subset_append_left _ _
      · exact List.subset_append_left _ _
    · exact List.Subset.refl _

/-- The rows at the end of the text. -/
private def allRows (st : Wrapping) : List JsString := st.rows ++ [st.cur]

/-- A row without a space is not broken anymore. -/
private theorem Stuck.exists_wide (stuck : Stuck unicode limit st) (chars : List JsString) :
    ∃ row ∈ allRows (chars.foldl (wrapChar unicode (max limit 1)) st), max limit 1 < strWidth unicode row := by
  refine ⟨st.cur, ?_, stuck.wide⟩
  cases chars with
  | nil => exact List.mem_append_right _ (List.mem_singleton_self _)
  | cons ch chars =>
    have nonempty : st.cur ≠ [] := fun empty => by
      have wide := stuck.wide
      rw [empty] at wide
      exact absurd wide (Nat.not_lt_zero _)
    have full : max limit 1 < st.curW + charWidth unicode ch := by
      have wide := stuck.wide
      rw [← stuck.width] at wide
      omega
    refine List.mem_append_left _ (rows_subset chars _ ?_)
    rw [Feed.wrapChar, if_pos ⟨full, nonempty⟩, breakRow, stuck.noSpace]
    exact List.mem_append_right _ (List.mem_singleton_self _)

variable (unicode limit) in
/-- No step from the state on overflows. -/
def NoOverflow (st : Wrapping) (chars : List JsString) : Prop :=
  ∀ before ch after, chars = before ++ ch :: after →
    ¬ Overflows unicode limit (before.foldl (wrapChar unicode (max limit 1)) st) ch

private theorem noOverflow_cons : NoOverflow unicode limit st (ch :: more) ↔
    ¬ Overflows unicode limit st ch ∧ NoOverflow unicode limit (wrapChar unicode (max limit 1) st ch) more := by
  constructor
  · intro all
    refine ⟨all [] ch more rfl, fun before ch' after split => ?_⟩
    exact all (ch :: before) ch' after (congrArg (ch :: ·) split)
  · rintro ⟨first, others⟩ before ch' after split
    cases before with
    | nil =>
      obtain ⟨rfl, _⟩ := List.cons.inj split
      exact first
    | cons head before =>
      obtain ⟨rfl, rest⟩ := List.cons.inj split
      exact others before ch' after rest

/-- From a state with narrow rows on, the rows are narrow exactly when no step overflows. -/
private theorem allRows_fit_iff (fits : Fits unicode limit st) (row : Row unicode chars st)
    (wide : ∀ ch ∈ chars, charWidth unicode ch ≤ limit) :
    (∀ row ∈ allRows (chars.foldl (wrapChar unicode (max limit 1)) st), strWidth unicode row ≤ limit) ↔
      NoOverflow unicode limit st chars := by
  induction chars generalizing st with
  | nil =>
    refine ⟨fun _ before ch after split => by simp at split, fun _ => ?_⟩
    refine List.forall_mem_append.mpr ⟨fits.rows, List.forall_mem_singleton.mpr ?_⟩
    rw [List.foldl_nil, ← row.width]
    exact fits.cur
  | cons ch chars ih =>
    obtain ⟨first, others⟩ := List.forall_mem_cons.mp wide
    rw [noOverflow_cons, List.foldl_cons]
    by_cases excess : Overflows unicode limit st ch
    · refine ⟨fun narrow => ?_, fun both => absurd excess both.1⟩
      obtain ⟨found, inside, tooWide⟩ := (excess.stuck fits row).exists_wide chars
      have bound := narrow found inside
      omega
    · rw [ih (fits.wrapChar row first excess) row.wrapChar others]
      exact (and_iff_right excess).symm

end Rows

/-- The loop before the first character. -/
def start : Wrapping := ⟨[], [], 0, none⟩

private theorem fits_start : Fits unicode limit start := ⟨fun _ inside => absurd inside List.not_mem_nil, Nat.zero_le _⟩

private theorem row_start (text : JsString) : Row unicode (characters text) start :=
  ⟨aligned_characters text, rfl, fun _ found => by cases found⟩

private theorem wrapStr_eq (text : JsString) (width : ℕ) :
    wrapStr unicode text width = allRows ((characters text).foldl (wrapChar unicode (max width 1)) start) := by
  rw [wrapStr]
  split
  · next empty =>
    rw [empty]
    rfl
  · rfl

/-- The text is kept, and the rows fit exactly when no part that is carried over is too wide together with the character
behind it. -/
theorem feed_rows_fit_iff (text : JsString) (width : ℕ)
    (wide : ∀ ch ∈ characters text, charWidth unicode ch ≤ width) :
    ((∀ row ∈ wrapStr unicode text width, strWidth unicode row ≤ width) ∧
        withoutWhite (wrapStr unicode text width).flatten = withoutWhite text) ↔
      NoOverflow unicode width start (characters text) := by
  have kept := @taken_foldl unicode (max width 1) start (characters text)
  rw [flatten_characters] at kept
  rw [wrapStr_eq, allRows_fit_iff fits_start (row_start text) wide]
  refine and_iff_left ?_
  rw [allRows, List.flatten_append, List.flatten_singleton]
  exact kept

/-- A library for which the ideographs take two columns. -/
def cjk : Unicode where
  __ := simple
  eastAsianWidth code := if 0x4E00 ≤ code ∧ code ≤ 0x9FFF then 2 else 1
  printable code least most := by
    refine ⟨(simple.printable code least most).1, (simple.printable code least most).2.1, if_neg ?_⟩
    omega

theorem feed_rows_fit_ideograph :
    ((∀ row ∈ wrapStr cjk (js "ab 世") 4, strWidth cjk row ≤ 4) ∧
        withoutWhite (wrapStr cjk (js "ab 世") 4).flatten = withoutWhite (js "ab 世")) ↔
      NoOverflow cjk 4 start (characters (js "ab 世")) :=
  feed_rows_fit_iff (js "ab 世") 4 (by decide)

/-- The space at the start of a row is one column, and the character that comes in its place takes two. -/
theorem ideograph_overflows_row :
    (∀ ch ∈ characters (js " abc世"), charWidth cjk ch ≤ 4) ∧
      wrapStr cjk (js " abc世") 4 = [[], js "abc世"] ∧ strWidth cjk (js "abc世") = 5 := by
  refine ⟨by decide, by decide, by decide⟩

end PieAgent.Soundness.FeedRows
