import Mathlib.Data.List.TakeDrop
import PieAgent.JavaScript.Proofs.StringLiterals

/-! # `JSON.stringify` writes one line

The text of a value holds no control characters: a string escapes them, and nothing else could bring one
in. In particular the text of a value is never broken by a line feed.
-/

namespace JavaScript

/-- No character of the text is a control character. -/
def SingleLine (text : List Char) : Prop := ∀ c ∈ text, 0x20 ≤ c.toNat

theorem singleLine_nil : SingleLine [] := fun _ member => absurd member List.not_mem_nil

theorem SingleLine.append {front back : List Char} (first : SingleLine front) (second : SingleLine back) :
    SingleLine (front ++ back) := fun c member =>
  (List.mem_append.mp member).elim (first c) (second c)

theorem SingleLine.cons {c : Char} {text : List Char} (first : 0x20 ≤ c.toNat) (rest : SingleLine text) :
    SingleLine (c :: text) := by
  rintro d (_ | ⟨_, member⟩)
  · exact first
  · exact rest d member

theorem SingleLine.notMem {text : List Char} (single : SingleLine text) : '\n' ∉ text := fun member =>
  absurd (single '\n' member) (by decide)

private theorem singleLine_of_all {text : List Char} (all : text.all (fun c => 0x20 ≤ c.toNat) = true) :
    SingleLine text := fun c member =>
  of_decide_eq_true (List.all_eq_true.mp all c member)

section Numbers

private theorem singleLine_spanDigits (text : List Char) : SingleLine (spanDigits text).1 := by
  intro c member
  rw [spanDigits, List.span_eq_takeWhile_dropWhile] at member
  have digit := List.mem_takeWhile_imp member
  simp only [isDigit, Bool.and_eq_true, decide_eq_true_eq] at digit
  exact le_trans (by decide) (show '0'.toNat ≤ c.toNat from digit.1)

private theorem singleLine_scanInteger? {text integer rest : List Char}
    (scanned : scanInteger? text = some (integer, rest)) : SingleLine integer := by
  unfold scanInteger? at scanned
  split at scanned
  · cases scanned
    exact SingleLine.cons (by decide) singleLine_nil
  · next c tail _ =>
    obtain ⟨digit, same⟩ := Option.ite_none_right_eq_some.mp scanned
    cases same
    simp only [isDigit, Bool.and_eq_true, decide_eq_true_eq] at digit
    exact .cons (le_trans (by decide) (show '0'.toNat ≤ c.toNat from digit.1)) (singleLine_spanDigits tail)
  · cases scanned

private theorem singleLine_scanFraction? {text fraction rest : List Char}
    (scanned : scanFraction? text = some (fraction, rest)) : SingleLine fraction := by
  unfold scanFraction? at scanned
  split at scanned
  · next tail =>
    obtain ⟨_, same⟩ := Option.ite_none_left_eq_some.mp scanned
    cases same
    exact .cons (by decide) (singleLine_spanDigits tail)
  · cases scanned
    exact singleLine_nil

private theorem singleLine_scanSign (text : List Char) : SingleLine (scanSign text).1 := by
  unfold scanSign
  split
  · exact SingleLine.cons (by decide) singleLine_nil
  · exact SingleLine.cons (by decide) singleLine_nil
  · exact singleLine_nil

private theorem singleLine_scanExponent? {text exponent rest : List Char}
    (scanned : scanExponent? text = some (exponent, rest)) : SingleLine exponent := by
  cases text with
  | nil =>
    cases scanned
    exact singleLine_nil
  | cons c tail =>
    rw [scanExponent?] at scanned
    split at scanned
    · next marker =>
      obtain ⟨_, same⟩ := Option.ite_none_left_eq_some.mp scanned
      cases same
      refine SingleLine.append (SingleLine.cons ?_ (singleLine_scanSign tail)) (singleLine_spanDigits _)
      rcases (by simpa using marker : c = 'e' ∨ c = 'E') with rfl | rfl <;> decide
    · cases scanned
      exact singleLine_nil

private theorem singleLine_scanUnsigned? {text literal rest : List Char}
    (scanned : scanUnsigned? text = some (literal, rest)) : SingleLine literal := by
  obtain ⟨⟨integer, one⟩, first, scanned⟩ := Option.bind_eq_some_iff.mp scanned
  obtain ⟨⟨fraction, two⟩, second, scanned⟩ := Option.bind_eq_some_iff.mp scanned
  obtain ⟨⟨exponent, three⟩, third, same⟩ := Option.map_eq_some_iff.mp scanned
  cases same
  exact .append (.append (singleLine_scanInteger? first) (singleLine_scanFraction? second))
    (singleLine_scanExponent? third)

private theorem singleLine_literal (literal : NumberLiteral) : SingleLine literal.val := by
  have scanned := literal.property
  unfold scanNumber? at scanned
  split at scanned
  · obtain ⟨⟨body, left⟩, read, same⟩ := Option.map_eq_some_iff.mp scanned
    rw [← (Prod.mk.inj same).1]
    exact .cons (by decide) (singleLine_scanUnsigned? read)
  · exact singleLine_scanUnsigned? scanned

end Numbers

section StringLiterals

private theorem hexDigit_printable : ∀ n < 16, 0x20 ≤ (hexDigit n).toNat := by decide

private theorem singleLine_unicodeEscape (unit : CodeUnit) : SingleLine (unicodeEscape unit) := by
  have digit (n : ℕ) : 0x20 ≤ (hexDigit (n % 16)).toNat := hexDigit_printable _ (Nat.mod_lt _ (by decide))
  exact .cons (by decide) (.cons (by decide) (.cons (digit _) (.cons (digit _) (.cons (digit _) (.cons (digit _) singleLine_nil)))))

private theorem singleLine_escape {c : Char} (printable : 0x20 ≤ c.toNat) : SingleLine ['\\', c] :=
  .cons (by decide) (.cons printable singleLine_nil)

private theorem singleLine_quoteUnit (unit : CodeUnit) : SingleLine (quoteUnit unit) := by
  unfold quoteUnit
  iterate 7
    split
    · exact singleLine_escape (by decide)
  split
  · exact singleLine_unicodeEscape unit
  · next plain =>
    simp only [Bool.or_eq_true, not_or, Bool.not_eq_true] at plain
    obtain ⟨⟨visible, high⟩, low⟩ := plain
    refine SingleLine.cons ?_ singleLine_nil
    rw [(utf16_ofNat high low).1]
    exact Nat.le_of_not_lt (by simpa [UInt16.lt_iff_toNat_lt] using visible)

private theorem singleLine_quoteBody (text : JsString) : SingleLine (quoteBody text) := by
  induction text using quoteBody.induct with
  | case1 => exact singleLine_nil
  | case2 unit => exact singleLine_quoteUnit unit
  | case3 first second rest pair ih =>
    rw [quoteBody, if_pos pair]
    obtain ⟨high, low⟩ := Bool.and_eq_true_iff.mp pair
    refine .cons ?_ ih
    rw [toNat_pairChar high low, Nat.add_assoc]
    exact le_trans (by decide) (Nat.le_add_right ..)
  | case4 first second rest single ih =>
    rw [quoteBody, if_neg single]
    exact .append (singleLine_quoteUnit first) ih

private theorem singleLine_quote (text : JsString) : SingleLine (quote text) :=
  .append (.cons (by decide) (singleLine_quoteBody text)) (.cons (by decide) singleLine_nil)

end StringLiterals

mutual

/-- `stringify` writes one line. -/
theorem singleLine_stringify : ∀ value : Json, SingleLine (stringify value)
  | .null => singleLine_of_all rfl
  | .bool true => singleLine_of_all rfl
  | .bool false => singleLine_of_all rfl
  | .num literal => singleLine_literal literal
  | .str text => singleLine_quote text
  | .arr items => .cons (by decide) (singleLine_stringifyItems items)
  | .obj members => .cons (by decide) (singleLine_stringifyMembers members)

private theorem singleLine_stringifyItems : ∀ items, SingleLine (stringifyItems items)
  | [] => .cons (by decide) singleLine_nil
  | item :: rest => .append (singleLine_stringify item) (singleLine_stringifyMoreItems rest)

private theorem singleLine_stringifyMoreItems : ∀ items, SingleLine (stringifyMoreItems items)
  | [] => .cons (by decide) singleLine_nil
  | item :: rest =>
    .append (.cons (by decide) (singleLine_stringify item)) (singleLine_stringifyMoreItems rest)

private theorem singleLine_stringifyMembers : ∀ members, SingleLine (stringifyMembers members)
  | [] => .cons (by decide) singleLine_nil
  | (key, value) :: rest =>
    .append (.append (singleLine_quote key) (.cons (by decide) (singleLine_stringify value)))
      (singleLine_stringifyMoreMembers rest)

private theorem singleLine_stringifyMoreMembers : ∀ members, SingleLine (stringifyMoreMembers members)
  | [] => .cons (by decide) singleLine_nil
  | (key, value) :: rest =>
    .append (.append (.cons (by decide) (singleLine_quote key)) (.cons (by decide) (singleLine_stringify value)))
      (singleLine_stringifyMoreMembers rest)

end

end JavaScript
