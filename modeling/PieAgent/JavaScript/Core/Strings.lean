import Mathlib.Data.List.DropRight
import Mathlib.Data.Rat.Defs
import Mathlib.Tactic.Common

/-! # JavaScript strings as sequences of UTF-16 code units

A JavaScript string is any list of 16-bit code units, lone surrogates included. Iterating over a
string visits characters: a well-formed surrogate pair counts once, every other code unit counts
on its own. Nothing here refers to a particular program.
-/

namespace JavaScript

abbrev CodeUnit := UInt16

/-- The value of a JavaScript string. -/
abbrev JsString := List CodeUnit

instance : LawfulBEq JsString := inferInstance

/-- The code units of one Unicode scalar value. -/
def utf16 (c : Char) : List CodeUnit :=
  if c.toNat < 0x10000 then [UInt16.ofNat c.toNat]
  else [UInt16.ofNat (0xD800 + (c.toNat - 0x10000) / 0x400),
    UInt16.ofNat (0xDC00 + (c.toNat - 0x10000) % 0x400)]

/-- The JavaScript string holding a well-formed text. -/
def ofText (text : List Char) : JsString := text.flatMap utf16

/-- A string literal of the source program. -/
def js (literal : String) : JsString := ofText literal.toList

@[simp] theorem ofText_nil : ofText [] = [] := rfl

@[simp] theorem ofText_cons (c : Char) (text : List Char) : ofText (c :: text) = utf16 c ++ ofText text := rfl

theorem js_append (first second : String) : js (first ++ second) = js first ++ js second := by
  simp [js, ofText]

/-- A string literal stands for its characters. Computing with these is much cheaper than computing them. -/
theorem js_ofList (text : List Char) : js (String.ofList text) = ofText text := by
  rw [js, String.toList_ofList]

theorem utf16_ne_nil {c : Char} : utf16 c ≠ [] := by
  unfold utf16
  split <;> exact List.cons_ne_nil _ _

/-- The first character of a text can be read off its code units. -/
theorem utf16_append_inj {c d : Char} {first second : JsString} (same : utf16 c ++ first = utf16 d ++ second) :
    c = d ∧ first = second := by
  have toNat {a b : ℕ} (units : UInt16.ofNat a = UInt16.ofNat b) : a % 65536 = b % 65536 := by
    simpa using congrArg UInt16.toNat units
  have equal (numbers : c.toNat = d.toNat) : c = d := Char.toNat_inj.mp numbers
  have validC : c.toNat < 0xD800 ∨ 0xDFFF < c.toNat ∧ c.toNat < 0x110000 := c.valid
  have validD : d.toNat < 0xD800 ∨ 0xDFFF < d.toNat ∧ d.toNat < 0x110000 := d.valid
  unfold utf16 at same
  split_ifs at same with bmpC bmpD bmpD
  · obtain ⟨unit, rest⟩ := List.cons.inj same
    have := toNat unit
    exact ⟨equal (by omega), rest⟩
  · have := toNat (List.cons.inj same).1
    omega
  · have := toNat (List.cons.inj same).1
    omega
  · obtain ⟨high, rest⟩ := List.cons.inj same
    obtain ⟨low, rest⟩ := List.cons.inj rest
    have := toNat high
    have := toNat low
    exact ⟨equal (by omega), rest⟩

theorem ofText_injective : Function.Injective ofText := by
  intro first second same
  induction first generalizing second with
  | nil =>
    cases second with
    | nil => rfl
    | cons d second => exact absurd (List.append_eq_nil_iff.mp same.symm).1 utf16_ne_nil
  | cons c first ih =>
    cases second with
    | nil => exact absurd (List.append_eq_nil_iff.mp same).1 utf16_ne_nil
    | cons d second =>
      obtain ⟨rfl, rest⟩ := utf16_append_inj same
      rw [ih rest]

/-- Comparing string literals is much cheaper than comparing their code units. -/
theorem js_inj {first second : String} : js first = js second ↔ first = second :=
  (ofText_injective).eq_iff.trans String.toList_inj

/-- The decimal digits of a natural number, as template literals print it. -/
def digits (n : ℕ) : JsString := js (toString n)

def isHighSurrogate (unit : CodeUnit) : Bool := 0xD800 ≤ unit && unit < 0xDC00

def isLowSurrogate (unit : CodeUnit) : Bool := 0xDC00 ≤ unit && unit < 0xE000

/-- The characters that `for (const ch of text)` and `[...text]` visit. -/
def characters : JsString → List JsString
  | [] => []
  | [unit] => [[unit]]
  | first :: second :: rest =>
    if isHighSurrogate first && isLowSurrogate second then [first, second] :: characters rest
    else [first] :: characters (second :: rest)

/-- Induction along the characters of a string. -/
theorem characters_induction {motive : JsString → Prop} (nil : motive []) (last : ∀ unit, motive [unit])
    (pair : ∀ first second rest, isHighSurrogate first && isLowSurrogate second → motive rest →
      motive (first :: second :: rest))
    (single : ∀ first second rest, ¬(isHighSurrogate first && isLowSurrogate second) → motive (second :: rest) →
      motive (first :: second :: rest)) (text : JsString) : motive text :=
  characters.induct motive nil last pair single text

/-- Iteration splits a string without losing or reordering code units. -/
theorem flatten_characters (text : JsString) : (characters text).flatten = text := by
  induction text using characters_induction with
  | nil => rfl
  | last unit => rfl
  | pair first second rest pair ih => simp [characters, pair, ih]
  | single first second rest single ih => simp [characters, single, ih]

/-- The numeric value of `ch.codePointAt(0)` for a visited character. -/
def codePoint : JsString → ℕ
  | [high, low] => 0x10000 + (high.toNat - 0xD800) * 0x400 + (low.toNat - 0xDC00)
  | unit :: _ => unit.toNat
  | [] => 0

/-- White space and line terminators, the characters `String.prototype.trim` removes. -/
def isWhitespace (code : ℕ) : Bool :=
  (0x09 ≤ code && code ≤ 0x0D) || code == 0x20 || code == 0xA0 || code == 0x1680 ||
    (0x2000 ≤ code && code ≤ 0x200A) || code == 0x2028 || code == 0x2029 || code == 0x202F ||
    code == 0x205F || code == 0x3000 || code == 0xFEFF

/-- `String.prototype.trim`. -/
def trim (text : JsString) : JsString :=
  (text.dropWhile fun unit => isWhitespace unit.toNat).rdropWhile fun unit => isWhitespace unit.toNat

theorem trim_eq_nil_iff {text : JsString} : trim text = [] ↔ ∀ unit ∈ text, isWhitespace unit.toNat = true := by
  rw [trim, List.rdropWhile_eq_nil_iff]
  constructor
  · intro blank unit member
    rw [← List.takeWhile_append_dropWhile (p := fun unit : CodeUnit => isWhitespace unit.toNat) (l := text)] at member
    rcases List.mem_append.mp member with before | after
    · exact List.mem_takeWhile_imp (p := fun unit : CodeUnit => isWhitespace unit.toNat) before
    · exact blank unit after
  · exact fun blank unit member => blank unit ((List.dropWhile_sublist _).subset member)

/-- `Array.prototype.join`. -/
def join (separator : JsString) (parts : List JsString) : JsString := separator.intercalate parts

/-- A template literal that spans several lines. -/
def jsLines (lines : List String) : JsString := join (js "\n") (lines.map js)

theorem join_eq_append_getLast (separator : JsString) (parts : List JsString) (nonempty : parts ≠ []) :
    ∃ before, join separator parts = before ++ parts.getLast nonempty := by
  induction parts with
  | nil => exact absurd rfl nonempty
  | cons head rest ih =>
    cases rest with
    | nil => exact ⟨[], by simp [join]⟩
    | cons next rest =>
      obtain ⟨before, same⟩ := ih (List.cons_ne_nil _ _)
      refine ⟨head ++ separator ++ before, ?_⟩
      rw [List.getLast_cons (List.cons_ne_nil _ _), List.append_assoc, ← same]
      simp [join]

/-- A template literal ends with its last line. -/
theorem jsLines_eq_append {lines : List String} (nonempty : lines ≠ []) :
    ∃ before, jsLines lines = before ++ js (lines.getLast nonempty) := by
  obtain ⟨before, same⟩ := join_eq_append_getLast (js "\n") (lines.map js) (by simpa using nonempty)
  exact ⟨before, by rw [jsLines, same, List.getLast_map]⟩

/-- The value of `text || fallback`: an absent or empty text yields the fallback. -/
def orElse (text : Option JsString) (fallback : JsString) : JsString :=
  match text with
  | some (unit :: rest) => unit :: rest
  | _ => fallback

end JavaScript

/-! ## Values that `JSON.parse` returns

In contrast to `Json`, which keeps a number as its literal, a number is here what the program computes with.
-/

namespace JavaScript

/-- A number that a literal denotes. A literal that is too large denotes an infinity. -/
inductive JsNumber where
  | finite (value : ℚ)
  | infinite (negative : Bool)
deriving DecidableEq

namespace JsNumber

/-- `number + 1`. -/
def next : JsNumber → JsNumber
  | .finite value => .finite (value + 1)
  | .infinite negative => .infinite negative

/-- `number >= bound`. -/
def atLeast (bound : ℚ) : JsNumber → Bool
  | .finite value => bound ≤ value
  | .infinite negative => !negative

/-- The value of a number that passes `Number.isInteger(number) && number >= 0`. -/
def natural? : JsNumber → Option ℕ
  | .finite value => if value.den = 1 ∧ 0 ≤ value.num then some value.num.toNat else none
  | .infinite _ => none

end JsNumber

inductive JsonValue where
  | null
  | bool (value : Bool)
  | num (value : JsNumber)
  | str (value : JsString)
  | arr (items : List JsonValue)
  | obj (members : List (JsString × JsonValue))

/-- An own field. What is no object has none. -/
def JsonValue.field? (value : JsonValue) (key : String) : Option JsonValue :=
  match value with
  | .obj members => (members.find? fun field => field.1 = js key).map (·.2)
  | _ => none

end JavaScript

/-! ## Decimal numerals in strings

The digits of a natural number are decimal digits and determine the number, also when another text follows
that does not begin with a digit.
-/

namespace JavaScript

/-- The class `\d` of a pattern. -/
def isDecimal (unit : CodeUnit) : Bool := 0x30 ≤ unit && unit ≤ 0x39

private theorem toList_toString (n : ℕ) : (toString n).toList = Nat.toDigits 10 n := by
  simp [toString, Nat.repr]

private theorem code_of_isDigit {c : Char} (digit : c.isDigit = true) : 0x30 ≤ c.toNat ∧ c.toNat ≤ 0x39 := by
  rw [Char.isDigit, Bool.and_eq_true, decide_eq_true_eq, decide_eq_true_eq, ge_iff_le, UInt32.le_iff_toNat_le,
    UInt32.le_iff_toNat_le] at digit
  exact digit

private theorem ofText_eq_map {text : List Char} (all : ∀ c ∈ text, c.isDigit = true) :
    ofText text = text.map fun c => UInt16.ofNat c.toNat := by
  induction text with
  | nil => rfl
  | cons c rest ih =>
    obtain ⟨head, tail⟩ := List.forall_mem_cons.mp all
    have code := code_of_isDigit head
    rw [ofText_cons, ih tail, utf16, if_pos (by omega)]
    rfl

private theorem isDigit_of_mem {n : ℕ} {c : Char} (listed : c ∈ Nat.toDigits 10 n) : c.isDigit = true :=
  Nat.isDigit_of_mem_toDigits (by decide) (by decide) listed

private theorem digits_eq_map (n : ℕ) : digits n = (Nat.toDigits 10 n).map fun c => UInt16.ofNat c.toNat := by
  rw [digits, js, toList_toString, ofText_eq_map fun c => isDigit_of_mem]

theorem digits_ne_nil (n : ℕ) : digits n ≠ [] := by
  rw [digits_eq_map, ne_eq, List.map_eq_nil_iff]
  exact Nat.toDigits_ne_nil

theorem isDecimal_of_mem_digits {n : ℕ} {unit : CodeUnit} (member : unit ∈ digits n) : isDecimal unit = true := by
  rw [digits_eq_map] at member
  obtain ⟨c, listed, rfl⟩ := List.mem_map.mp member
  obtain ⟨low, high⟩ := code_of_isDigit (isDigit_of_mem listed)
  rw [isDecimal, Bool.and_eq_true, decide_eq_true_eq, decide_eq_true_eq, UInt16.le_iff_toNat_le, UInt16.le_iff_toNat_le,
    UInt16.toNat_ofNat_of_lt' (show c.toNat < 65536 by omega)]
  exact ⟨low, high⟩

private theorem map_ofNat_digits (n : ℕ) : (digits n).map (fun unit => Char.ofNat unit.toNat) = Nat.toDigits 10 n := by
  rw [digits_eq_map, List.map_map]
  refine (List.map_congr_left fun c listed => ?_).trans (List.map_id _)
  have code := code_of_isDigit (isDigit_of_mem listed)
  rw [Function.comp_apply, UInt16.toNat_ofNat_of_lt' (show c.toNat < 65536 by omega), Char.ofNat_toNat, id]

/-- A number is known by its digits. -/
theorem digits_injective : Function.Injective digits := by
  intro m n same
  have chars : Nat.toDigits 10 m = Nat.toDigits 10 n := by rw [← map_ofNat_digits, same, map_ofNat_digits]
  rw [← Nat.ofDigitChars_ten_toDigits (n := m), chars, Nat.ofDigitChars_ten_toDigits]

end JavaScript
