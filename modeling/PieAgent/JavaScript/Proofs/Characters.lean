import PieAgent.JavaScript.Core.Strings

/-! # Characters of concatenated strings

A string splits into its characters piece by piece, unless a surrogate pair spans two pieces. What is left of
the characters of a string after some have been dropped is split in the same way.
-/

namespace JavaScript

variable {front back text : JsString}

/-- No surrogate pair spans the end of one string and the start of another. -/
def Separate (front back : JsString) : Prop :=
  ∀ high ∈ front.getLast?, ∀ low ∈ back.head?, (isHighSurrogate high && isLowSurrogate low) = false

theorem separate_of_end (ends : ∀ unit ∈ front.getLast?, isHighSurrogate unit = false) : Separate front back :=
  fun high last low _ => by rw [ends high last, Bool.false_and]

theorem separate_of_start (starts : ∀ unit ∈ back.head?, isLowSurrogate unit = false) : Separate front back :=
  fun high _ low first => by rw [starts low first, Bool.and_false]

theorem separate_append_right (nonempty : back ≠ []) : Separate front (back ++ text) ↔ Separate front back := by
  have same : (back ++ text).head? = back.head? := List.head?_append_of_ne_nil back nonempty
  unfold Separate
  rw [same]

/-- Separate strings are split on their own. -/
theorem characters_append (separate : Separate front back) :
    characters (front ++ back) = characters front ++ characters back := by
  induction front using characters_induction with
  | nil => rfl
  | last unit =>
    cases back with
    | nil => rfl
    | cons first rest =>
      have apart := separate unit (by simp) first (by simp)
      simp [characters, apart]
  | pair first second rest pair ih =>
    have kept : Separate rest back := fun high last => separate high (by
      cases rest with
      | nil => cases last
      | cons => simpa using last)
    simp [characters, pair, ih kept]
  | single first second rest single ih =>
    have kept : Separate (second :: rest) back := fun high last => separate high (by simpa using last)
    have step := ih kept
    rw [List.cons_append] at step
    simp [characters, single, step]

/-- The characters that are left when some are dropped. -/
theorem characters_drop (text : JsString) (n : ℕ) :
    characters ((characters text).drop n).flatten = (characters text).drop n := by
  induction text using characters_induction generalizing n with
  | nil => simp [characters]
  | last unit => cases n <;> simp [characters]
  | pair first second rest pair ih =>
    cases n with
    | zero => rw [List.drop_zero, flatten_characters]
    | succ n => simpa [characters, pair] using ih n
  | single first second rest single ih =>
    cases n with
    | zero => rw [List.drop_zero, flatten_characters]
    | succ n => simpa [characters, single] using ih n

private theorem flatten_take_prefix (text : JsString) (n : ℕ) : ((characters text).take n).flatten <+: text := by
  refine ⟨((characters text).drop n).flatten, ?_⟩
  rw [← List.flatten_append, List.take_append_drop, flatten_characters]

/-- The characters that are kept when the others are cut off. -/
theorem characters_take (text : JsString) (n : ℕ) :
    characters ((characters text).take n).flatten = (characters text).take n := by
  induction text using characters_induction generalizing n with
  | nil => simp [characters]
  | last unit => cases n <;> simp [characters]
  | pair first second rest pair ih =>
    cases n with
    | zero => rfl
    | succ n => simpa [characters, pair] using ih n
  | single first second rest single ih =>
    cases n with
    | zero => rfl
    | succ n =>
      have apart : Separate [first] ((characters (second :: rest)).take n).flatten := by
        intro high last low head
        obtain ⟨more, same⟩ := flatten_take_prefix (second :: rest) n
        obtain ⟨others, shape⟩ := List.head?_eq_some_iff.mp (Option.mem_def.mp head)
        rw [shape] at same
        obtain rfl : low = second := (List.cons.inj same).1
        obtain rfl : high = first := by simpa using last.symm
        simpa using single
      have split : characters (first :: second :: rest) = [first] :: characters (second :: rest) := by
        simp [characters, single]
      rw [split, List.take_succ_cons, List.flatten_cons, characters_append apart, ih n]
      rfl

/-- ASCII strings have a character for every code unit. -/
theorem characters_ascii (ascii : ∀ unit ∈ text, unit < 0x80) : characters text = text.map fun unit => [unit] := by
  induction text using characters_induction with
  | nil => rfl
  | last unit => rfl
  | pair first second rest pair ih =>
    have small := ascii first List.mem_cons_self
    simp only [isHighSurrogate, Bool.and_eq_true, decide_eq_true_eq, UInt16.le_iff_toNat_le] at pair
    have bound := pair.1.1
    rw [UInt16.lt_iff_toNat_lt] at small
    exact absurd (bound.trans_lt small) (by decide)
  | single first second rest single ih =>
    simp only [characters, single, Bool.false_eq_true, if_false, List.map_cons]
    rw [ih fun unit member => ascii unit (List.mem_cons_of_mem _ member), List.map_cons]

end JavaScript

/-! ## Well-formed strings

The string of a text has no lone surrogates: its characters are those of the text. A cut through it leaves two
such strings, unless it goes through a surrogate pair.
-/

namespace JavaScript

variable {front back : JsString} {text : List Char} {c : Char}

private theorem codePoint_pair (high low : CodeUnit) :
    codePoint [high, low] = 0x10000 + (high.toNat - 0xD800) * 0x400 + (low.toNat - 0xDC00) := rfl

/-- A character is a unit that is no surrogate, or a pair of surrogates. -/
theorem utf16_cases (c : Char) :
    (∃ unit, utf16 c = [unit] ∧ isHighSurrogate unit = false ∧ isLowSurrogate unit = false ∧ unit.toNat = c.toNat) ∨
    ∃ high low, utf16 c = [high, low] ∧ isHighSurrogate high = true ∧ isLowSurrogate low = true ∧
      codePoint [high, low] = c.toNat := by
  have valid : c.toNat < 0xD800 ∨ 0xDFFF < c.toNat ∧ c.toNat < 0x110000 := c.valid
  unfold utf16
  by_cases basic : c.toNat < 0x10000
  · rw [if_pos basic]
    have same : (UInt16.ofNat c.toNat).toNat = c.toNat := by
      rw [UInt16.toNat_ofNat']
      omega
    refine .inl ⟨_, rfl, ?_, ?_, same⟩
    · simp only [isHighSurrogate, Bool.and_eq_false_iff, decide_eq_false_iff_not, UInt16.le_iff_toNat_le,
        UInt16.lt_iff_toNat_lt, same, UInt16.reduceToNat]
      omega
    · simp only [isLowSurrogate, Bool.and_eq_false_iff, decide_eq_false_iff_not, UInt16.le_iff_toNat_le,
        UInt16.lt_iff_toNat_lt, same, UInt16.reduceToNat]
      omega
  · rw [if_neg basic]
    have first : (UInt16.ofNat (0xD800 + (c.toNat - 0x10000) / 0x400)).toNat = 0xD800 + (c.toNat - 0x10000) / 0x400 := by
      rw [UInt16.toNat_ofNat']
      omega
    have second : (UInt16.ofNat (0xDC00 + (c.toNat - 0x10000) % 0x400)).toNat = 0xDC00 + (c.toNat - 0x10000) % 0x400 := by
      rw [UInt16.toNat_ofNat']
      omega
    refine .inr ⟨_, _, rfl, ?_, ?_, ?_⟩
    · simp only [isHighSurrogate, Bool.and_eq_true, decide_eq_true_eq, UInt16.le_iff_toNat_le, UInt16.lt_iff_toNat_lt,
        first, UInt16.reduceToNat]
      omega
    · simp only [isLowSurrogate, Bool.and_eq_true, decide_eq_true_eq, UInt16.le_iff_toNat_le, UInt16.lt_iff_toNat_lt,
        second, UInt16.reduceToNat]
      omega
    · rw [codePoint_pair, first, second]
      omega

private theorem characters_utf16 (c : Char) : characters (utf16 c) = [utf16 c] := by
  rcases utf16_cases c with ⟨unit, same, _⟩ | ⟨high, low, same, isHigh, isLow, _⟩
  · rw [same]
    rfl
  · have pair : (isHighSurrogate high && isLowSurrogate low) = true := by rw [isHigh, isLow, Bool.and_self]
    rw [same, characters, if_pos pair, characters]

/-- A character ends with no high surrogate. -/
theorem separate_utf16 (c : Char) (back : JsString) : Separate (utf16 c) back := by
  apply separate_of_end
  rcases utf16_cases c with ⟨unit, same, plain, _⟩ | ⟨high, low, same, isHigh, isLow, _⟩
  · simp [same, plain]
  · have plain : isHighSurrogate low = false := by
      simp only [isLowSurrogate, isHighSurrogate, Bool.and_eq_true, Bool.and_eq_false_iff, decide_eq_true_eq,
        decide_eq_false_iff_not, UInt16.le_iff_toNat_le, UInt16.lt_iff_toNat_lt, UInt16.reduceToNat] at isLow ⊢
      omega
    simp [same, plain]

theorem characters_ofText (text : List Char) : characters (ofText text) = text.map utf16 := by
  induction text with
  | nil => rfl
  | cons c text ih => rw [ofText_cons, characters_append (separate_utf16 c _), characters_utf16, ih]; rfl

/-- The string of a text does not end with a high surrogate. -/
theorem separate_ofText (text : List Char) (back : JsString) : Separate (ofText text) back := by
  induction text using List.reverseRecOn with
  | nil => exact nofun
  | append_singleton text c ih =>
    intro high last low first
    have isLast : high ∈ (utf16 c).getLast? := by
      rcases utf16_cases c with ⟨unit, same, _⟩ | ⟨first, second, same, _⟩
      · simpa [ofText, same] using last
      · simpa [ofText, same] using last
    exact separate_utf16 c back high isLast low first

/-- The string of a text does not start with a low surrogate. -/
theorem separate_before_ofText (front : JsString) (text : List Char) : Separate front (ofText text) := by
  apply separate_of_start
  cases text with
  | nil => exact nofun
  | cons c text =>
    rcases utf16_cases c with ⟨unit, same, _, plain, _⟩ | ⟨high, low, same, isHigh, _⟩
    · simp [same, plain]
    · have plain : isLowSurrogate high = false := by
        simp only [isLowSurrogate, isHighSurrogate, Bool.and_eq_true, Bool.and_eq_false_iff, decide_eq_true_eq,
          decide_eq_false_iff_not, UInt16.le_iff_toNat_le, UInt16.lt_iff_toNat_lt, UInt16.reduceToNat] at isHigh ⊢
        omega
      simp [same, plain]

/-- A cut through the string of a text that goes through no pair is a cut through the text. -/
theorem ofText_cut (cut : ofText text = front ++ back) (separate : Separate front back) :
    ∃ before after, text = before ++ after ∧ front = ofText before ∧ back = ofText after := by
  induction text generalizing front with
  | nil =>
    obtain ⟨rfl, rfl⟩ := List.append_eq_nil_iff.mp cut.symm
    exact ⟨[], [], rfl, rfl, rfl⟩
  | cons c text ih =>
    rw [ofText_cons] at cut
    cases front with
    | nil => exact ⟨[], c :: text, rfl, rfl, cut.symm⟩
    | cons unit front =>
      rcases utf16_cases c with ⟨single, same, _⟩ | ⟨high, low, same, isHigh, isLow, _⟩
      · rw [same] at cut
        obtain ⟨rfl, rest⟩ := List.cons.inj cut
        have kept : Separate front back := fun high last => separate high (by
          cases front with
          | nil => cases last
          | cons => simpa using last)
        obtain ⟨before, after, rfl, rfl, rfl⟩ := ih rest kept
        exact ⟨c :: before, after, rfl, by rw [ofText_cons, same]; rfl, rfl⟩
      · rw [same] at cut
        obtain ⟨rfl, rest⟩ := List.cons.inj cut
        cases front with
        | nil =>
          have glued := separate high (by simp) low (by rw [← rest.trans (List.nil_append back)]; rfl)
          rw [isHigh, isLow] at glued
          cases glued
        | cons second front =>
          obtain ⟨rfl, behind⟩ := List.cons.inj rest
          have kept : Separate front back := fun high last => separate high (by
            cases front with
            | nil => cases last
            | cons => simpa using last)
          obtain ⟨before, after, rfl, rfl, rfl⟩ := ih behind kept
          exact ⟨c :: before, after, rfl, by rw [ofText_cons, same]; rfl, rfl⟩

end JavaScript
