import PieAgent.JavaScript.Core.JsonParse

/-! # String literals are read back

A string literal ends at its closing quote, whatever follows it, and reading the literal that
`JSON.stringify` writes for a string yields that string, lone surrogates included.
-/

namespace JavaScript

/-- A string literal is read from the front of its text, independently of the rest. -/
theorem parseString?_spec {source rest : List Char} {text : JsString} (read : parseString? source = some (text, rest)) :
    ∃ used, source = used ++ rest ∧ used ≠ [] ∧ ∀ more, parseString? (used ++ more) = some (text, more) := by
  induction source using parseString?.induct generalizing text rest with
  | case1 => cases read
  | case2 tail =>
    cases read
    exact ⟨['"'], rfl, List.cons_ne_nil _ _, fun more => rfl⟩
  | case3 a b c d tail ih =>
    rw [parseString?] at read
    obtain ⟨unit, escaped, read⟩ := Option.bind_eq_some_iff.mp read
    obtain ⟨⟨text, rest⟩, inner, same⟩ := Option.bind_eq_some_iff.mp read
    cases same
    obtain ⟨used, rfl, _, again⟩ := ih inner
    refine ⟨'\\' :: 'u' :: a :: b :: c :: d :: used, rfl, List.cons_ne_nil _ _, fun more => ?_⟩
    simp only [List.cons_append]
    rw [parseString?, escaped, again]
    rfl
  | case4 c tail notUnicode ih =>
    rw [parseString?] at read
    · obtain ⟨unit, escaped, read⟩ := Option.bind_eq_some_iff.mp read
      obtain ⟨⟨text, rest⟩, inner, same⟩ := Option.bind_eq_some_iff.mp read
      cases same
      obtain ⟨used, rfl, _, again⟩ := ih inner
      refine ⟨'\\' :: c :: used, rfl, List.cons_ne_nil _ _, fun more => ?_⟩
      simp only [List.cons_append]
      rw [parseString?, escaped, again]
      · rfl
      · rintro _ _ _ _ _ rfl
        cases escaped
    · exact notUnicode
  | case5 c tail notQuote notUnicode notEscape bad =>
    rw [parseString?, if_pos bad] at read
    · cases read
    · exact notQuote
    · exact notUnicode
    · exact notEscape
  | case6 c tail notQuote notUnicode notEscape good ih =>
    rw [parseString?, if_neg good] at read
    · obtain ⟨⟨text, rest⟩, inner, same⟩ := Option.bind_eq_some_iff.mp read
      cases same
      obtain ⟨used, rfl, _, again⟩ := ih inner
      refine ⟨c :: used, rfl, List.cons_ne_nil _ _, fun more => ?_⟩
      have plain : c ≠ '\\' := by rintro rfl; exact good (by simp)
      rw [List.cons_append, parseString?, if_neg good, again]
      · rfl
      · exact notQuote
      · exact fun _ _ _ _ _ same => absurd same plain
      · exact fun _ _ same => absurd same plain
    · exact notQuote
    · exact notUnicode
    · exact notEscape

private theorem hexValue?_hexDigit : ∀ n < 16, hexValue? (hexDigit n) = some n := by decide

private theorem escapedUnit?_unicodeEscape (unit : CodeUnit) :
    escapedUnit? (hexDigit (unit.toNat / 4096 % 16)) (hexDigit (unit.toNat / 256 % 16)) (hexDigit (unit.toNat / 16 % 16))
      (hexDigit (unit.toNat % 16)) = some unit := by
  have bound := unit.toNat_lt
  have digits : unit.toNat / 4096 % 16 * 4096 + unit.toNat / 256 % 16 * 256 + unit.toNat / 16 % 16 * 16 +
      unit.toNat % 16 = unit.toNat := by omega
  unfold escapedUnit?
  rw [hexValue?_hexDigit _ (Nat.mod_lt _ (by decide)), hexValue?_hexDigit _ (Nat.mod_lt _ (by decide)),
    hexValue?_hexDigit _ (Nat.mod_lt _ (by decide)), hexValue?_hexDigit _ (Nat.mod_lt _ (by decide))]
  simp only [Option.bind_eq_bind, Option.bind_some]
  rw [digits, UInt16.ofNat_toNat]

theorem toNat_charOfNat {n : ℕ} (valid : n.isValidChar) : (Char.ofNat n).toNat = n := by
  rw [Char.ofNat, dif_pos valid]
  rfl

/-- A code unit that is no surrogate is the one unit of its character. -/
theorem utf16_ofNat {unit : CodeUnit} (high : isHighSurrogate unit = false) (low : isLowSurrogate unit = false) :
    (Char.ofNat unit.toNat).toNat = unit.toNat ∧ utf16 (Char.ofNat unit.toNat) = [unit] := by
  have bound := unit.toNat_lt
  have valid : unit.toNat.isValidChar := by
    simp only [isHighSurrogate, isLowSurrogate, Bool.and_eq_false_iff, decide_eq_false_iff_not, UInt16.le_iff_toNat_le,
      UInt16.lt_iff_toNat_lt] at high low
    simp at high low
    simp only [Nat.isValidChar]
    omega
  have same := toNat_charOfNat valid
  refine ⟨same, ?_⟩
  rw [utf16, same, if_pos bound, UInt16.ofNat_toNat]

/-- Reading the text of a single code unit yields that unit. -/
private theorem parseString?_quoteUnit (unit : CodeUnit) (rest : List Char) :
    parseString? (quoteUnit unit ++ rest) = (parseString? rest).map fun read => (unit :: read.1, read.2) := by
  unfold quoteUnit
  -- the quote, the backslash and five control characters
  iterate 7
    split
    · next same => subst same; cases read : parseString? rest <;> simp [parseString?, simpleEscape?, read]
  split
  · cases read : parseString? rest <;>
      simp [unicodeEscape, parseString?, escapedUnit?_unicodeEscape, read]
  · next quote backslash plain =>
    simp only [Bool.or_eq_true, not_or, decide_eq_true_eq, Bool.not_eq_true] at plain
    obtain ⟨⟨printable, high⟩, low⟩ := plain
    obtain ⟨same, units⟩ := utf16_ofNat high low
    have large : 0x20 ≤ unit.toNat := by
      simpa [UInt16.lt_iff_toNat_lt] using printable
    have other : ∀ c : Char, UInt16.ofNat c.toNat ≠ unit → Char.ofNat unit.toNat ≠ c := by
      rintro c different rfl
      exact different (by rw [same, UInt16.ofNat_toNat])
    have notQuote : Char.ofNat unit.toNat ≠ '"' := other '"' (Ne.symm quote)
    have notEscape : Char.ofNat unit.toNat ≠ '\\' := other '\\' (Ne.symm backslash)
    have accepted : ¬ (Char.ofNat unit.toNat).toNat < 0x20 := by
      rw [same]
      omega
    rw [List.singleton_append, parseString?, if_neg (by simp [accepted, notEscape]), units]
    · cases parseString? rest <;> rfl
    · exact notQuote
    · exact fun _ _ _ _ _ same => absurd same notEscape
    · exact fun _ _ same => absurd same notEscape

/-- Reading the text of a surrogate pair yields both units. -/
theorem toNat_pairChar {high low : CodeUnit} (isHigh : isHighSurrogate high = true)
    (isLow : isLowSurrogate low = true) :
    (pairChar high low).toNat = 0x10000 + (high.toNat - 0xD800) * 0x400 + (low.toNat - 0xDC00) := by
  simp only [isHighSurrogate, isLowSurrogate, Bool.and_eq_true, decide_eq_true_eq, UInt16.le_iff_toNat_le,
    UInt16.lt_iff_toNat_lt] at isHigh isLow
  simp only [UInt16.reduceToNat] at isHigh isLow
  obtain ⟨point, known⟩ : ∃ point, codePoint [high, low] = point := ⟨_, rfl⟩
  have value : point = 0x10000 + (high.toNat - 0xD800) * 0x400 + (low.toNat - 0xDC00) := known.symm
  rw [pairChar, known, toNat_charOfNat (by unfold Nat.isValidChar; omega), value]

private theorem parseString?_pairChar {high low : CodeUnit} (isHigh : isHighSurrogate high = true)
    (isLow : isLowSurrogate low = true) (rest : List Char) :
    parseString? (pairChar high low :: rest) = (parseString? rest).map fun read => (high :: low :: read.1, read.2) := by
  have value := toNat_pairChar isHigh isLow
  simp only [isHighSurrogate, isLowSurrogate, Bool.and_eq_true, decide_eq_true_eq, UInt16.le_iff_toNat_le,
    UInt16.lt_iff_toNat_lt] at isHigh isLow
  simp only [UInt16.reduceToNat] at isHigh isLow
  obtain ⟨c, known⟩ : ∃ c, pairChar high low = c := ⟨_, rfl⟩
  rw [known] at value ⊢
  have first : 0xD800 + (c.toNat - 0x10000) / 0x400 = high.toNat := by omega
  have second : 0xDC00 + (c.toNat - 0x10000) % 0x400 = low.toNat := by omega
  have units : utf16 c = [high, low] := by
    rw [utf16, if_neg (by omega), first, second, UInt16.ofNat_toNat, UInt16.ofNat_toNat]
  have other : ∀ d : Char, d.toNat < 0x10000 → c ≠ d := by
    rintro d small rfl
    omega
  have notEscape := other '\\' (by decide)
  have accepted : ¬ c.toNat < 0x20 := by omega
  rw [parseString?, if_neg (by simp [accepted, notEscape]), units]
  · cases parseString? rest <;> rfl
  · exact other '"' (by decide)
  · exact fun _ _ _ _ _ same => absurd same notEscape
  · exact fun _ _ same => absurd same notEscape

/-- Reading a written string literal yields the string. -/
theorem parseString?_quoteBody (text : JsString) (rest : List Char) :
    parseString? (quoteBody text ++ '"' :: rest) = some (text, rest) := by
  induction text using quoteBody.induct with
  | case1 => rfl
  | case2 unit =>
    rw [quoteBody, parseString?_quoteUnit]
    rfl
  | case3 first second tail pair ih =>
    rw [Bool.and_eq_true] at pair
    rw [quoteBody, if_pos (by simp [pair]), List.cons_append, parseString?_pairChar pair.1 pair.2, ih]
    rfl
  | case4 first second tail single ih =>
    rw [quoteBody, if_neg single, List.append_assoc, parseString?_quoteUnit, ih]
    rfl

end JavaScript
