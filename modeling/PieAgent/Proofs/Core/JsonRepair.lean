import PieAgent.JavaScript.Proofs.Respelling
import PieAgent.Model.Core.JsonRepair

/-! # The scan of `repairJson`

The scan copies every spelling inside a string literal. It also copies a bare `\u`: hexadecimal digits need no repair, so
it makes no difference whether they are copied together with the escape or after it. Whether a literal holds a bare `\u`
is therefore the same before and after the repair.
-/

namespace PieAgent.Proofs.JsonRepair

open JavaScript Model.JsonRepair

/-- The text begins with that many hexadecimal digits. -/
@[simp] def startsHex : ℕ → List Char → Bool
  | 0, _ => true
  | _ + 1, [] => false
  | n + 1, char :: rest => isHexDigit char && startsHex n rest

/-- A string literal holds a `\u` without four hexadecimal digits behind it. -/
@[simp] def bareUnicode : Bool → List Char → Bool
  | _, [] => false
  | false, char :: rest => bareUnicode (char == '"') rest
  | true, '"' :: rest => bareUnicode false rest
  | true, ['\\'] => false
  | true, '\\' :: 'u' :: rest => !startsHex 4 rest || bareUnicode true rest
  | true, '\\' :: char :: rest =>
    if char ∈ VALID_JSON_ESCAPES then bareUnicode true rest else bareUnicode true (char :: rest)
  | true, _ :: rest => bareUnicode true rest

variable {c : Char} {rest : List Char}

section Characters

theorem isHexDigit_eq (c : Char) : isHexDigit c = (hexValue? c).isSome := by
  unfold isHexDigit hexValue?
  rw [Bool.eq_iff_iff, Bool.or_eq_true, Bool.or_eq_true, Bool.and_eq_true, Bool.and_eq_true, Bool.and_eq_true]
  simp only [decide_eq_true_eq]
  split
  · next digit => simp [digit]
  · split
    · next lower => simp [lower]
    · split
      · next upper => simp [upper]
      · next other lower upper => simp [other, lower, upper]

/-- A character that the scan copies on its own. -/
private structure Plain (c : Char) : Prop where
  noQuote : c ≠ '"'
  noEscape : c ≠ '\\'
  printable : isControlCharacter c = false

private theorem plain_of_isHexDigit (digit : isHexDigit c = true) : Plain c := by
  refine ⟨?_, ?_, ?_⟩
  · rintro rfl
    cases digit
  · rintro rfl
    cases digit
  · rw [isHexDigit, Bool.or_eq_true, Bool.or_eq_true, Bool.and_eq_true, Bool.and_eq_true, Bool.and_eq_true] at digit
    simp only [decide_eq_true_eq, Char.le_def, UInt32.le_iff_toNat_le] at digit
    have above : 0x1f < c.toNat := by
      rcases digit with (⟨low, _⟩ | ⟨low, _⟩) | ⟨low, _⟩
      · exact lt_of_lt_of_le (by decide) low
      · exact lt_of_lt_of_le (by decide) low
      · exact lt_of_lt_of_le (by decide) low
    rw [isControlCharacter, Bool.and_eq_false_iff, decide_eq_false_iff_not, decide_eq_false_iff_not, not_le, not_le]
    exact Or.inr above

private theorem isHexDigit_of_escapedUnit? {a b c d : Char} {unit : CodeUnit} (escape : escapedUnit? a b c d = some unit) :
    isHexDigit a = true ∧ isHexDigit b = true ∧ isHexDigit c = true ∧ isHexDigit d = true := by
  simp only [isHexDigit_eq]
  obtain ⟨_, first, escape⟩ := Option.bind_eq_some_iff.mp escape
  obtain ⟨_, second, escape⟩ := Option.bind_eq_some_iff.mp escape
  obtain ⟨_, third, escape⟩ := Option.bind_eq_some_iff.mp escape
  obtain ⟨_, fourth, _⟩ := Option.bind_eq_some_iff.mp escape
  simp [first, second, third, fourth]

/-- The escapes of one character are those that the scan knows, apart from `u`. -/
theorem mem_validEscapes : c ∈ VALID_JSON_ESCAPES ↔ (simpleEscape? c).isSome ∨ c = 'u' := by
  unfold simpleEscape? VALID_JSON_ESCAPES
  split <;> simp_all

private theorem escape_table : ∀ n < 32, escapeControlCharacter (Char.ofNat n) =
    (if n = 8 then ['\\', 'b'] else if n = 9 then ['\\', 't'] else if n = 10 then ['\\', 'n']
      else if n = 12 then ['\\', 'f'] else if n = 13 then ['\\', 'r']
      else ['\\', 'u', '0', '0', hexDigit (n / 16), hexDigit (n % 16)]) ∧
      escapedUnit? '0' '0' (hexDigit (n / 16)) (hexDigit (n % 16)) = some (UInt16.ofNat n) := by
  decide

/-- The escape of a control character spells it. -/
theorem element_control (control : isControlCharacter c = true) :
    Element (escapeControlCharacter c) [UInt16.ofNat c.toNat] := by
  rw [isControlCharacter, Bool.and_eq_true, decide_eq_true_eq, decide_eq_true_eq] at control
  obtain ⟨text, unit⟩ := escape_table c.toNat (Nat.lt_succ_of_le control.2)
  rw [Char.ofNat_toNat] at text
  rw [text]
  split_ifs with backspace tab lineFeed formFeed carriageReturn
  · rw [backspace]
    exact .simple rfl
  · rw [tab]
    exact .simple rfl
  · rw [lineFeed]
    exact .simple rfl
  · rw [formFeed]
    exact .simple rfl
  · rw [carriageReturn]
    exact .simple rfl
  · exact .unicode unit

end Characters

section Steps

private theorem repair_plain (plain : Plain c) (rest : List Char) : repair true (c :: rest) = c :: repair true rest := by
  rw [repair, plain.printable]
  · rfl
  · exact fun same => plain.noQuote same
  · exact fun same _ => plain.noEscape same
  · exact fun _ _ _ _ _ same _ => plain.noEscape same
  · exact fun _ _ same _ => plain.noEscape same

theorem repair_control (control : isControlCharacter c = true) (rest : List Char) :
    repair true (c :: rest) = escapeControlCharacter c ++ repair true rest := by
  have noEscape : c ≠ '\\' := by
    rintro rfl
    cases control
  rw [repair, if_pos control]
  · rintro rfl
    cases control
  · exact fun same _ => noEscape same
  · exact fun _ _ _ _ _ same _ => noEscape same
  · exact fun _ _ same _ => noEscape same

theorem repair_unicode (rest : List Char) : repair true ('\\' :: 'u' :: rest) = '\\' :: 'u' :: repair true rest := by
  rw [repair.eq_def]
  split
  · next none => cases none
  · next outside _ => cases outside
  · next same => cases same
  · next same => cases same
  · next a b c d tail same =>
    cases same
    split
    · next digits =>
      simp only [List.all_cons, List.all_nil, Bool.and_true, Bool.and_eq_true] at digits
      obtain ⟨first, second, third, fourth⟩ := digits
      rw [repair_plain (plain_of_isHexDigit first), repair_plain (plain_of_isHexDigit second),
        repair_plain (plain_of_isHexDigit third), repair_plain (plain_of_isHexDigit fourth)]
    · exact if_pos (by decide)
  · next same =>
    cases same
    exact if_pos (by decide)
  · next notEscape _ same =>
    cases same
    exact absurd rfl (notEscape _ _ rfl)

theorem repair_simple (simple : (simpleEscape? c).isSome) (rest : List Char) :
    repair true ('\\' :: c :: rest) = '\\' :: c :: repair true rest := by
  rw [repair, if_pos ((mem_validEscapes).mpr (Or.inl simple))]
  rintro _ _ _ _ _ rfl
  cases simple

theorem repair_stray (stray : c ∉ VALID_JSON_ESCAPES) (rest : List Char) :
    repair true ('\\' :: c :: rest) = '\\' :: '\\' :: repair true (c :: rest) := by
  rw [repair, if_neg stray]
  rintro _ _ _ _ _ rfl
  exact absurd (by decide) stray

private theorem bareUnicode_plain (noQuote : c ≠ '"') (noEscape : c ≠ '\\') (rest : List Char) :
    bareUnicode true (c :: rest) = bareUnicode true rest := by
  rw [bareUnicode]
  · exact fun same => noQuote same
  · exact fun same _ => noEscape same
  · exact fun _ same _ => noEscape same
  · exact fun _ _ same _ => noEscape same

theorem bareUnicode_simple (simple : (simpleEscape? c).isSome) (rest : List Char) :
    bareUnicode true ('\\' :: c :: rest) = bareUnicode true rest := by
  rw [bareUnicode, if_pos ((mem_validEscapes).mpr (Or.inl simple))]
  rintro rfl
  cases simple

theorem bareUnicode_stray (stray : c ∉ VALID_JSON_ESCAPES) (rest : List Char) :
    bareUnicode true ('\\' :: c :: rest) = bareUnicode true (c :: rest) := by
  rw [bareUnicode, if_neg stray]
  rintro rfl
  exact absurd (by decide) stray

theorem bareUnicode_control (control : isControlCharacter c = true) (rest : List Char) :
    bareUnicode true (c :: rest) = bareUnicode true rest := by
  apply bareUnicode_plain
  · rintro rfl
    cases control
  · rintro rfl
    cases control

end Steps

section Elements

variable {used : List Char} {units : JsString}

/-- The scan copies a spelling. -/
theorem repair_element (element : Element used units) (rest : List Char) :
    repair true (used ++ rest) = used ++ repair true rest := by
  cases element with
  | plain printable noQuote noEscape =>
    refine repair_plain ⟨noQuote, noEscape, ?_⟩ rest
    rw [isControlCharacter, Bool.and_eq_false_iff, decide_eq_false_iff_not, decide_eq_false_iff_not]
    omega
  | simple escape => exact repair_simple (by rw [escape]; rfl) rest
  | unicode escape =>
    obtain ⟨first, second, third, fourth⟩ := isHexDigit_of_escapedUnit? escape
    simp only [List.cons_append, List.nil_append]
    rw [repair_unicode, repair_plain (plain_of_isHexDigit first), repair_plain (plain_of_isHexDigit second),
      repair_plain (plain_of_isHexDigit third), repair_plain (plain_of_isHexDigit fourth)]

/-- A spelling is no bare `\u`. -/
theorem bareUnicode_element (element : Element used units) (rest : List Char) :
    bareUnicode true (used ++ rest) = bareUnicode true rest := by
  cases element with
  | plain printable noQuote noEscape => exact bareUnicode_plain noQuote noEscape rest
  | simple escape => exact bareUnicode_simple (by rw [escape]; rfl) rest
  | unicode escape =>
    obtain ⟨first, second, third, fourth⟩ := isHexDigit_of_escapedUnit? escape
    simp only [List.cons_append, List.nil_append]
    have digits {char : Char} (digit : isHexDigit char = true) (tail : List Char) :
        bareUnicode true (char :: tail) = bareUnicode true tail :=
      bareUnicode_plain (plain_of_isHexDigit digit).noQuote (plain_of_isHexDigit digit).noEscape tail
    rw [bareUnicode, digits first, digits second, digits third, digits fourth]
    simp [startsHex, first, second, third, fourth]

/-- A text that consists of spellings is left alone. -/
theorem repair_respelled {inside : Bool} {text other : List Char} (respelled : Respelled inside text other) :
    repair inside other = other ∧ bareUnicode inside other = false := by
  induction respelled with
  | nil => exact ⟨rfl, rfl⟩
  | @outside c _ _ noQuote _ ih =>
    rw [repair, bareUnicode, beq_false_of_ne noQuote]
    exact ⟨congrArg (c :: ·) ih.1, ih.2⟩
  | opens _ ih =>
    rw [repair, bareUnicode, beq_self_eq_true]
    exact ⟨congrArg ('"' :: ·) ih.1, ih.2⟩
  | closes _ ih =>
    rw [repair, bareUnicode]
    exact ⟨congrArg ('"' :: ·) ih.1, ih.2⟩
  | element _ second _ ih =>
    rw [repair_element second, bareUnicode_element second, ih.1]
    exact ⟨rfl, ih.2⟩

end Elements

section Texts

/-- The scan does not move hexadecimal digits to or from the front of a text. -/
private theorem startsHex_repair (n : ℕ) (text : List Char) : startsHex n (repair true text) = startsHex n text := by
  induction n generalizing text with
  | zero => rfl
  | succ n ih =>
    cases text with
    | nil => rfl
    | cons c rest =>
      cases digit : isHexDigit c with
      | true => rw [repair_plain (plain_of_isHexDigit digit), startsHex, startsHex, ih]
      | false =>
        have head : ∃ d tail, repair true (c :: rest) = d :: tail ∧ isHexDigit d = false := by
          rw [repair.eq_def]
          split
          · next none => cases none
          · next outside _ => cases outside
          · exact ⟨'"', _, rfl, rfl⟩
          · exact ⟨'\\', _, rfl, rfl⟩
          · split_ifs <;> exact ⟨'\\', _, rfl, rfl⟩
          · split_ifs <;> exact ⟨'\\', _, rfl, rfl⟩
          · next same =>
            cases same
            split_ifs with control
            · unfold escapeControlCharacter
              split_ifs <;> exact ⟨'\\', _, rfl, rfl⟩
            · exact ⟨c, _, rfl, digit⟩
        obtain ⟨d, tail, same, other⟩ := head
        rw [same, startsHex, startsHex, digit, other]
        rfl

/-- Repairing once more changes nothing, and neither repair touches a bare `\u`. -/
theorem repair_repair (inside : Bool) (text : List Char) :
    repair inside (repair inside text) = repair inside text ∧
      bareUnicode inside (repair inside text) = bareUnicode inside text := by
  induction inside, text using bareUnicode.induct with
  | case1 inside => cases inside <;> exact ⟨rfl, rfl⟩
  | case2 c rest ih =>
    rw [repair, repair, bareUnicode, bareUnicode, ih.1]
    exact ⟨rfl, ih.2⟩
  | case3 rest ih =>
    rw [repair, repair, bareUnicode, bareUnicode, ih.1]
    exact ⟨rfl, ih.2⟩
  | case4 => exact ⟨rfl, rfl⟩
  | case5 rest ih =>
    rw [repair_unicode, repair_unicode, bareUnicode, bareUnicode, startsHex_repair, ih.1, ih.2]
    exact ⟨rfl, rfl⟩
  | case6 c rest notUnicode known ih =>
    have simple : (simpleEscape? c).isSome := ((mem_validEscapes).mp known).resolve_right notUnicode
    rw [repair_simple simple, repair_simple simple, bareUnicode_simple simple, bareUnicode_simple simple, ih.1]
    exact ⟨rfl, ih.2⟩
  | case7 c rest notUnicode stray ih =>
    have escape : (simpleEscape? '\\').isSome := rfl
    rw [repair_stray stray, repair_simple escape, bareUnicode_simple escape, bareUnicode_stray stray, ih.1]
    exact ⟨rfl, ih.2⟩
  | case8 c rest noQuote noEnd noUnicode noEscape ih =>
    have other : c ≠ '\\' := by
      rintro rfl
      cases rest with
      | nil => exact noEnd rfl rfl
      | cons d rest => exact noEscape d rest rfl rfl
    cases control : isControlCharacter c with
    | true =>
      rw [repair_control control, repair_element (element_control control),
        bareUnicode_element (element_control control), bareUnicode_plain noQuote other, ih.1]
      exact ⟨rfl, ih.2⟩
    | false =>
      rw [repair_plain ⟨noQuote, other, control⟩, repair_plain ⟨noQuote, other, control⟩,
        bareUnicode_plain noQuote other, bareUnicode_plain noQuote other, ih.1]
      exact ⟨rfl, ih.2⟩

end Texts

end PieAgent.Proofs.JsonRepair
