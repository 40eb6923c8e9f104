import Mathlib.Algebra.Ring.Nat
import Mathlib.Data.List.TakeWhile
import PieAgent.JavaScript.Core.Utf8
import PieAgent.JavaScript.Proofs.StringLiterals

/-! # Decoding bytes that may not be UTF-8

The ASCII characters of a decoded text are its ASCII bytes: what a character of several bytes decodes to, and what
stands for a malformed part, lies beyond ASCII. So lines and white space can be found in the bytes.
-/

namespace JavaScript

/-- Every character that the unfinished one can still become is a scalar value beyond ASCII. -/
private structure Beyond (part : PartialChar) : Prop where
  remaining : part.remaining ≤ 2
  lower : 0x80 ≤ part.lower
  upper : part.upper ≤ 0xBF
  low : 0x80 ≤ (part.value * 64 + (part.lower - 0x80)) * 64 ^ part.remaining
  high : (part.value * 64 + (part.upper - 0x80) + 1) * 64 ^ part.remaining ≤ 0x110000
  scalar : (part.value * 64 + (part.upper - 0x80) + 1) * 64 ^ part.remaining ≤ 0xD800 ∨
    0xDFFF < (part.value * 64 + (part.lower - 0x80)) * 64 ^ part.remaining

private theorem le_toNat_ofNat {n : ℕ} (low : 0x80 ≤ n) (high : n < 0x110000) (scalar : n < 0xD800 ∨ 0xDFFF < n) :
    0x80 ≤ (Char.ofNat n).toNat := by
  have valid : n.isValidChar := by
    rcases scalar with below | above
    · exact .inl below
    · exact .inr ⟨above, high⟩
  rw [toNat_charOfNat valid]
  exact low

private theorem beyond_readLead {byte : ℕ} {part : PartialChar} (lead : (readLead byte).2 = some part) : Beyond part := by
  unfold readLead at lead
  split at lead
  · cases lead
  split at lead
  · obtain rfl := Option.some.inj lead
    constructor <;> dsimp only [Nat.reducePow] <;> omega
  split at lead
  · obtain rfl := Option.some.inj lead
    by_cases first : byte = 0xE0
    · subst first
      constructor <;> decide
    · by_cases surrogates : byte = 0xED
      · subst surrogates
        constructor <;> decide
      · constructor <;> simp only [first, surrogates, if_false, Nat.reducePow] <;> omega
  split at lead
  · obtain rfl := Option.some.inj lead
    by_cases first : byte = 0xF0
    · subst first
      constructor <;> decide
    · by_cases last : byte = 0xF4
      · subst last
        constructor <;> decide
      · constructor <;> simp only [first, last, if_false, Nat.reducePow] <;> omega
  · cases lead

private theorem ascii_readLead {byte : ℕ} {c : Char} (read : c ∈ (readLead byte).1) (ascii : c.toNat < 0x80) :
    c = Char.ofNat byte ∧ byte < 0x80 := by
  unfold readLead at read
  split at read
  · next small => exact ⟨List.mem_singleton.mp read, small⟩
  split at read
  · cases read
  split at read
  · cases read
  split at read
  · cases read
  · rw [List.mem_singleton.mp read] at ascii
    exact absurd ascii (by decide)

private theorem beyond_next {part : PartialChar} (beyond : Beyond part) {byte remaining : ℕ} (low : part.lower ≤ byte)
    (high : byte ≤ part.upper) (more : part.remaining = remaining + 1) :
    Beyond { value := part.value * 64 + (byte - 0x80), remaining } := by
  obtain ⟨few, _, _, above, below, scalar⟩ := beyond
  rw [more] at above below scalar
  have least : (part.value * 64 + (part.lower - 0x80)) * 64 ^ (remaining + 1) ≤
      (part.value * 64 + (byte - 0x80)) * 64 ^ (remaining + 1) :=
    Nat.mul_le_mul_right _ (by omega)
  have most : (part.value * 64 + (byte - 0x80) + 1) * 64 ^ (remaining + 1) ≤
      (part.value * 64 + (part.upper - 0x80) + 1) * 64 ^ (remaining + 1) :=
    Nat.mul_le_mul_right _ (by omega)
  have start (value : ℕ) : (value * 64 + (0x80 - 0x80)) * 64 ^ remaining = value * 64 ^ (remaining + 1) := by
    rw [Nat.sub_self, Nat.add_zero, Nat.pow_succ', Nat.mul_assoc]
  have stop (value : ℕ) : (value * 64 + (0xBF - 0x80) + 1) * 64 ^ remaining = (value + 1) * 64 ^ (remaining + 1) := by
    rw [Nat.pow_succ', ← Nat.mul_assoc, Nat.add_mul value 1 64]
  constructor
  · dsimp only
    omega
  · exact le_rfl
  · exact le_rfl
  · dsimp only
    rw [start]
    exact above.trans least
  · dsimp only
    rw [stop]
    exact most.trans below
  · dsimp only
    rw [stop, start]
    exact scalar.imp most.trans least.trans_lt'

private theorem beyond_last {part : PartialChar} (beyond : Beyond part) {byte : ℕ} (low : part.lower ≤ byte)
    (high : byte ≤ part.upper) (last : part.remaining = 0) :
    0x80 ≤ (Char.ofNat (part.value * 64 + (byte - 0x80))).toNat := by
  obtain ⟨_, lower, upper, above, below, scalar⟩ := beyond
  rw [last, Nat.pow_zero, Nat.mul_one] at above below scalar
  apply le_toNat_ofNat <;> omega

/-- One byte of the decoder: an unfinished character stays beyond ASCII, and an ASCII character is the byte itself. -/
private theorem readByte_spec {pending : Option PartialChar} (beyond : ∀ part ∈ pending, Beyond part) (byte : ℕ) :
    (∀ part ∈ (readByte pending byte).2, Beyond part) ∧
      ∀ c ∈ (readByte pending byte).1, c.toNat < 0x80 → c = Char.ofNat byte ∧ byte < 0x80 := by
  cases pending with
  | none => exact ⟨fun part next => beyond_readLead next, fun c read ascii => ascii_readLead read ascii⟩
  | some part =>
    have known := beyond part rfl
    unfold readByte
    dsimp only
    split
    · next within =>
      split
      · next last =>
        refine ⟨nofun, fun c read ascii => ?_⟩
        rw [List.mem_singleton.mp read] at ascii
        have := beyond_last known within.1 within.2 last
        omega
      · next remaining more =>
        refine ⟨fun next same => ?_, nofun⟩
        obtain rfl := Option.some.inj same
        exact beyond_next known within.1 within.2 more
    · refine ⟨fun part next => beyond_readLead next, fun c read ascii => ?_⟩
      rcases List.mem_cons.mp read with rfl | later
      · exact absurd ascii (by decide)
      · exact ascii_readLead later ascii

private theorem mem_of_mem_decodeFrom {pending : Option PartialChar} (beyond : ∀ part ∈ pending, Beyond part)
    {bytes : List UInt8} {c : Char} (member : c ∈ decodeFrom pending bytes) (ascii : c.toNat < 0x80) :
    ∃ byte ∈ bytes, byte.toNat < 0x80 ∧ c = Char.ofNat byte.toNat := by
  induction bytes generalizing pending with
  | nil =>
    rw [decodeFrom] at member
    split at member
    · rw [List.mem_singleton.mp member] at ascii
      exact absurd ascii (by decide)
    · cases member
  | cons byte bytes ih =>
    obtain ⟨next, here⟩ := readByte_spec beyond byte.toNat
    rw [decodeFrom] at member
    rcases List.mem_append.mp member with read | later
    · obtain ⟨same, small⟩ := here c read ascii
      exact ⟨byte, List.mem_cons_self, small, same⟩
    · obtain ⟨found, listed, facts⟩ := ih next later
      exact ⟨found, List.mem_cons_of_mem byte listed, facts⟩

/-- An ASCII character of the text is a byte. -/
theorem mem_of_mem_decodeUtf8 {bytes : List UInt8} {c : Char} (member : c ∈ decodeUtf8 bytes) (ascii : c.toNat < 0x80) :
    ∃ byte ∈ bytes, byte.toNat < 0x80 ∧ c = Char.ofNat byte.toNat :=
  mem_of_mem_decodeFrom (by simp) member ascii

private theorem ascii_decodeFrom {pending : Option PartialChar} (beyond : ∀ part ∈ pending, Beyond part)
    {bytes : List UInt8} (ascii : ∀ c ∈ decodeFrom pending bytes, c.toNat < 0x80) :
    pending = none ∧ ∀ byte ∈ bytes, Char.ofNat byte.toNat ∈ decodeFrom pending bytes := by
  induction bytes generalizing pending with
  | nil =>
    cases pending with
    | none => exact ⟨rfl, nofun⟩
    | some part =>
      have := ascii replacementChar List.mem_cons_self
      exact absurd this (by decide)
  | cons byte bytes ih =>
    obtain ⟨next, _⟩ := readByte_spec beyond byte.toNat
    rw [decodeFrom] at ascii ⊢
    obtain ⟨finished, rest⟩ := ih next fun c member => ascii c (List.mem_append_right _ member)
    have here : ∀ c ∈ (readByte pending byte.toNat).1, c.toNat < 0x80 := fun c member =>
      ascii c (List.mem_append_left _ member)
    have started : pending = none ∧ Char.ofNat byte.toNat ∈ (readByte pending byte.toNat).1 := by
      cases pending with
      | none =>
        refine ⟨rfl, ?_⟩
        unfold readByte readLead at here finished ⊢
        dsimp only at here finished ⊢
        split
        · exact List.mem_cons_self
        · next large =>
          rw [if_neg large] at here finished
          split at finished
          · cases finished
          split at finished
          · cases finished
          split at finished
          · cases finished
          · next first second third =>
            rw [if_neg first, if_neg second, if_neg third] at here
            have := here replacementChar List.mem_cons_self
            exact absurd this (by decide)
      | some part =>
        unfold readByte at here finished
        dsimp only at here finished
        split at finished
        · next within =>
          rw [if_pos within] at here
          split at finished
          · next last =>
            rw [last] at here
            have := here _ List.mem_cons_self
            have := beyond_last (beyond part rfl) within.1 within.2 last
            omega
          · cases finished
        · next without =>
          rw [if_neg without] at here
          have := here replacementChar List.mem_cons_self
          exact absurd this (by decide)
    refine ⟨started.1, List.forall_mem_cons.mpr ⟨List.mem_append_left _ started.2, fun other member => ?_⟩⟩
    exact List.mem_append_right _ (rest other member)

/-- All bytes of an ASCII text are its characters. -/
theorem mem_decodeUtf8_of_ascii {bytes : List UInt8} (ascii : ∀ c ∈ decodeUtf8 bytes, c.toNat < 0x80) {byte : UInt8}
    (member : byte ∈ bytes) : Char.ofNat byte.toNat ∈ decodeUtf8 bytes :=
  (ascii_decodeFrom (by simp) ascii).2 byte member

private theorem encodeChar_ofNat {byte : UInt8} (ascii : byte.toNat < 0x80) :
    encodeChar (Char.ofNat byte.toNat) = [byte] ∧ (Char.ofNat byte.toNat).toNat < 0x80 := by
  have code : (Char.ofNat byte.toNat).toNat = byte.toNat := by
    rw [toNat_charOfNat (.inl (by omega))]
  unfold encodeChar
  rw [code]
  dsimp only
  rw [if_pos ascii, UInt8.ofNat_toNat]
  exact ⟨rfl, ascii⟩

/-- An ASCII byte ends whatever stands unfinished before it. -/
theorem decodeUtf8_byte_between (bytes : List UInt8) {byte : UInt8} (ascii : byte.toNat < 0x80) (more : List UInt8) :
    decodeUtf8 (bytes ++ byte :: more) = decodeUtf8 bytes ++ Char.ofNat byte.toNat :: decodeUtf8 more := by
  obtain ⟨encoded, small⟩ := encodeChar_ofNat ascii
  have between := decodeUtf8_ascii_between bytes small more
  rwa [encoded, List.singleton_append] at between

/-- ASCII bytes behind other bytes are read one by one. -/
theorem decodeUtf8_append_bytes (bytes : List UInt8) {more : List UInt8} (ascii : ∀ byte ∈ more, byte.toNat < 0x80) :
    decodeUtf8 (bytes ++ more) = decodeUtf8 bytes ++ more.map fun byte => Char.ofNat byte.toNat := by
  induction more generalizing bytes with
  | nil => simp
  | cons byte more ih =>
    obtain ⟨here, later⟩ := List.forall_mem_cons.mp ascii
    rw [show bytes ++ byte :: more = bytes ++ [byte] ++ more by simp, ih _ later, decodeUtf8_byte_between bytes here,
      List.map_cons, List.append_assoc]
    rfl

/-- A text that ends with no replacement character leaves nothing unfinished. -/
theorem decodeUtf8_append_of_ends {bytes : List UInt8} (ends : (decodeUtf8 bytes).getLast? ≠ some replacementChar)
    (more : List UInt8) : decodeUtf8 (bytes ++ more) = decodeUtf8 bytes ++ decodeUtf8 more := by
  have whole := decodeFrom_append none bytes []
  have split := decodeFrom_append none bytes more
  rw [List.append_nil] at whole
  cases left : (decodePart none bytes).2 with
  | none =>
    rw [left] at whole split
    rw [decodeUtf8, split, decodeUtf8, whole]
    rw [decodeFrom, Option.isSome_none, if_neg Bool.false_ne_true, List.append_nil]
    rfl
  | some part =>
    rw [left] at whole
    exact absurd (by rw [decodeUtf8, whole]; exact List.getLast?_concat) ends

/-- The first line of the text is the decoded first line of the bytes. -/
theorem head?_splitOn_decodeUtf8 (bytes : List UInt8) :
    ((decodeUtf8 bytes).splitOn '\n').head? = some (decodeUtf8 (bytes.takeWhile (· != 10))) := by
  have single : '\n' ∉ decodeUtf8 (bytes.takeWhile (· != 10)) := by
    intro member
    obtain ⟨byte, listed, small, same⟩ := mem_of_mem_decodeUtf8 member (by decide)
    have other := List.mem_takeWhile_imp listed
    have code : byte.toNat = 10 := by
      have := congrArg Char.toNat same
      rw [@toNat_charOfNat byte.toNat (.inl (by omega))] at this
      exact this.symm
    rw [show byte = 10 from UInt8.toNat_inj.mp code] at other
    exact absurd other (by decide)
  cases rest : bytes.dropWhile (· != 10) with
  | nil =>
    have whole := List.takeWhile_append_dropWhile (p := (· != 10)) (l := bytes)
    rw [rest, List.append_nil] at whole
    rw [whole] at single ⊢
    rw [List.splitOn_eq_singleton single]
    rfl
  | cons byte more =>
    have split := List.takeWhile_append_dropWhile (p := (· != 10)) (l := bytes)
    have feed := List.head?_dropWhile_not (· != 10) bytes
    rw [rest] at split feed
    obtain rfl : byte = 10 := by simpa using feed
    conv => lhs; rw [← split]
    rw [decodeUtf8_byte_between _ (by decide)]
    change ((_ ++ '\n' :: decodeUtf8 more).splitOn '\n').head? = _
    rw [List.splitOn_append_cons_self_of_not_mem single]
    rfl

end JavaScript
