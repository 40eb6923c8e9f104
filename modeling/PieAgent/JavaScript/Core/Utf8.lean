import Mathlib.Data.List.Basic
import Mathlib.Tactic.Common

/-! # UTF-8 encoding and replacement decoding

Decoding never fails. A maximal part of a character that is not continued properly, also at the end of
the bytes, becomes one replacement character. Bytes cut from the end of an encoded text thus cost the
characters they belong to, and at most one replacement character appears in their place.
-/

namespace JavaScript

/-- The bytes of one character. -/
def encodeChar (c : Char) : List UInt8 :=
  let n := c.toNat
  if n < 0x80 then [UInt8.ofNat n]
  else if n < 0x800 then [UInt8.ofNat (0xC0 + n / 64), UInt8.ofNat (0x80 + n % 64)]
  else if n < 0x10000 then
    [UInt8.ofNat (0xE0 + n / 4096), UInt8.ofNat (0x80 + n / 64 % 64), UInt8.ofNat (0x80 + n % 64)]
  else
    [UInt8.ofNat (0xF0 + n / 262144), UInt8.ofNat (0x80 + n / 4096 % 64), UInt8.ofNat (0x80 + n / 64 % 64),
      UInt8.ofNat (0x80 + n % 64)]

def encodeUtf8 (text : List Char) : List UInt8 := text.flatMap encodeChar

/-- A character of which some bytes have been read: its value so far, how many bytes follow the next one,
and the bounds of the next one. -/
structure PartialChar where
  value : ℕ
  remaining : ℕ
  lower : ℕ := 0x80
  upper : ℕ := 0xBF

def replacementChar : Char := Char.ofNat 0xFFFD

/-- The first byte of a character. -/
def readLead (byte : ℕ) : List Char × Option PartialChar :=
  if byte < 0x80 then ([Char.ofNat byte], none)
  else if 0xC2 ≤ byte ∧ byte ≤ 0xDF then ([], some { value := byte - 0xC0, remaining := 0 })
  else if 0xE0 ≤ byte ∧ byte ≤ 0xEF then
    ([], some
      { value := byte - 0xE0, remaining := 1, lower := if byte = 0xE0 then 0xA0 else 0x80
        upper := if byte = 0xED then 0x9F else 0xBF })
  else if 0xF0 ≤ byte ∧ byte ≤ 0xF4 then
    ([], some
      { value := byte - 0xF0, remaining := 2, lower := if byte = 0xF0 then 0x90 else 0x80
        upper := if byte = 0xF4 then 0x8F else 0xBF })
  else ([replacementChar], none)

/-- One byte of the decoder. A byte out of bounds ends the character before it and is read again. -/
def readByte (pending : Option PartialChar) (byte : ℕ) : List Char × Option PartialChar :=
  match pending with
  | none => readLead byte
  | some part =>
    if part.lower ≤ byte ∧ byte ≤ part.upper then
      let value := part.value * 64 + (byte - 0x80)
      match part.remaining with
      | 0 => ([Char.ofNat value], none)
      | remaining + 1 => ([], some { value, remaining })
    else (replacementChar :: (readLead byte).1, (readLead byte).2)

def decodeFrom (pending : Option PartialChar) : List UInt8 → List Char
  | [] => if pending.isSome then [replacementChar] else []
  | byte :: rest => (readByte pending byte.toNat).1 ++ decodeFrom (readByte pending byte.toNat).2 rest

/-- Decode bytes as UTF-8, replacing what is malformed. -/
def decodeUtf8 (bytes : List UInt8) : List Char := decodeFrom none bytes

variable {c : Char} {text : List Char}

@[simp] theorem encodeUtf8_nil : encodeUtf8 [] = [] := rfl

@[simp] theorem encodeUtf8_cons (c : Char) (text : List Char) : encodeUtf8 (c :: text) = encodeChar c ++ encodeUtf8 text :=
  rfl

@[simp] theorem encodeUtf8_append (front back : List Char) :
    encodeUtf8 (front ++ back) = encodeUtf8 front ++ encodeUtf8 back :=
  List.flatMap_append

theorem length_encodeUtf8_replicate (n : ℕ) (c : Char) :
    (encodeUtf8 (List.replicate n c)).length = n * (encodeChar c).length := by
  induction n with
  | zero => simp
  | succ n ih =>
    rw [List.replicate_succ, encodeUtf8_cons, List.length_append, ih, Nat.succ_mul, Nat.add_comm]

private theorem toNat_ofNat_byte {n : ℕ} (small : n < 256) : (UInt8.ofNat n).toNat = n :=
  UInt8.toNat_ofNat_of_lt' small

private theorem decodeFrom_cons (pending : Option PartialChar) (byte : UInt8) (rest : List UInt8) :
    decodeFrom pending (byte :: rest) =
      (readByte pending byte.toNat).1 ++ decodeFrom (readByte pending byte.toNat).2 rest := rfl

private theorem decodeFrom_next {part : PartialChar} {n remaining : ℕ} (small : n < 64)
    (low : part.lower ≤ 0x80 + n) (high : 0x80 + n ≤ part.upper) (more : part.remaining = remaining + 1)
    (bytes : List UInt8) :
    decodeFrom (some part) (UInt8.ofNat (0x80 + n) :: bytes) =
      decodeFrom (some { value := part.value * 64 + n, remaining }) bytes := by
  rw [decodeFrom_cons, toNat_ofNat_byte (show 0x80 + n < 256 by omega)]
  simp [readByte, low, high, more]

private theorem decodeFrom_last {part : PartialChar} {n : ℕ} (small : n < 64) (low : part.lower ≤ 0x80 + n)
    (high : 0x80 + n ≤ part.upper) (done : part.remaining = 0) (bytes : List UInt8) :
    decodeFrom (some part) (UInt8.ofNat (0x80 + n) :: bytes) =
      Char.ofNat (part.value * 64 + n) :: decodeFrom none bytes := by
  rw [decodeFrom_cons, toNat_ofNat_byte (show 0x80 + n < 256 by omega)]
  simp [readByte, low, high, done]

private theorem decodeFrom_lead {n : ℕ} {part : PartialChar} (small : n < 256) (lead : readLead n = ([], some part))
    (bytes : List UInt8) : decodeFrom none (UInt8.ofNat n :: bytes) = decodeFrom (some part) bytes := by
  rw [decodeFrom_cons, toNat_ofNat_byte small]
  simp [readByte, lead]

private theorem readLead_two {n : ℕ} (low : 2 ≤ n) (high : n < 32) :
    readLead (0xC0 + n) = ([], some { value := n, remaining := 0 }) := by
  simp [readLead, show ¬ 0xC0 + n < 0x80 by omega, show 0xC2 ≤ 0xC0 + n by omega, show 0xC0 + n ≤ 0xDF by omega]

private theorem readLead_three {n : ℕ} (high : n < 16) :
    readLead (0xE0 + n) = ([], some
      { value := n, remaining := 1, lower := if n = 0 then 0xA0 else 0x80, upper := if n = 13 then 0x9F else 0xBF }) := by
  simp [readLead, show ¬ 0xE0 + n < 0x80 by omega, show ¬ 0xE0 + n ≤ 0xDF by omega, show 0xE0 + n ≤ 0xEF by omega,
    show 0xE0 + n = 0xED ↔ n = 13 by omega]

private theorem readLead_four {n : ℕ} (high : n < 5) :
    readLead (0xF0 + n) = ([], some
      { value := n, remaining := 2, lower := if n = 0 then 0x90 else 0x80, upper := if n = 4 then 0x8F else 0xBF }) := by
  simp [readLead, show ¬ 0xF0 + n < 0x80 by omega, show ¬ 0xF0 + n ≤ 0xDF by omega, show ¬ 0xF0 + n ≤ 0xEF by omega,
    show 0xF0 + n ≤ 0xF4 by omega, show 0xF0 + n = 0xF4 ↔ n = 4 by omega]

/-- The bytes of a character up to any place before its end are one unfinished character. -/
private structure Decodes (bytes : List UInt8) (c : Char) : Prop where
  whole : ∀ more, decodeFrom none (bytes ++ more) = c :: decodeFrom none more
  cut : ∀ n, 0 < n → n < bytes.length → decodeFrom none (bytes.take n) = [replacementChar]

private theorem decodes_one {n : ℕ} (high : n < 0x80) : Decodes [UInt8.ofNat n] (Char.ofNat n) where
  whole more := by simp [decodeFrom_cons, readByte, toNat_ofNat_byte (show n < 256 by omega), readLead, high]
  cut k pos short := absurd short (by simp; omega)

private theorem decodes_two {n : ℕ} (low : 0x80 ≤ n) (high : n < 0x800) :
    Decodes [UInt8.ofNat (0xC0 + n / 64), UInt8.ofNat (0x80 + n % 64)] (Char.ofNat n) where
  whole more := by
    simp only [List.cons_append, List.nil_append]
    rw [decodeFrom_lead (by omega) (readLead_two (by omega) (by omega)),
      decodeFrom_last (by omega) (by simp) (by simp; omega) rfl]
    congr 2
    dsimp only
    omega
  cut k pos short := by
    obtain rfl : k = 1 := by simp at short; omega
    simp only [List.take_succ_cons, List.take_zero]
    rw [decodeFrom_lead (by omega) (readLead_two (by omega) (by omega))]
    rfl

private theorem decodes_three {n : ℕ} (low : 0x800 ≤ n) (high : n < 0x10000) (scalar : n < 0xD800 ∨ 0xDFFF < n) :
    Decodes [UInt8.ofNat (0xE0 + n / 4096), UInt8.ofNat (0x80 + n / 64 % 64), UInt8.ofNat (0x80 + n % 64)]
      (Char.ofNat n) where
  whole more := by
    simp only [List.cons_append, List.nil_append]
    rw [decodeFrom_lead (by omega) (readLead_three (by omega)),
      decodeFrom_next (by omega) (by dsimp only; split <;> omega) (by dsimp only; split <;> omega) rfl,
      decodeFrom_last (by omega) (by simp) (by simp; omega) rfl]
    congr 2
    dsimp only
    omega
  cut k pos short := by
    obtain rfl | rfl : k = 1 ∨ k = 2 := by simp at short; omega
    · simp only [List.take_succ_cons, List.take_zero]
      rw [decodeFrom_lead (by omega) (readLead_three (by omega))]
      rfl
    · simp only [List.take_succ_cons, List.take_zero]
      rw [decodeFrom_lead (by omega) (readLead_three (by omega)),
        decodeFrom_next (by omega) (by dsimp only; split <;> omega) (by dsimp only; split <;> omega) rfl]
      rfl

private theorem decodes_four {n : ℕ} (low : 0x10000 ≤ n) (high : n < 0x110000) :
    Decodes [UInt8.ofNat (0xF0 + n / 262144), UInt8.ofNat (0x80 + n / 4096 % 64), UInt8.ofNat (0x80 + n / 64 % 64),
      UInt8.ofNat (0x80 + n % 64)] (Char.ofNat n) where
  whole more := by
    simp only [List.cons_append, List.nil_append]
    rw [decodeFrom_lead (by omega) (readLead_four (by omega)),
      decodeFrom_next (by omega) (by dsimp only; split <;> omega) (by dsimp only; split <;> omega) rfl,
      decodeFrom_next (by omega) (by simp) (by simp; omega) rfl,
      decodeFrom_last (by omega) (by simp) (by simp; omega) rfl]
    congr 2
    dsimp only
    omega
  cut k pos short := by
    obtain rfl | rfl | rfl : k = 1 ∨ k = 2 ∨ k = 3 := by simp at short; omega
    · simp only [List.take_succ_cons, List.take_zero]
      rw [decodeFrom_lead (by omega) (readLead_four (by omega))]
      rfl
    · simp only [List.take_succ_cons, List.take_zero]
      rw [decodeFrom_lead (by omega) (readLead_four (by omega)),
        decodeFrom_next (by omega) (by dsimp only; split <;> omega) (by dsimp only; split <;> omega) rfl]
      rfl
    · simp only [List.take_succ_cons, List.take_zero]
      rw [decodeFrom_lead (by omega) (readLead_four (by omega)),
        decodeFrom_next (by omega) (by dsimp only; split <;> omega) (by dsimp only; split <;> omega) rfl,
        decodeFrom_next (by omega) (by simp) (by simp; omega) rfl]
      rfl

private theorem decodes_encodeChar (c : Char) : Decodes (encodeChar c) c := by
  have scalar : c.toNat < 0xD800 ∨ 0xDFFF < c.toNat ∧ c.toNat < 0x110000 := c.valid
  conv => rhs; rw [← Char.ofNat_toNat c]
  unfold encodeChar
  dsimp only
  split
  · next high => exact decodes_one high
  split
  · next low high => exact decodes_two (by omega) high
  split
  · next low high => exact decodes_three (by omega) high (by omega)
  · next low => exact decodes_four (by omega) (by omega)

/-- Decoding an encoded text gives the text back, whatever follows. -/
theorem decodeUtf8_encodeUtf8_append (text : List Char) (bytes : List UInt8) :
    decodeUtf8 (encodeUtf8 text ++ bytes) = text ++ decodeUtf8 bytes := by
  induction text with
  | nil => rfl
  | cons c text ih =>
    rw [encodeUtf8_cons, List.append_assoc, decodeUtf8, (decodes_encodeChar c).whole]
    exact congrArg (c :: ·) ih

@[simp] theorem decodeUtf8_encodeUtf8 (text : List Char) : decodeUtf8 (encodeUtf8 text) = text := by
  simpa [show decodeUtf8 [] = [] from rfl] using decodeUtf8_encodeUtf8_append text []

/-- The first bytes of an encoded text decode to a front of the text, and to a replacement character for what is cut. -/
theorem decodeUtf8_take (text : List Char) (n : ℕ) :
    ∃ front back, text = front ++ back ∧ ((encodeUtf8 text).take n = encodeUtf8 front ∨
      back ≠ [] ∧ n < (encodeUtf8 text).length ∧ decodeUtf8 ((encodeUtf8 text).take n) = front ++ [replacementChar]) := by
  induction text generalizing n with
  | nil => exact ⟨[], [], rfl, .inl (by simp)⟩
  | cons c text ih =>
    rw [encodeUtf8_cons]
    by_cases whole : (encodeChar c).length ≤ n
    · obtain ⟨front, back, split, rest⟩ := ih (n - (encodeChar c).length)
      refine ⟨c :: front, back, by rw [split]; rfl, ?_⟩
      rw [List.take_append, List.take_of_length_le whole]
      rcases rest with complete | ⟨more, short, decoded⟩
      · exact .inl (by rw [complete]; rfl)
      · refine .inr ⟨more, by rw [List.length_append]; omega, ?_⟩
        have := decodeUtf8_encodeUtf8_append [c] ((encodeUtf8 text).take (n - (encodeChar c).length))
        rw [encodeUtf8_cons, encodeUtf8_nil, List.append_nil] at this
        rw [this, decoded]
        rfl
    · refine ⟨[], c :: text, rfl, ?_⟩
      rw [List.take_append_of_le_length (by omega)]
      rcases Nat.eq_zero_or_pos n with rfl | pos
      · exact .inl (by simp)
      · refine .inr ⟨by simp, by rw [List.length_append]; omega, ?_⟩
        exact (decodes_encodeChar c).cut n pos (by omega)

private theorem lower_readLead {byte : ℕ} {part : PartialChar} (lead : (readLead byte).2 = some part) :
    0x80 ≤ part.lower := by
  unfold readLead at lead
  split at lead
  · cases lead
  split at lead
  · exact Option.some.inj lead ▸ Nat.le_refl 0x80
  split at lead
  · rw [← Option.some.inj lead]
    dsimp only
    split <;> omega
  split at lead
  · rw [← Option.some.inj lead]
    dsimp only
    split <;> omega
  · cases lead

private theorem lower_readByte {pending : Option PartialChar} {byte : ℕ} {part : PartialChar}
    (read : (readByte pending byte).2 = some part) : 0x80 ≤ part.lower := by
  unfold readByte at read
  split at read
  · exact lower_readLead read
  split at read
  · dsimp only at read
    split at read
    · cases read
    · exact Option.some.inj read ▸ Nat.le_refl 0x80
  · exact lower_readLead read

private theorem decodeFrom_ascii (ascii : c.toNat < 0x80) (bytes more : List UInt8)
    (pending : Option PartialChar) (low : ∀ part ∈ pending, 0x80 ≤ part.lower) :
    decodeFrom pending (bytes ++ (encodeChar c ++ more)) = decodeFrom pending bytes ++ c :: decodeUtf8 more := by
  have fresh : decodeUtf8 (encodeChar c ++ more) = c :: decodeUtf8 more := by
    simpa using decodeUtf8_encodeUtf8_append [c] more
  induction bytes generalizing pending with
  | nil =>
    cases pending with
    | none => exact fresh
    | some part =>
      have small : ¬ (part.lower ≤ c.toNat ∧ c.toNat ≤ part.upper) := by
        have := low part rfl
        omega
      have byte : encodeChar c = [UInt8.ofNat c.toNat] := by
        unfold encodeChar
        exact if_pos ascii
      rw [byte, decodeUtf8, List.singleton_append, decodeFrom_cons, toNat_ofNat_byte (show c.toNat < 256 by omega)] at fresh
      have again : decodeFrom (some part) (UInt8.ofNat c.toNat :: more) =
          replacementChar :: ((readLead c.toNat).1 ++ decodeFrom (readLead c.toNat).2 more) := by
        rw [decodeFrom_cons, toNat_ofNat_byte (show c.toNat < 256 by omega)]
        simp only [readByte, small, if_false, List.cons_append]
      rw [List.nil_append, byte, List.singleton_append, again]
      exact congrArg (replacementChar :: ·) fresh
  | cons byte bytes ih =>
    rw [List.cons_append, decodeFrom_cons, decodeFrom_cons, ih, List.append_assoc]
    exact fun part next => lower_readByte (Option.mem_def.mp next)

/-- An ASCII character ends whatever stands unfinished before it. -/
theorem decodeUtf8_ascii_between (bytes : List UInt8) (ascii : c.toNat < 0x80) (more : List UInt8) :
    decodeUtf8 (bytes ++ (encodeChar c ++ more)) = decodeUtf8 bytes ++ c :: decodeUtf8 more :=
  decodeFrom_ascii ascii bytes more none nofun

theorem decodeUtf8_append_ascii (bytes : List UInt8) (ascii : c.toNat < 0x80) (text : List Char) :
    decodeUtf8 (bytes ++ encodeUtf8 (c :: text)) = decodeUtf8 bytes ++ c :: text := by
  rw [encodeUtf8_cons, decodeUtf8_ascii_between bytes ascii, decodeUtf8_encodeUtf8]

section Decoders

/-- U+FEFF at the start of what a `TextDecoder` decodes. -/
def byteOrderMark : Char := Char.ofNat 0xFEFF

def dropMark : List Char → List Char
  | c :: text => if c = byteOrderMark then text else c :: text
  | [] => []

/-- Bytes that need no replacement. -/
def IsUtf8 (bytes : List UInt8) : Prop := encodeUtf8 (decodeUtf8 bytes) = bytes

instance (bytes : List UInt8) : Decidable (IsUtf8 bytes) := inferInstanceAs (Decidable (_ = _))

/-- `new TextDecoder("utf-8", { fatal: true }).decode`: absent where it throws. -/
def decodeFatal? (bytes : List UInt8) : Option (List Char) :=
  if IsUtf8 bytes then some (dropMark (decodeUtf8 bytes)) else none

theorem isUtf8_encodeUtf8 (text : List Char) : IsUtf8 (encodeUtf8 text) := by
  rw [IsUtf8, decodeUtf8_encodeUtf8]

theorem IsUtf8.decode_append {bytes : List UInt8} (valid : IsUtf8 bytes) (more : List UInt8) :
    decodeUtf8 (bytes ++ more) = decodeUtf8 bytes ++ decodeUtf8 more := by
  have split := decodeUtf8_encodeUtf8_append (decodeUtf8 bytes) more
  rwa [valid] at split

/-- A `TextDecoder` between two calls of `decode` with `stream: true`: the character that has not ended, and whether
a character has been given, so that no mark is dropped any more. -/
structure TextDecoder where
  pending : Option PartialChar := none
  started : Bool := false

/-- What some bytes give, and the character that they leave unfinished. -/
def decodePart (pending : Option PartialChar) : List UInt8 → List Char × Option PartialChar
  | [] => ([], pending)
  | byte :: rest =>
    let (text, pending) := readByte pending byte.toNat
    let (more, pending) := decodePart pending rest
    (text ++ more, pending)

/-- `decoder.decode(bytes, { stream: true })`. -/
def TextDecoder.decode (decoder : TextDecoder) (bytes : List UInt8) : List Char × TextDecoder :=
  let part := decodePart decoder.pending bytes
  (if decoder.started then part.1 else dropMark part.1,
    { pending := part.2, started := decoder.started || !part.1.isEmpty })

/-- `decoder.decode()`. -/
def TextDecoder.flush (decoder : TextDecoder) : List Char := decodeFrom decoder.pending []

theorem decodeFrom_append (pending : Option PartialChar) (bytes more : List UInt8) :
    decodeFrom pending (bytes ++ more) =
      (decodePart pending bytes).1 ++ decodeFrom (decodePart pending bytes).2 more := by
  induction bytes generalizing pending with
  | nil => rfl
  | cons byte bytes ih => rw [List.cons_append, decodeFrom, ih, decodePart, List.append_assoc]

/-- The texts that a decoder gives for some chunks, and for the end. -/
def TextDecoder.pieces (decoder : TextDecoder) : List (List UInt8) → List (List Char)
  | [] => [decoder.flush]
  | chunk :: chunks => (decoder.decode chunk).1 :: (decoder.decode chunk).2.pieces chunks

private theorem dropMark_append {text : List Char} (nonempty : text ≠ []) (more : List Char) :
    dropMark (text ++ more) = dropMark text ++ more := by
  cases text with
  | nil => exact absurd rfl nonempty
  | cons c text =>
    rw [List.cons_append, dropMark, dropMark]
    split <;> rfl

private theorem dropMark_flush (pending : Option PartialChar) : dropMark (decodeFrom pending []) = decodeFrom pending [] := by
  cases pending <;> rfl

/-- Decoding in chunks gives the text of all the bytes. -/
theorem TextDecoder.flatten_pieces (decoder : TextDecoder) (chunks : List (List UInt8)) :
    (decoder.pieces chunks).flatten = if decoder.started then decodeFrom decoder.pending chunks.flatten
      else dropMark (decodeFrom decoder.pending chunks.flatten) := by
  induction chunks generalizing decoder with
  | nil =>
    rw [pieces, flush, List.flatten_cons, List.flatten_nil, List.flatten_nil, List.append_nil, dropMark_flush, ite_self]
  | cons chunk chunks ih =>
    rw [pieces, List.flatten_cons, ih, List.flatten_cons, decodeFrom_append]
    cases started : decoder.started with
    | true => simp [decode, started]
    | false =>
      cases text : (decodePart decoder.pending chunk).1 with
      | nil => simp [decode, started, text, dropMark]
      | cons c rest =>
        have moved := dropMark_append (List.cons_ne_nil c rest) (decodeFrom (decodePart decoder.pending chunk).2 chunks.flatten)
        simp [decode, started, text, ← moved]

end Decoders

end JavaScript
