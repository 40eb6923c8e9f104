import Mathlib.Algebra.Ring.Int.Defs
import PieAgent.Model.Session.Uuid
import PieAgent.ToMathlib.Lexicographic

/-! # Session ids increase

Every id carries a larger timestamp than the one before, or the same timestamp and a larger sequence number. The bytes
keep this order, since the version and the variant are the same in every id and the random bits come last; so do
the hexadecimal digits. All of this holds while the timestamp is a number of 48 bits.
-/

namespace PieAgent.Soundness.SessionIds

open JavaScript Model Uuid

/-- The text of a UUID whose version is 7 and whose variant is the one of the standard. -/
structure IsVersion7 (id : JsString) : Prop where
  length : id.length = 36
  version : id[14]? = some '7'.toNat.toUInt16
  variant : ∃ unit ∈ js "89ab", id[19]? = some unit

/-- A timestamp that the six bytes of an id can hold. -/
def Fits (timestamp : ℤ) : Prop := 0 ≤ timestamp ∧ timestamp < 2 ^ 48

instance (timestamp : ℤ) : Decidable (Fits timestamp) := inferInstanceAs (Decidable (_ ∧ _))

section Bytes

variable (sequence : UInt32) (random : Fin 16 → UInt8)

private theorem version_toNat :
    ((0x70 : UInt32) ||| sequence >>> 28 &&& 0x0F).toUInt8.toNat = 112 + sequence.toNat / 2 ^ 28 % 16 := by
  have table : ∀ n < 16, (112 ||| n) % 256 = 112 + n := by decide
  have low : sequence.toNat / 2 ^ 28 &&& 15 = sequence.toNat / 2 ^ 28 % 16 := Nat.and_two_pow_sub_one_eq_mod _ 4
  simp only [UInt32.toNat_toUInt8, UInt32.toNat_or, UInt32.toNat_and, UInt32.toNat_shiftRight,
    Nat.shiftRight_eq_div_pow, UInt32.reduceToNat, Nat.reduceMod]
  rw [low, table _ (Nat.mod_lt _ (by decide))]

private theorem variant_toNat :
    ((0x80 : UInt32) ||| sequence >>> 14 &&& 0x3F).toUInt8.toNat = 128 + sequence.toNat / 2 ^ 14 % 64 := by
  have table : ∀ n < 64, (128 ||| n) % 256 = 128 + n := by decide
  have low : sequence.toNat / 2 ^ 14 &&& 63 = sequence.toNat / 2 ^ 14 % 64 := Nat.and_two_pow_sub_one_eq_mod _ 6
  simp only [UInt32.toNat_toUInt8, UInt32.toNat_or, UInt32.toNat_and, UInt32.toNat_shiftRight,
    Nat.shiftRight_eq_div_pow, UInt32.reduceToNat, Nat.reduceMod]
  rw [low, table _ (Nat.mod_lt _ (by decide))]

private theorem high_toNat : (sequence >>> 20 &&& 0xFF).toUInt8.toNat = sequence.toNat / 2 ^ 20 % 256 := by
  have low : sequence.toNat / 2 ^ 20 &&& 255 = sequence.toNat / 2 ^ 20 % 256 := Nat.and_two_pow_sub_one_eq_mod _ 8
  simp only [UInt32.toNat_toUInt8, UInt32.toNat_and, UInt32.toNat_shiftRight, Nat.shiftRight_eq_div_pow,
    UInt32.reduceToNat, Nat.reduceMod]
  rw [low, Nat.mod_mod]

private theorem low_toNat : (sequence >>> 6 &&& 0xFF).toUInt8.toNat = sequence.toNat / 2 ^ 6 % 256 := by
  have low : sequence.toNat / 2 ^ 6 &&& 255 = sequence.toNat / 2 ^ 6 % 256 := Nat.and_two_pow_sub_one_eq_mod _ 8
  simp only [UInt32.toNat_toUInt8, UInt32.toNat_and, UInt32.toNat_shiftRight, Nat.shiftRight_eq_div_pow,
    UInt32.reduceToNat, Nat.reduceMod]
  rw [low, Nat.mod_mod]

private theorem last_toNat : ((sequence &&& 0x3F) <<< 2 ||| (random 10 &&& 0x03).toUInt32).toUInt8.toNat =
    sequence.toNat % 64 * 4 + (random 10).toNat % 4 := by
  have table : ∀ n < 64, ∀ m < 4, (n <<< 2 % 2 ^ 32 ||| m) % 256 = n * 4 + m := by decide
  have low : sequence.toNat &&& 63 = sequence.toNat % 64 := Nat.and_two_pow_sub_one_eq_mod _ 6
  have bits : (random 10).toNat &&& 3 = (random 10).toNat % 4 := Nat.and_two_pow_sub_one_eq_mod _ 2
  simp only [UInt32.toNat_toUInt8, UInt32.toNat_or, UInt32.toNat_and, UInt32.toNat_shiftLeft, UInt8.toNat_toUInt32,
    UInt8.toNat_and, UInt32.reduceToNat, UInt8.reduceToNat, Nat.reduceMod]
  rw [low, bits, table _ (Nat.mod_lt _ (by decide)) _ (Nat.mod_lt _ (by decide))]

/-- The bytes as numbers: the places of the timestamp, then the parts of the sequence number. -/
private theorem toNat_idBytes {timestamp : ℤ} (fits : Fits timestamp) :
    (idBytes timestamp sequence random).map UInt8.toNat = Nat.places 256 6 timestamp.toNat ++
      ([112 + sequence.toNat / 2 ^ 28 % 16, sequence.toNat / 2 ^ 20 % 256, 128 + sequence.toNat / 2 ^ 14 % 64,
        sequence.toNat / 2 ^ 6 % 256, sequence.toNat % 64 * 4 + (random 10).toNat % 4] ++
        [random 11, random 12, random 13, random 14, random 15].map UInt8.toNat) := by
  obtain ⟨n, rfl⟩ := Int.eq_ofNat_of_zero_le fits.1
  have byte (m : ℕ) : (lowByte m).toNat = m % 256 := by
    rw [lowByte, show ((m : ℤ) % 256).toNat = m % 256 by omega, UInt8.toNat_ofNat', Nat.mod_mod]
  have part (d : ℤ) (k : ℕ) (same : d = (256 ^ k : ℕ)) : (lowByte ((n : ℤ).tdiv d)).toNat = n / 256 ^ k % 256 := by
    rw [same, ← Int.ofNat_tdiv, byte]
  have parts : [lowByte ((n : ℤ).tdiv 0x10000000000), lowByte ((n : ℤ).tdiv 0x100000000),
      lowByte ((n : ℤ).tdiv 0x1000000), lowByte ((n : ℤ).tdiv 0x10000), lowByte ((n : ℤ).tdiv 0x100),
      lowByte n].map UInt8.toNat = Nat.places 256 6 n := by
    simp only [List.map_cons, List.map_nil, Nat.places, byte]
    rw [part _ 5 (by decide), part _ 4 (by decide), part _ 3 (by decide), part _ 2 (by decide), part _ 1 (by decide),
      Nat.pow_zero, Nat.div_one]
  rw [Int.toNat_natCast, ← parts, idBytes]
  simp only [List.map_cons, List.map_nil, List.cons_append, List.nil_append, version_toNat, high_toNat, variant_toNat,
    low_toNat, last_toNat]

end Bytes

section Texts

/-- What stands before each byte. -/
private def dashes (dash : JsString) : List JsString :=
  [[], [], [], [], dash, [], dash, [], dash, [], dash, [], [], [], [], []]

/-- The groups of the format, for any separator and any text of a byte. -/
private theorem grouped_eq (dash : JsString) (hex : UInt8 → JsString)
    (b₀ b₁ b₂ b₃ b₄ b₅ b₆ b₇ b₈ b₉ b₁₀ b₁₁ b₁₂ b₁₃ b₁₄ b₁₅ : UInt8) :
    let bytes := [b₀, b₁, b₂, b₃, b₄, b₅, b₆, b₇, b₈, b₉, b₁₀, b₁₁, b₁₂, b₁₃, b₁₄, b₁₅]
    let texts := bytes.map hex
    (texts.take 4).flatten ++ dash ++ ((texts.take 6).drop 4).flatten ++ dash ++
        ((texts.take 8).drop 6).flatten ++ dash ++ ((texts.take 10).drop 8).flatten ++ dash ++ ((texts.take 16).drop 10).flatten =
      (List.zipWith (fun dash byte => dash ++ hex byte) (dashes dash) bytes).flatten := by
  simp [dashes]

private theorem formatUuid_idBytes (timestamp : ℤ) (sequence : UInt32) (random : Fin 16 → UInt8) :
    formatUuid (idBytes timestamp sequence random) = (List.zipWith (fun dash byte => dash ++ byteHex byte)
      (dashes (js "-")) (idBytes timestamp sequence random)).flatten :=
  grouped_eq (js "-") byteHex ..

private theorem byteHex_lt {byte other : UInt8} (less : byte < other) (rest more : JsString) :
    byteHex byte ++ rest < byteHex other ++ more := by
  have digit : ∀ n < 16, ∀ m < n, utf16 (hexDigit m) < utf16 (hexDigit n) := by decide
  have single : ∀ n < 16, (utf16 (hexDigit n)).length = 1 := by decide
  have bound (byte : UInt8) : byte.toNat / 16 < 16 := by
    have := byte.toNat_lt
    omega
  have low (byte : UInt8) : byte.toNat % 16 < 16 := Nat.mod_lt _ (by decide)
  have split (byte : UInt8) (rest : JsString) : byteHex byte ++ rest =
      utf16 (hexDigit (byte.toNat / 16)) ++ (utf16 (hexDigit (byte.toNat % 16)) ++ rest) := by
    simp [byteHex, ofText]
  rw [UInt8.lt_iff_toNat_lt] at less
  rw [split, split]
  by_cases before : byte.toNat / 16 < other.toNat / 16
  · exact List.append_lt_append (digit _ (bound _) _ before) (by rw [single _ (bound _), single _ (bound _)])
  · have same : byte.toNat / 16 = other.toNat / 16 := by omega
    rw [same]
    refine List.append_left_lt (List.append_lt_append (digit _ (low _) _ (by omega)) ?_)
    rw [single _ (low _), single _ (low _)]

/-- The digits keep the order of the bytes. -/
private theorem flatten_lt {separators : List JsString} {bytes others : List UInt8} (less : bytes < others)
    (length : bytes.length = separators.length) (same : others.length = separators.length) :
    (List.zipWith (fun dash byte => dash ++ byteHex byte) separators bytes).flatten <
      (List.zipWith (fun dash byte => dash ++ byteHex byte) separators others).flatten := by
  induction separators generalizing bytes others with
  | nil =>
    obtain rfl := List.length_eq_zero_iff.mp same
    exact absurd less (List.not_lt_nil _)
  | cons dash separators ih =>
    obtain ⟨byte, bytes, rfl⟩ := List.exists_cons_of_length_eq_add_one length
    obtain ⟨other, others, rfl⟩ := List.exists_cons_of_length_eq_add_one same
    rw [List.zipWith_cons_cons, List.zipWith_cons_cons, List.flatten_cons, List.flatten_cons, List.append_assoc,
      List.append_assoc]
    refine List.append_left_lt ?_
    rcases List.cons_lt_cons_iff.mp less with before | ⟨rfl, behind⟩
    · exact byteHex_lt before _ _
    · exact List.append_left_lt (ih behind (Nat.succ.inj length) (Nat.succ.inj same))

private theorem lt_of_map_toNat {bytes others : List UInt8} (less : bytes.map UInt8.toNat < others.map UInt8.toNat) :
    bytes < others := by
  induction bytes generalizing others with
  | nil =>
    cases others with
    | nil => exact absurd less (List.not_lt_nil _)
    | cons => exact List.nil_lt_cons _ _
  | cons byte bytes ih =>
    cases others with
    | nil => exact absurd less (List.not_lt_nil _)
    | cons other others =>
      rw [List.map_cons, List.map_cons, List.cons_lt_cons_iff] at less
      rw [List.cons_lt_cons_iff]
      exact less.imp UInt8.lt_iff_toNat_lt.mpr fun ⟨same, behind⟩ => ⟨UInt8.toNat_inj.mp same, ih behind⟩

end Texts

section Order

variable {timestamp later : ℤ} {sequence next : UInt32}

/-- The order of timestamps and sequence numbers. -/
def Before (timestamp : ℤ) (sequence : UInt32) (later : ℤ) (next : UInt32) : Prop :=
  timestamp < later ∨ timestamp = later ∧ sequence < next

/-- A later timestamp or sequence number makes a larger id, whatever the random bits. -/
private theorem id_lt (fits : Fits timestamp) (fits' : Fits later) (before : Before timestamp sequence later next)
    (random random' : Fin 16 → UInt8) :
    formatUuid (idBytes timestamp sequence random) < formatUuid (idBytes later next random') := by
  rw [formatUuid_idBytes, formatUuid_idBytes]
  refine flatten_lt (lt_of_map_toNat ?_) rfl rfl
  rw [toNat_idBytes sequence random fits, toNat_idBytes next random' fits']
  obtain ⟨lower, upper⟩ := fits
  obtain ⟨lower', upper'⟩ := fits'
  rcases before with earlier | ⟨rfl, counted⟩
  · refine List.append_lt_append (Nat.places_lt ?_) (by simp)
    rw [Nat.mod_eq_of_lt (by omega), Nat.mod_eq_of_lt (by omega)]
    omega
  · refine List.append_left_lt (List.append_lt_append ?_ rfl)
    have small := sequence.toNat_lt
    have small' := next.toNat_lt
    rw [UInt32.lt_iff_toNat_lt] at counted
    simp only [List.cons_lt_cons_iff]
    generalize sequence.toNat = n at *
    generalize next.toNat = m at *
    have bits := Nat.mod_lt (random 10).toNat (show 0 < 4 by decide)
    have bits' := Nat.mod_lt (random' 10).toNat (show 0 < 4 by decide)
    generalize (random 10).toNat % 4 = r at *
    generalize (random' 10).toNat % 4 = r' at *
    by_cases first : n / 2 ^ 28 = m / 2 ^ 28
    · refine .inr ⟨by omega, ?_⟩
      by_cases second : n / 2 ^ 20 = m / 2 ^ 20
      · refine .inr ⟨by omega, ?_⟩
        by_cases third : n / 2 ^ 14 = m / 2 ^ 14
        · refine .inr ⟨by omega, ?_⟩
          by_cases fourth : n / 2 ^ 6 = m / 2 ^ 6
          · exact .inr ⟨by omega, .inl (by omega)⟩
          · exact .inl (by omega)
        · exact .inl (by omega)
      · exact .inl (by omega)
    · exact .inl (by omega)

variable {generator : Generator} {draw : Draw} {draws : List Draw} {entry : ℤ × JsString}

/-- A call moves the timestamp on, or the sequence number. -/
private theorem advance_before (known : generator.lastTimestamp = some timestamp) :
    Before timestamp generator.sequence (generator.advance draw).1 (generator.advance draw).2 := by
  rw [Generator.advance, known]
  dsimp only
  split_ifs with later overflow
  · exact .inl later
  · exact .inl (Int.lt_succ timestamp)
  · refine .inr ⟨rfl, ?_⟩
    rw [UInt32.lt_iff_toNat_lt, UInt32.toNat_add]
    have bound := generator.sequence.toNat_lt
    have nonzero : (generator.sequence.toNat + 1) % 2 ^ 32 ≠ 0 := fun zero => overflow (by
      rw [← UInt32.toNat_inj, UInt32.toNat_add]
      exact zero)
    show generator.sequence.toNat < (generator.sequence.toNat + 1) % 2 ^ 32
    omega

end Order

section Version

/-- A hexadecimal digit as a code unit. -/
private def digitUnit (n : ℕ) : CodeUnit := (hexDigit n).toNat.toUInt16

private theorem byteHex_eq : byteHex = fun byte => [digitUnit (byte.toNat / 16), digitUnit (byte.toNat % 16)] := by
  funext byte
  have single : ∀ n < 16, utf16 (hexDigit n) = [digitUnit n] := by decide
  have high : byte.toNat / 16 < 16 := by
    have := byte.toNat_lt
    omega
  simp [byteHex, ofText, single _ high, single _ (Nat.mod_lt byte.toNat (show 0 < 16 by decide))]

private theorem grouped_at (dash : CodeUnit) (high low : UInt8 → CodeUnit)
    (b₀ b₁ b₂ b₃ b₄ b₅ b₆ b₇ b₈ b₉ b₁₀ b₁₁ b₁₂ b₁₃ b₁₄ b₁₅ : UInt8) :
    let text := (List.zipWith (fun dash byte => dash ++ [high byte, low byte]) (dashes [dash])
      [b₀, b₁, b₂, b₃, b₄, b₅, b₆, b₇, b₈, b₉, b₁₀, b₁₁, b₁₂, b₁₃, b₁₄, b₁₅]).flatten
    text.length = 36 ∧ text[14]? = some (high b₆) ∧ text[19]? = some (high b₈) := by
  simp [dashes]

/-- The version and the variant stand in every id. -/
private theorem isVersion7 (timestamp : ℤ) (sequence : UInt32) (random : Fin 16 → UInt8) :
    IsVersion7 (formatUuid (idBytes timestamp sequence random)) := by
  rw [formatUuid_idBytes, byteHex_eq]
  obtain ⟨length, version, variant⟩ := grouped_at 0x2D (fun byte => digitUnit (byte.toNat / 16))
    (fun byte => digitUnit (byte.toNat % 16)) (lowByte (timestamp.tdiv 0x10000000000))
    (lowByte (timestamp.tdiv 0x100000000)) (lowByte (timestamp.tdiv 0x1000000)) (lowByte (timestamp.tdiv 0x10000))
    (lowByte (timestamp.tdiv 0x100)) (lowByte timestamp) ((0x70 : UInt32) ||| sequence >>> 28 &&& 0x0F).toUInt8
    (sequence >>> 20 &&& 0xFF).toUInt8 ((0x80 : UInt32) ||| sequence >>> 14 &&& 0x3F).toUInt8
    (sequence >>> 6 &&& 0xFF).toUInt8 ((sequence &&& 0x3F) <<< 2 ||| (random 10 &&& 0x03).toUInt32).toUInt8
    (random 11) (random 12) (random 13) (random 14) (random 15)
  refine ⟨length, version.trans ?_, _, ?_, variant⟩
  · have seven : (112 + sequence.toNat / 2 ^ 28 % 16) / 16 = 7 := by omega
    rw [version_toNat, seven]
    rfl
  · have table : ∀ n < 12, 8 ≤ n → digitUnit n ∈ js "89ab" := by decide
    rw [variant_toNat]
    exact table _ (by omega) (by omega)

end Version

section Runs

variable {generator : Generator} {draws : List Draw} {entry : ℤ × JsString}

/-- The order of the state before a call and the id of a later one. -/
private theorem uuids_before {timestamp : ℤ} (known : generator.lastTimestamp = some timestamp)
    (member : entry ∈ uuids generator draws) : ∃ later next random,
      entry = (later, formatUuid (idBytes later next random)) ∧ Before timestamp generator.sequence later next := by
  induction draws generalizing generator timestamp with
  | nil => cases member
  | cons draw draws ih =>
    have step : Before timestamp generator.sequence (generator.advance draw).1 (generator.advance draw).2 :=
      advance_before known
    rcases List.mem_cons.mp member with rfl | behind
    · exact ⟨_, _, draw.random, rfl, step⟩
    · obtain ⟨later, next, random, rfl, after⟩ := @ih (uuidv7 generator draw).2 _ rfl behind
      refine ⟨later, next, random, rfl, ?_⟩
      rcases step with less | ⟨same, less⟩ <;> rcases after with less' | ⟨same', less'⟩
      · exact .inl (Int.lt_trans less less')
      · exact .inl (same' ▸ less)
      · exact .inl (same ▸ less')
      · exact .inr ⟨same.trans same', UInt32.lt_trans less less'⟩

private theorem uuids_version (member : entry ∈ uuids generator draws) : IsVersion7 entry.2 := by
  induction draws generalizing generator with
  | nil => cases member
  | cons draw draws ih =>
    rcases List.mem_cons.mp member with rfl | behind
    · exact isVersion7 ..
    · exact ih behind

private theorem uuids_pairwise (fits : ∀ entry ∈ uuids generator draws, Fits entry.1) :
    (uuids generator draws).Pairwise fun entry later => entry.2 < later.2 := by
  induction draws generalizing generator with
  | nil => exact .nil
  | cons draw draws ih =>
    obtain ⟨first, rest⟩ := List.forall_mem_cons.mp fits
    refine List.pairwise_cons.mpr ⟨fun later member => ?_, ih rest⟩
    obtain ⟨timestamp, next, random, rfl, before⟩ := @uuids_before (uuidv7 generator draw).2 draws later _ rfl member
    exact id_lt first (rest _ member) before draw.random random

/-- For every sequence of clock readings and random bytes the ids are of version 7, and they increase as long as the
timestamp that the generator carries fits 48 bits. -/
theorem uuids_increase (draws : List Draw) :
    (∀ entry ∈ uuids {} draws, IsVersion7 entry.2) ∧
      ((∀ entry ∈ uuids {} draws, Fits entry.1) → ((uuids {} draws).map Prod.snd).Pairwise (· < ·)) :=
  ⟨fun _ => uuids_version, fun fits => List.pairwise_map.mpr (uuids_pairwise fits)⟩

private def fullBytes (_ : Fin 16) : UInt8 := 0xFF

/-- The counter overflows within a millisecond, and then the clock runs backwards. -/
theorem uuids_increase_overflow :
    ((uuids {} [⟨5, fullBytes⟩, ⟨5, fullBytes⟩, ⟨3, fullBytes⟩]).map Prod.snd).Pairwise (· < ·) ∧
      (uuids {} [⟨5, fullBytes⟩, ⟨5, fullBytes⟩, ⟨3, fullBytes⟩]).map Prod.fst = [5, 6, 6] :=
  ⟨(uuids_increase [⟨5, fullBytes⟩, ⟨5, fullBytes⟩, ⟨3, fullBytes⟩]).2 (by decide), by decide⟩

/-- A clock that passes the start of 1970 makes the next id smaller. -/
theorem uuids_decrease : ¬ ∀ draws, ((uuids {} draws).map Prod.snd).Pairwise (· < ·) := by
  intro always
  have increases := always [⟨-1, fullBytes⟩, ⟨0, fullBytes⟩]
  revert increases
  decide

end Runs

end PieAgent.Soundness.SessionIds
