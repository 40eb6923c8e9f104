import PieAgent.JavaScript.Proofs.StringLiterals
import PieAgent.JavaScript.Proofs.Characters
import PieAgent.Model.Triggers.Promotion

/-! # Texts that are cut to a number of bytes

A cut goes back to the start of a character, so what is kept are the first characters that fit beside the marker. A lone
surrogate is written as a replacement character, which is what the kept text then holds.
-/

namespace PieAgent.Proofs.Promotion

open JavaScript Model

section Encoding

variable {front back text : JsString}

theorem utf8Bytes_append (separate : Separate front back) :
    utf8Bytes (front ++ back) = utf8Bytes front ++ utf8Bytes back := by
  rw [utf8Bytes, scalars, characters_append separate, List.map_append, encodeUtf8, List.flatMap_append]
  rfl

theorem scalars_ofText (text : List Char) : scalars (ofText text) = text := by
  rw [scalars, characters_ofText, List.map_map]
  refine (List.map_congr_left fun c _ => ?_).trans (List.map_id' text)
  have valid : c.toNat < 0xD800 ∨ 0xDFFF < c.toNat ∧ c.toNat < 0x110000 := c.valid
  have point : codePoint (utf16 c) = c.toNat := by
    rcases utf16_cases c with ⟨unit, same, _, _, value⟩ | ⟨high, low, same, _, _, value⟩
    · rw [same]
      exact value
    · rw [same, value]
  rw [Function.comp_apply, point, if_neg (by omega), Char.ofNat_toNat]

theorem utf8Bytes_ofText (text : List Char) : utf8Bytes (ofText text) = encodeUtf8 text := by
  rw [utf8Bytes, scalars_ofText]

end Encoding

section Boundaries

private def IsContinuation (byte : UInt8) : Prop := byte &&& 0xC0 = 0x80

private instance : DecidablePred IsContinuation := fun byte => inferInstanceAs (Decidable (byte &&& 0xC0 = 0x80))

private theorem continuation_small : ∀ n < 64, IsContinuation (UInt8.ofNat (0x80 + n)) := by decide

private theorem not_continuation_ascii : ∀ n < 128, ¬IsContinuation (UInt8.ofNat n) := by decide

private theorem not_continuation_lead : ∀ n < 64, ¬IsContinuation (UInt8.ofNat (0xC0 + n)) := by decide

/-- A character is a byte that starts it and bytes that continue it. -/
private theorem encodeChar_shape (c : Char) : ∃ lead rest, encodeChar c = lead :: rest ∧ ¬IsContinuation lead ∧
    (∀ byte ∈ rest, IsContinuation byte) ∧ rest.length < 4 := by
  have valid : c.toNat < 0xD800 ∨ 0xDFFF < c.toNat ∧ c.toNat < 0x110000 := c.valid
  have small (n : ℕ) : IsContinuation (UInt8.ofNat (0x80 + n % 64)) := continuation_small _ (Nat.mod_lt _ (by decide))
  unfold encodeChar
  dsimp only
  split
  next ascii => exact ⟨_, _, rfl, not_continuation_ascii _ ascii, by simp, by simp⟩
  split
  next two => exact ⟨_, _, rfl, not_continuation_lead _ (by omega), List.forall_mem_singleton.mpr (small _), by simp⟩
  split
  next three =>
    refine ⟨_, _, rfl, ?_, List.forall_mem_cons.mpr ⟨small _, List.forall_mem_singleton.mpr (small _)⟩, by simp⟩
    have lead := not_continuation_lead (0x20 + c.toNat / 4096) (by omega)
    rwa [← Nat.add_assoc] at lead
  next four =>
    refine ⟨_, _, rfl, ?_, List.forall_mem_cons.mpr ⟨small _, List.forall_mem_cons.mpr ⟨small _,
      List.forall_mem_singleton.mpr (small _)⟩⟩, by simp⟩
    have lead := not_continuation_lead (0x30 + c.toNat / 262144) (by omega)
    rwa [← Nat.add_assoc] at lead

private theorem length_encodeChar_le (c : Char) : (encodeChar c).length ≤ 4 := by
  obtain ⟨lead, rest, same, -, -, short⟩ := encodeChar_shape c
  rw [same]
  exact short

/-- No character continues where an encoded text starts. -/
private theorem head_not_continuation (text : List Char) :
    ((encodeUtf8 text)[0]?.any fun byte => byte &&& 0xC0 = 0x80) = false := by
  cases text with
  | nil => rfl
  | cons c text =>
    obtain ⟨lead, rest, same, starts, -⟩ := encodeChar_shape c
    rw [encodeUtf8_cons, same]
    exact decide_eq_false starts

/-- Inside of its first character, an encoded text continues. -/
private theorem inside_continuation {c : Char} {n : ℕ} (pos : 0 < n) (inside : n < (encodeChar c).length)
    (text : List Char) : ((encodeUtf8 (c :: text))[n]?.any fun byte => byte &&& 0xC0 = 0x80) = true := by
  obtain ⟨lead, rest, same, -, continues, -⟩ := encodeChar_shape c
  obtain ⟨m, rfl⟩ := Nat.exists_eq_succ_of_ne_zero pos.ne'
  rw [same, List.length_cons] at inside
  rw [encodeUtf8_cons, same, List.cons_append, List.getElem?_cons_succ,
    List.getElem?_append_left (Nat.lt_of_succ_lt_succ inside), List.getElem?_eq_getElem (Nat.lt_of_succ_lt_succ inside)]
  exact decide_eq_true (continues _ (List.getElem_mem _))

/-- The walk back ends at a start that only continued bytes follow. -/
private theorem charBoundary_eq {bytes : List UInt8} {start cut : ℕ} (le : start ≤ cut)
    (starts : (bytes[start]?.any fun byte => byte &&& 0xC0 = 0x80) = false)
    (continues : ∀ n, start < n → n ≤ cut → (bytes[n]?.any fun byte => byte &&& 0xC0 = 0x80) = true) :
    charBoundary bytes cut = start := by
  induction cut with
  | zero => exact (Nat.le_zero.mp le).symm
  | succ cut ih =>
    rw [charBoundary]
    rcases Nat.lt_or_eq_of_le le with before | rfl
    · rw [if_pos (continues _ before le_rfl)]
      exact ih (Nat.le_of_lt_succ before) fun n after within => continues n after (Nat.le_succ_of_le within)
    · rw [if_neg (by rw [starts]; decide)]

/-- The bytes up to the cut are those of the characters that fit. -/
private theorem take_charBoundary {front back : List Char} {cut : ℕ} (within : (encodeUtf8 front).length ≤ cut)
    (longest : ∀ c ∈ back.head?, cut < (encodeUtf8 front).length + (encodeChar c).length)
    (bound : cut ≤ (encodeUtf8 (front ++ back)).length) :
    (encodeUtf8 (front ++ back)).take (charBoundary (encodeUtf8 (front ++ back)) cut) = encodeUtf8 front := by
  have boundary : charBoundary (encodeUtf8 (front ++ back)) cut = (encodeUtf8 front).length := by
    apply charBoundary_eq within
    · rw [encodeUtf8_append, List.getElem?_append_right le_rfl, Nat.sub_self]
      exact head_not_continuation back
    · intro n after inside
      rw [encodeUtf8_append, List.getElem?_append_right after.le]
      cases back with
      | nil =>
        rw [List.append_nil] at bound
        omega
      | cons c back =>
        have next := longest c rfl
        exact inside_continuation (by omega) (by omega) back
  rw [boundary, encodeUtf8_append, List.take_left]

end Boundaries

section Cuts

variable {budget capBytes : ℕ} {text front lost : JsString}

/-- The whole characters of a text that fit into a number of bytes, and what they leave. -/
structure CutAt (budget : ℕ) (text front lost : JsString) : Prop where
  whole : characters text = characters front ++ characters lost
  within : (utf8Bytes front).length ≤ budget
  longest : ∀ character ∈ (characters lost).head?, budget < (utf8Bytes front).length + (utf8Bytes character).length

private def scalar (character : JsString) : Char :=
  if 0xD800 ≤ codePoint character ∧ codePoint character < 0xE000 then replacementChar
  else Char.ofNat (codePoint character)

private theorem scalars_eq (text : JsString) : scalars text = (characters text).map scalar := rfl

/-- A character is split no further. -/
private theorem characters_of_mem {character : JsString} (member : character ∈ characters text) :
    characters character = [character] := by
  obtain ⟨before, after, split⟩ := List.append_of_mem member
  have later := characters_drop text before.length
  rw [split, List.drop_left] at later
  have first := characters_take (character :: after).flatten 1
  rw [later] at first
  simpa using first

private theorem length_utf16 (c : Char) : (utf16 c).length = if c.toNat < 0x10000 then 1 else 2 := by
  unfold utf16
  split <;> rfl

/-- A surrogate on its own is written as the replacement character, which is one unit too. -/
private theorem length_utf16_unit (unit : CodeUnit) : (utf16 (scalar [unit])).length = 1 := by
  have bound : unit.toNat < 0x10000 := unit.toNat_lt
  have point : codePoint [unit] = unit.toNat := rfl
  rw [length_utf16, if_pos]
  unfold scalar
  split
  · decide
  · next scalar =>
    rw [point] at scalar ⊢
    rw [toNat_charOfNat (by unfold Nat.isValidChar; omega)]
    exact bound

private theorem length_utf16_pair {high low : CodeUnit} (isHigh : isHighSurrogate high = true)
    (isLow : isLowSurrogate low = true) : (utf16 (scalar [high, low])).length = 2 := by
  have value := toNat_pairChar isHigh isLow
  have point : codePoint [high, low] = 0x10000 + (high.toNat - 0xD800) * 0x400 + (low.toNat - 0xDC00) := rfl
  rw [pairChar, point] at value
  rw [length_utf16, if_neg]
  rw [scalar, if_neg (by rw [point]; omega), point, value]
  omega

/-- The kept text has as many units as it had before. -/
private theorem length_ofText_scalars (text : JsString) : (ofText (scalars text)).length = text.length := by
  rw [scalars_eq]
  induction text using characters_induction with
  | nil => rfl
  | last unit =>
    rw [characters, List.map_singleton, ofText_cons, List.length_append, length_utf16_unit]
    rfl
  | pair first second rest pair ih =>
    obtain ⟨isHigh, isLow⟩ := Bool.and_eq_true_iff.mp pair
    rw [characters, if_pos pair, List.map_cons, ofText_cons, List.length_append, ih, length_utf16_pair isHigh isLow]
    simp only [List.length_cons]
    omega
  | single first second rest apart ih =>
    rw [characters, if_neg apart, List.map_cons, ofText_cons, List.length_append, ih, length_utf16_unit]
    simp only [List.length_cons]
    omega

/-- The bytes of a text are those of its characters. -/
private theorem length_utf8Bytes_of_mem {character : JsString} (member : character ∈ characters text) :
    utf8Bytes character = encodeChar (scalar character) := by
  rw [utf8Bytes, scalars_eq, characters_of_mem member, List.map_singleton, encodeUtf8_cons, encodeUtf8_nil,
    List.append_nil]

private theorem scalars_of_whole (whole : characters text = characters front ++ characters lost) :
    scalars text = scalars front ++ scalars lost := by
  rw [scalars_eq, scalars_eq, scalars_eq, whole, List.map_append]

theorem CutAt.length (cut : CutAt budget text front lost) : text.length = front.length + lost.length := by
  have whole := congrArg List.flatten cut.whole
  rw [List.flatten_append, flatten_characters, flatten_characters, flatten_characters] at whole
  rw [whole, List.length_append]

/-- Every text has a cut. -/
theorem exists_cutAt (budget : ℕ) (text : JsString) : ∃ front lost, CutAt budget text front lost := by
  let fits (n : ℕ) : Prop := (encodeUtf8 ((scalars text).take n)).length ≤ budget
  let n := Nat.findGreatest fits (characters text).length
  have within : fits n := Nat.findGreatest_spec (P := fits) (Nat.zero_le _) (Nat.zero_le _)
  have taken : utf8Bytes ((characters text).take n).flatten = encodeUtf8 ((scalars text).take n) := by
    rw [utf8Bytes, scalars_eq, characters_take, scalars_eq, List.map_take]
  refine ⟨((characters text).take n).flatten, ((characters text).drop n).flatten, ?_, by rw [taken]; exact within, ?_⟩
  · rw [characters_take, characters_drop, List.take_append_drop]
  · intro character head
    rw [characters_drop, List.head?_drop] at head
    obtain ⟨inside, same⟩ := List.getElem?_eq_some_iff.mp (Option.mem_def.mp head)
    have member : character ∈ characters text := same ▸ List.getElem_mem inside
    have beyond : ¬fits (n + 1) := Nat.findGreatest_is_greatest (P := fits) (Nat.lt_succ_self n) inside
    have next : (scalars text).take (n + 1) = (scalars text).take n ++ [scalar character] := by
      rw [scalars_eq, List.take_add_one, List.getElem?_map, head]
      rfl
    have more : ¬(encodeUtf8 ((scalars text).take (n + 1))).length ≤ budget := beyond
    rw [next, encodeUtf8_append, List.length_append, encodeUtf8_cons, encodeUtf8_nil, List.append_nil] at more
    rw [taken, length_utf8Bytes_of_mem member]
    omega

theorem length_utf8Bytes_marker : (utf8Bytes truncationMarker).length = 14 := by
  rw [truncationMarker, js, utf8Bytes_ofText]
  decide

/-- A text that does not fit is cut where its characters stop to fit beside the marker. -/
theorem truncateOnCharBoundary_of_cut (large : capBytes < (utf8Bytes text).length)
    (cut : CutAt (capBytes - 14) text front lost) :
    truncateOnCharBoundary text capBytes = (ofText (scalars front) ++ truncationMarker, true) := by
  have whole : utf8Bytes text = encodeUtf8 (scalars front ++ scalars lost) := by
    rw [utf8Bytes, scalars_of_whole cut.whole]
  have longest : ∀ c ∈ (scalars lost).head?, capBytes - 14 < (encodeUtf8 (scalars front)).length + (encodeChar c).length := by
    intro c head
    rw [scalars_eq, List.head?_map] at head
    obtain ⟨character, first, rfl⟩ := Option.map_eq_some_iff.mp (Option.mem_def.mp head)
    have member : character ∈ characters lost := List.mem_of_mem_head? first
    have := cut.longest character first
    rwa [length_utf8Bytes_of_mem member] at this
  have kept := take_charBoundary cut.within longest (by rw [← whole]; omega)
  rw [← whole] at kept
  rw [truncateOnCharBoundary, if_neg (by omega), length_utf8Bytes_marker]
  dsimp only
  rw [Nat.min_eq_left (by omega), kept, decodeUtf8_encodeUtf8]

theorem truncateOnCharBoundary_of_fits (fits : (utf8Bytes text).length ≤ capBytes) :
    truncateOnCharBoundary text capBytes = (text, false) := by
  rw [truncateOnCharBoundary, if_pos fits]

theorem length_cut (front : JsString) : (ofText (scalars front) ++ truncationMarker).length = front.length + 12 := by
  rw [List.length_append, length_ofText_scalars]
  rfl

theorem length_utf8Bytes_cut (front : JsString) :
    (utf8Bytes (ofText (scalars front) ++ truncationMarker)).length = (utf8Bytes front).length + 14 := by
  rw [utf8Bytes_append (separate_ofText _ _), List.length_append, utf8Bytes_ofText, length_utf8Bytes_marker]
  rfl

/-- A cut text is within its limit. -/
theorem length_truncateOnCharBoundary_le (room : 14 ≤ capBytes) (text : JsString) :
    (utf8Bytes (truncateOnCharBoundary text capBytes).1).length ≤ capBytes := by
  rcases Nat.lt_or_ge capBytes (utf8Bytes text).length with large | fits
  · obtain ⟨front, lost, cut⟩ := exists_cutAt (capBytes - 14) text
    have within := cut.within
    rw [truncateOnCharBoundary_of_cut large cut, length_utf8Bytes_cut]
    omega
  · rw [truncateOnCharBoundary_of_fits fits]
    exact fits

/-- What is kept of a text that does not fit is short of the limit by less than one character. -/
theorem CutAt.almost (cut : CutAt budget text front lost) (large : budget < (utf8Bytes text).length) :
    budget < (utf8Bytes front).length + 4 := by
  cases behind : characters lost with
  | nil =>
    have whole := cut.whole
    rw [behind, List.append_nil] at whole
    have same : utf8Bytes text = utf8Bytes front := by rw [utf8Bytes, utf8Bytes, scalars_eq, scalars_eq, whole]
    have within := cut.within
    rw [same] at large
    omega
  | cons character rest =>
    have first : character ∈ (characters lost).head? := by rw [behind]; rfl
    have longest := cut.longest character first
    have short := length_encodeChar_le (scalar character)
    rw [length_utf8Bytes_of_mem (List.mem_of_mem_head? first)] at longest
    omega

end Cuts

end PieAgent.Proofs.Promotion
