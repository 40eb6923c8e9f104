import Mathlib.Algebra.Ring.Nat
import PieAgent.JavaScript.Proofs.Characters
import PieAgent.Model.Core.Truncate

/-! # Lines and characters that fit

The bytes of a text are those of its characters, so pieces that split no surrogate pair add up. Each loop takes as many
lines, or characters, as fit: what it stops at exceeds a limit.
-/

namespace PieAgent.Proofs.Truncation

open JavaScript Model Truncate

section Bytes

variable {front back text : JsString}

/-- The bytes of a text are those of its characters. -/
theorem utf8ByteLength_eq_sum (text : JsString) : utf8ByteLength text = ((characters text).map utf8ByteLength).sum := by
  induction text using characters_induction with
  | nil => rfl
  | last unit => rfl
  | pair first second rest pair ih =>
    rw [utf8ByteLength, characters, if_pos pair, if_pos pair, List.map_cons, List.sum_cons, ← ih]
    simp [utf8ByteLength, pair]
  | single first second rest single ih =>
    rw [utf8ByteLength, characters, if_neg single, if_neg single, List.map_cons, List.sum_cons, ← ih]
    rfl

theorem utf8ByteLength_append (separate : Separate front back) :
    utf8ByteLength (front ++ back) = utf8ByteLength front + utf8ByteLength back := by
  rw [utf8ByteLength_eq_sum, characters_append separate, List.map_append, List.sum_append, ← utf8ByteLength_eq_sum,
    ← utf8ByteLength_eq_sum]

theorem separate_lineFeed_left (front back : JsString) : Separate front (js "\n" ++ back) :=
  separate_of_start fun unit first => by
    obtain rfl : 0x0A = unit := Option.some.inj first
    decide

theorem separate_lineFeed_right (front : JsString) : Separate (js "\n") front :=
  separate_of_end fun unit last => by
    obtain rfl : 0x0A = unit := Option.some.inj last
    decide

theorem utf8ByteLength_lineFeed (front back : JsString) :
    utf8ByteLength (front ++ (js "\n" ++ back)) = utf8ByteLength front + 1 + utf8ByteLength back := by
  rw [utf8ByteLength_append (separate_lineFeed_left front back), utf8ByteLength_append (separate_lineFeed_right back),
    show utf8ByteLength (js "\n") = 1 by decide, Nat.add_assoc]

end Bytes

section Joins

variable {line : JsString} {lines more : List JsString}

/-- The bytes of joined lines. -/
def size (lines : List JsString) : ℕ := utf8ByteLength (join (js "\n") lines)

@[simp] theorem size_nil : size [] = 0 := rfl

@[simp] theorem size_singleton (line : JsString) : size [line] = utf8ByteLength line := by
  rw [size, join, List.intercalate_singleton]

theorem join_append (nonempty : lines ≠ []) (more_ : more ≠ []) :
    join (js "\n") (lines ++ more) = join (js "\n") lines ++ (js "\n" ++ join (js "\n") more) := by
  induction lines with
  | nil => exact absurd rfl nonempty
  | cons line lines ih =>
    unfold join at ih ⊢
    cases lines with
    | nil =>
      rw [List.singleton_append, List.intercalate_cons_of_ne_nil more_, List.intercalate_singleton, List.append_assoc]
    | cons next lines =>
      rw [List.cons_append, List.intercalate_cons_of_ne_nil (by simp), ih (by simp),
        List.intercalate_cons_of_ne_nil (List.cons_ne_nil next lines)]
      simp only [List.append_assoc]

theorem size_append (nonempty : lines ≠ []) (more_ : more ≠ []) : size (lines ++ more) = size lines + 1 + size more := by
  rw [size, join_append nonempty more_, utf8ByteLength_lineFeed]
  rfl

/-- The bytes of one more line behind the others. -/
theorem size_concat (lines : List JsString) (line : JsString) :
    size (lines ++ [line]) = size lines + (utf8ByteLength line + if 0 < lines.length then 1 else 0) := by
  cases lines with
  | nil => simp
  | cons first rest =>
    rw [size_append (by simp) (by simp), size_singleton, if_pos (by simp)]
    omega

/-- The bytes of one more line in front of the others. -/
theorem size_cons (line : JsString) (lines : List JsString) :
    size (line :: lines) = size lines + (utf8ByteLength line + if 0 < lines.length then 1 else 0) := by
  cases lines with
  | nil => simp
  | cons first rest =>
    rw [← List.singleton_append, size_append (by simp) (by simp), size_singleton, if_pos (by simp)]
    omega

theorem size_le_append_right (lines more : List JsString) : size lines ≤ size (lines ++ more) := by
  rcases eq_or_ne lines [] with rfl | nonempty
  · exact Nat.zero_le _
  rcases eq_or_ne more [] with rfl | more_
  · rw [List.append_nil]
  · rw [size_append nonempty more_]
    omega

theorem size_le_append_left (lines more : List JsString) : size more ≤ size (lines ++ more) := by
  rcases eq_or_ne lines [] with rfl | nonempty
  · exact le_rfl
  rcases eq_or_ne more [] with rfl | more_
  · exact Nat.zero_le _
  · rw [size_append nonempty more_]
    omega

/-- Fewer lines from the head have no more bytes. -/
theorem size_take_mono {first second : ℕ} (less : first ≤ second) (lines : List JsString) :
    size (lines.take first) ≤ size (lines.take second) := by
  obtain ⟨more, rfl⟩ := Nat.exists_eq_add_of_le less
  rw [List.take_add]
  exact size_le_append_right _ _

/-- Fewer lines from the tail have no more bytes. -/
theorem size_drop_mono {first second : ℕ} (less : first ≤ second) (lines : List JsString) :
    size (lines.drop second) ≤ size (lines.drop first) := by
  obtain ⟨more, rfl⟩ := Nat.exists_eq_add_of_le less
  rw [← List.drop_drop]
  conv => rhs; rw [← List.take_append_drop more (lines.drop first)]
  exact size_le_append_left _ _

end Joins

section Loops

variable {maxLines maxBytes : ℕ} {kept rest : List JsString}

/-- The loop of `truncateHead` takes lines until the next one does not fit. -/
theorem collectHead_spec (fits : size kept ≤ maxBytes) : ∃ k ≤ rest.length, ∃ limit,
    collectHead maxBytes rest kept (size kept) = (kept ++ rest.take k, size (kept ++ rest.take k), limit) ∧
      size (kept ++ rest.take k) ≤ maxBytes ∧ (limit = .lines → k = rest.length) ∧
      (limit = .bytes → k < rest.length ∧ maxBytes < size (kept ++ rest.take (k + 1))) := by
  induction rest generalizing kept with
  | nil => exact ⟨0, le_rfl, .lines, by simp [collectHead], by simpa using fits, fun _ => rfl, nofun⟩
  | cons line rest ih =>
    rw [collectHead, ← size_concat]
    split
    · next exceeds =>
      exact ⟨0, Nat.zero_le _, .bytes, by simp, by simpa using fits, nofun, fun _ => ⟨by simp, by simpa using exceeds⟩⟩
    · next short =>
      obtain ⟨k, bound, limit, runs, small, all, next⟩ := ih (not_lt.mp short)
      have moved (n : ℕ) : kept ++ [line] ++ rest.take n = kept ++ (line :: rest).take (n + 1) := by simp
      rw [moved] at runs small
      rw [moved] at next
      refine ⟨k + 1, by simpa using bound, limit, runs, small, fun same => ?_, fun same => ?_⟩
      · rw [all same, List.length_cons]
      · exact ⟨by simpa using (next same).1, (next same).2⟩

/-- How the loop of `truncateTail` ends: with whole lines, or with a part of the last one. -/
inductive TailEnd (maxLines maxBytes : ℕ) (rest kept : List JsString) (state : TailState) : Prop where
  | whole (k : ℕ) (bound : k ≤ rest.length) (lines : state.outputLinesArr = (rest.take k).reverse ++ kept)
      (count : state.outputBytesCount = size state.outputLinesArr) (fits : state.outputBytesCount ≤ maxBytes)
      (few : state.outputLinesArr.length ≤ maxLines) (complete : state.lastLinePartial = false)
      (byLines : state.truncatedBy = .lines → k = rest.length ∨ maxLines = state.outputLinesArr.length)
      (byBytes : state.truncatedBy = .bytes → k < rest.length ∧ state.outputLinesArr ≠ [] ∧
        maxBytes < size ((rest.take (k + 1)).reverse ++ kept))
  | cut (line : JsString) (others : List JsString) (last : rest = line :: others) (first : kept = [])
      (some_ : 0 < maxLines) (exceeds : maxBytes < utf8ByteLength line)
      (lines : state.outputLinesArr = [truncateStringToBytesFromEnd line maxBytes])
      (count : state.outputBytesCount = utf8ByteLength (truncateStringToBytesFromEnd line maxBytes))
      (limit : state.truncatedBy = .bytes) (cut : state.lastLinePartial = true)

theorem collectTail_spec (fits : size kept ≤ maxBytes) (few : kept.length ≤ maxLines) :
    TailEnd maxLines maxBytes rest kept (collectTail maxLines maxBytes rest kept (size kept)) := by
  induction rest generalizing kept with
  | nil => exact .whole 0 le_rfl rfl rfl fits few rfl (fun _ => .inl rfl) nofun
  | cons line rest ih =>
    rw [collectTail]
    dsimp only
    rw [← size_cons]
    split
    · next room =>
      split
      · next exceeds =>
        split
        · next none_ =>
          obtain rfl := List.length_eq_zero_iff.mp none_
          rw [size_singleton] at exceeds
          exact .cut line rest rfl rfl room exceeds rfl rfl rfl rfl
        · next some_ =>
          exact .whole 0 (Nat.zero_le _) rfl rfl fits few rfl nofun fun _ =>
            ⟨by simp, List.ne_nil_of_length_pos (Nat.pos_of_ne_zero some_), by simpa using exceeds⟩
      · next short =>
        have moved (n : ℕ) : (rest.take n).reverse ++ line :: kept = ((line :: rest).take (n + 1)).reverse ++ kept := by
          simp
        cases ih (not_lt.mp short) (by rw [List.length_cons]; omega) with
        | whole k bound lines count small few complete byLines byBytes =>
          rw [moved] at lines byBytes
          refine .whole (k + 1) (by simpa using bound) lines count small few complete (fun same => ?_) fun same => ?_
          · exact (byLines same).imp (fun all => by rw [all, List.length_cons]) id
          · obtain ⟨more, some_, next⟩ := byBytes same
            exact ⟨by simpa using more, some_, next⟩
        | cut line others last first => cases first
    · next full =>
      exact .whole 0 (Nat.zero_le _) rfl rfl fits few rfl (fun _ => .inr (le_antisymm (not_lt.mp full) few)) nofun

end Loops

section Cuts

variable {maxBytes : ℕ} {front output : JsString}

/-- A surrogate on its own. -/
def isLone : JsString → Bool
  | [code] => isHighSurrogate code || isLowSurrogate code
  | _ => false

private theorem isLone_pair (high low : CodeUnit) : isLone [high, low] = false := rfl

/-- A character, with the replacement character for a surrogate on its own. -/
def wellFormed (character : JsString) : JsString := if isLone character then replacement else character

/-- Surrogates on their own are replaced one by one. -/
theorem replaceUnpairedSurrogates_eq (text : JsString) :
    replaceUnpairedSurrogates text = ((characters text).map wellFormed).flatten := by
  induction text using characters_induction with
  | nil => rfl
  | last unit =>
    rw [replaceUnpairedSurrogates, characters, List.map_singleton, List.flatten_singleton, wellFormed, isLone]
  | pair first second rest pair ih =>
    rw [replaceUnpairedSurrogates, characters, if_pos pair, if_pos pair, List.map_cons, List.flatten_cons, ← ih]
    rfl
  | single first second rest single ih =>
    rw [replaceUnpairedSurrogates, characters, if_neg single, if_neg single, List.map_cons, List.flatten_cons, ← ih,
      wellFormed, isLone]
    split <;> rfl

/-- The replacement character has as many bytes as a surrogate on its own. -/
theorem utf8ByteLength_replaceUnpairedSurrogates (text : JsString) :
    utf8ByteLength (replaceUnpairedSurrogates text) = utf8ByteLength text := by
  have start (rest : JsString) : utf8ByteLength (replacement ++ rest) = 3 + utf8ByteLength rest :=
    utf8ByteLength_append (separate_of_end fun unit last => by
      obtain rfl : 0xFFFD = unit := Option.some.inj last
      decide)
  have lone {code : CodeUnit} (surrogate : (isHighSurrogate code || isLowSurrogate code) = true) :
      unitBytes code = 3 := by
    simp only [isHighSurrogate, isLowSurrogate, Bool.or_eq_true, Bool.and_eq_true, decide_eq_true_eq,
      UInt16.le_iff_toNat_le, UInt16.lt_iff_toNat_lt, UInt16.reduceToNat] at surrogate
    simp only [unitBytes, UInt16.le_iff_toNat_le, UInt16.reduceToNat]
    rw [if_neg (by omega), if_neg (by omega)]
  induction text using characters_induction with
  | nil => rfl
  | last unit =>
    rw [replaceUnpairedSurrogates]
    split
    · next surrogate =>
      rw [utf8ByteLength, lone surrogate]
      rfl
    · rfl
  | pair first second rest pair ih =>
    rw [replaceUnpairedSurrogates, if_pos pair, utf8ByteLength, if_pos pair, utf8ByteLength, if_pos pair, ih]
  | single first second rest single ih =>
    rw [replaceUnpairedSurrogates, if_neg single, utf8ByteLength, if_neg single]
    split
    · next surrogate => rw [start, ih, lone surrogate]
    · next plain =>
      rw [Bool.not_eq_true, Bool.or_eq_false_iff] at plain
      rw [← List.singleton_append, utf8ByteLength_append (separate_of_end fun unit last => by
        obtain rfl : first = unit := Option.some.inj last
        exact plain.1), ih]
      rfl

private theorem reverse_cons_cons (code previous : CodeUnit) (rest : List CodeUnit) :
    (code :: previous :: rest).reverse = rest.reverse ++ [previous, code] := by simp

private theorem not_low_of_high {code : CodeUnit} (high : isHighSurrogate code = true) : isLowSurrogate code = false := by
  simp only [isHighSurrogate, isLowSurrogate, Bool.and_eq_true, Bool.and_eq_false_iff, decide_eq_true_eq,
    decide_eq_false_iff_not, UInt16.le_iff_toNat_le, UInt16.lt_iff_toNat_lt, UInt16.reduceToNat] at high ⊢
  omega

/-- What `takeFromEnd` makes of the code units before `output`. -/
structure TakenFromEnd (maxBytes : ℕ) (front output : JsString) (needsReplacement : Bool) (result : JsString × Bool)
    (before taken : List JsString) : Prop where
  split : characters front = before ++ taken
  output_ : result.1 = taken.flatten ++ output
  lone : result.2 = (needsReplacement || taken.any isLone)
  fits : utf8ByteLength result.1 ≤ maxBytes
  next : ∀ last ∈ before.getLast?, maxBytes < utf8ByteLength last + utf8ByteLength result.1

private theorem takenFromEnd_stop {needsReplacement : Bool} {before : List JsString} {last : JsString}
    (fits : utf8ByteLength output ≤ maxBytes) (split : characters front = before ++ [last])
    (exceeds : maxBytes < utf8ByteLength last + utf8ByteLength output) :
    TakenFromEnd maxBytes front output needsReplacement (output, needsReplacement) (characters front) [] where
  split := (List.append_nil _).symm
  output_ := rfl
  lone := (Bool.or_false _).symm
  fits := fits
  next other member := by
    rw [split, List.getLast?_concat] at member
    exact Option.some.inj member ▸ exceeds

private theorem takenFromEnd_step {needsReplacement : Bool} {result : JsString × Bool} {rest last : JsString}
    {before taken : List JsString} (split : characters front = characters rest ++ [last])
    (takes : TakenFromEnd maxBytes rest (last ++ output) (needsReplacement || isLone last) result before taken) :
    TakenFromEnd maxBytes front output needsReplacement result before (taken ++ [last]) where
  split := by rw [split, takes.split, List.append_assoc]
  output_ := by rw [takes.output_, List.flatten_append, List.flatten_singleton, List.append_assoc]
  lone := by rw [takes.lone, List.any_append, List.any_cons, List.any_nil, Bool.or_false, Bool.or_assoc,
    Bool.or_comm (isLone last)]
  fits := takes.fits
  next := takes.next

/-- The characters that fit are taken from the end. -/
theorem takeFromEnd_spec (maxBytes : ℕ) : ∀ (reversed : List CodeUnit) (output : JsString) (needsReplacement : Bool),
    utf8ByteLength output ≤ maxBytes → Separate reversed.reverse output →
    ∃ before taken, TakenFromEnd maxBytes reversed.reverse output needsReplacement
      (takeFromEnd maxBytes reversed (utf8ByteLength output) output needsReplacement) before taken
  | [], output, needsReplacement, fits, _ => ⟨[], [], ⟨rfl, rfl, (Bool.or_false _).symm, fits, nofun⟩⟩
  | [code], output, needsReplacement, fits, separate => by
    have sum : utf8ByteLength (code :: output) = unitBytes code + utf8ByteLength output := utf8ByteLength_append separate
    rw [takeFromEnd]
    split
    · next exceeds =>
      have split_ : characters [code] = [] ++ [[code]] := rfl
      refine ⟨_, [], takenFromEnd_stop fits split_ ?_⟩
      rwa [Nat.add_comm] at exceeds
    · next short =>
      have split_ : characters [code] = characters [] ++ [[code]] := rfl
      have small : utf8ByteLength (code :: output) ≤ maxBytes := by
        rw [sum]
        omega
      have takes : TakenFromEnd maxBytes [] ([code] ++ output) (needsReplacement || isLone [code])
          (code :: output, needsReplacement || isHighSurrogate code || isLowSurrogate code) [] [] :=
        ⟨rfl, rfl, by rw [isLone, List.any_nil, Bool.or_false, Bool.or_assoc], small, by simp⟩
      exact ⟨[], [] ++ [[code]], takenFromEnd_step split_ takes⟩
  | code :: previous :: rest, output, needsReplacement, fits, separate => by
    rw [takeFromEnd]
    split
    · next pair =>
      rw [Bool.and_eq_true] at pair
      have both : (isHighSurrogate previous && isLowSurrogate code) = true := by rw [pair.1, pair.2]; rfl
      have apart (more : JsString) : Separate rest.reverse (previous :: more) := separate_of_start fun unit first => by
        obtain rfl := Option.some.inj first
        exact not_low_of_high pair.2
      have split_ : characters (code :: previous :: rest).reverse = characters rest.reverse ++ [[previous, code]] := by
        rw [reverse_cons_cons, characters_append (apart [code]), characters, if_pos both, characters]
      have sum (more : JsString) : utf8ByteLength (previous :: code :: more) = 4 + utf8ByteLength more := by
        rw [utf8ByteLength, if_pos both]
      split
      · next exceeds =>
        refine ⟨_, [], takenFromEnd_stop fits split_ ?_⟩
        rw [sum, utf8ByteLength]
        omega
      · next short =>
        have small : utf8ByteLength (previous :: code :: output) ≤ maxBytes := by
          rw [sum]
          omega
        obtain ⟨before, taken, takes⟩ := takeFromEnd_spec maxBytes rest (previous :: code :: output) needsReplacement
          small (apart _)
        rw [sum, Nat.add_comm] at takes
        exact ⟨before, taken ++ [[previous, code]], takenFromEnd_step split_ (by rwa [isLone_pair, Bool.or_false])⟩
    · next single =>
      have apart : Separate (previous :: rest).reverse [code] := by
        intro high last low first
        rw [List.getLast?_reverse] at last
        obtain rfl := Option.some.inj last
        obtain rfl := Option.some.inj first
        rw [Bool.and_comm]
        simpa using single
      have split_ : characters (code :: previous :: rest).reverse =
          characters (previous :: rest).reverse ++ [[code]] := by
        rw [List.reverse_cons, characters_append apart]
        rfl
      have alone : Separate [code] output := by
        intro high last low first
        refine separate high ?_ low first
        rwa [List.getLast?_reverse]
      have sum : utf8ByteLength (code :: output) = unitBytes code + utf8ByteLength output := utf8ByteLength_append alone
      have apart' : Separate (previous :: rest).reverse (code :: output) := by
        rw [← List.singleton_append]
        exact (separate_append_right (by simp)).mpr apart
      split
      · next exceeds =>
        refine ⟨_, [], takenFromEnd_stop fits split_ ?_⟩
        rwa [Nat.add_comm] at exceeds
      · next short =>
        have small : utf8ByteLength (code :: output) ≤ maxBytes := by
          rw [sum]
          omega
        obtain ⟨before, taken, takes⟩ := takeFromEnd_spec maxBytes (previous :: rest) (code :: output)
          (needsReplacement || isHighSurrogate code || isLowSurrogate code) small apart'
        rw [sum, Nat.add_comm] at takes
        exact ⟨before, taken ++ [[code]], takenFromEnd_step split_ (by rwa [isLone, ← Bool.or_assoc])⟩

/-- The last characters of a text that fit, with replacements for surrogates on their own. -/
structure IsCut (text : JsString) (maxBytes : ℕ) (output : JsString) : Prop where
  fits : utf8ByteLength output ≤ maxBytes
  longest : ∃ before taken, characters text = before ++ taken ∧ output = (taken.map wellFormed).flatten ∧
    ∀ last ∈ before.getLast?, maxBytes < utf8ByteLength last + utf8ByteLength output

private theorem one_le_utf8ByteLength {text : JsString} (nonempty : text ≠ []) : 1 ≤ utf8ByteLength text := by
  have unit (code : CodeUnit) : 1 ≤ unitBytes code := by
    unfold unitBytes
    split
    · exact le_rfl
    split <;> omega
  match text with
  | [] => exact absurd rfl nonempty
  | [code] => exact unit code
  | code :: next :: rest =>
    have := unit code
    rw [utf8ByteLength]
    split <;> omega

private theorem ne_nil_of_mem_characters {text character : JsString} (member : character ∈ characters text) :
    character ≠ [] := by
  induction text using characters_induction with
  | nil => cases member
  | last unit => simp [List.mem_singleton.mp member]
  | pair first second rest pair ih =>
    rw [characters, if_pos pair] at member
    rcases List.mem_cons.mp member with rfl | later
    · simp
    · exact ih later
  | single first second rest single ih =>
    rw [characters, if_neg single] at member
    rcases List.mem_cons.mp member with rfl | later
    · simp
    · exact ih later

theorem isCut_truncateStringToBytesFromEnd (text : JsString) (maxBytes : ℕ) :
    IsCut text maxBytes (truncateStringToBytesFromEnd text maxBytes) := by
  unfold truncateStringToBytesFromEnd
  split
  · next zero =>
    refine ⟨Nat.zero_le _, characters text, [], (List.append_nil _).symm, rfl, fun last member => ?_⟩
    have := one_le_utf8ByteLength (ne_nil_of_mem_characters (List.mem_of_getLast? member))
    omega
  · obtain ⟨before, taken, takes⟩ := takeFromEnd_spec maxBytes text.reverse [] false (Nat.zero_le _)
      (separate_of_start nofun)
    have split := takes.split
    have output := takes.output_
    rw [List.reverse_reverse] at split
    rw [List.append_nil] at output
    have characters_ : characters taken.flatten = taken := by
      have dropped := characters_drop text before.length
      rwa [split, List.drop_left] at dropped
    have replaced : (if (takeFromEnd maxBytes text.reverse (utf8ByteLength []) [] false).2 = true then
        replaceUnpairedSurrogates taken.flatten else taken.flatten) = (taken.map wellFormed).flatten := by
      rw [takes.lone, Bool.false_or]
      split
      · rw [replaceUnpairedSurrogates_eq, characters_]
      · next none_ =>
        have kept : taken.map wellFormed = taken := by
          refine (List.map_congr_left fun character member => ?_).trans (List.map_id _)
          rw [wellFormed, if_neg]
          · rfl
          · exact fun lone => none_ (List.any_eq_true.mpr ⟨character, member, lone⟩)
        rw [kept]
    have bytes : utf8ByteLength (taken.map wellFormed).flatten = utf8ByteLength taken.flatten := by
      rw [← characters_, ← replaceUnpairedSurrogates_eq, utf8ByteLength_replaceUnpairedSurrogates]
      rw [characters_]
    dsimp only
    rw [show (0 : ℕ) = utf8ByteLength [] from rfl, output, replaced]
    refine ⟨?_, before, taken, split, rfl, fun last member => ?_⟩
    · rw [bytes, ← output]
      exact takes.fits
    · rw [bytes, ← output]
      exact takes.next last member

end Cuts

end PieAgent.Proofs.Truncation
