import PieAgent.Model.Session.SessionArchive

/-! # The tar reader halts

Every byte string should be read header by header up to its end, or rejected. The size field of a header is parsed
leniently: what is no number ends the loop, a negative number leads back, and an empty field counts as zero. Where the
reader comes to no such field that its other checks let pass, it halts, and it has consumed the archive.
-/

namespace PieAgent.Soundness.TarReading

open JavaScript Model.SessionArchive

variable {data field : Buffer} {offset size fuel more : ℕ} {files after : Files} {reader next : TarReader}
  {outcome other : Except String Files} {entries : List TarEntry}

section Archives

/-- The digits of a size field, before a NUL or a space. -/
def sizeDigits (field : Buffer) : JsString :=
  (field.takeWhile fun byte => byte ≠ 0 ∧ byte ≠ 0x20).map fun byte => UInt16.ofNat byte.toNat

/-- The size that a field of octal digits declares. -/
def declaredSize? (field : Buffer) : Option ℕ :=
  if sizeDigits field ≠ [] ∧ (sizeDigits field).all isOctal then some (octalValue (sizeDigits field)) else none

def blockAt (data : Buffer) (offset : ℕ) : Buffer := (data.drop offset).take tarBlock

/-- The space that a content takes. -/
def blocks (size : ℕ) : ℕ := (size + (tarBlock - 1)) / tarBlock * tarBlock

/-- An archive read from the offset to its end, header by header. -/
inductive Consumed (data : Buffer) : ℕ → List TarEntry → Prop
  | finish {offset : ℕ} (short : data.length < offset + tarBlock) : Consumed data offset []
  | padding {offset : ℕ} {entries : List TarEntry} (room : offset + tarBlock ≤ data.length)
      (zero : (blockAt data offset).all (· = 0)) (rest : Consumed data (offset + tarBlock) entries) :
      Consumed data offset entries
  | entry {offset size : ℕ} {entries : List TarEntry} (room : offset + tarBlock ≤ data.length)
      (nonzero : ¬(blockAt data offset).all (· = 0))
      (declared : declaredSize? (((blockAt data offset).drop 124).take 12) = some size)
      (fits : offset + tarBlock + size ≤ data.length)
      (rest : Consumed data (offset + tarBlock + blocks size) entries) :
      Consumed data offset
        ({ name := readCString ((blockAt data offset).take 100)
           typeflag := (blockAt data offset).getD 156 0
           content := (data.drop (offset + tarBlock)).take size } :: entries)

end Archives

section Reader

/-- The states of the loop. -/
inductive Reached (data : Buffer) : TarReader → Prop
  | start : Reached data {}
  | pass {reader next : TarReader} (reached : Reached data reader) (step : reader.next data = .reading next) :
      Reached data next

/-- The header that the reader comes to has a size field without a size. -/
def Malformed (data : Buffer) (reader : TarReader) : Prop :=
  ∃ offset ∈ reader.offset, offset + tarBlock ≤ data.length ∧ ¬(headerAt data offset).all (· = 0) ∧
    declaredSize? (sizeField (headerAt data offset)) = none

/-- A check other than the one of the size rejects the header that the reader comes to. -/
def Refused (data : Buffer) (reader : TarReader) : Prop :=
  ∃ offset ∈ reader.offset,
    (∃ bytes ∈ parseOctalField (sizeField (headerAt data offset)), data.length < offset + tarBlock + bytes) ∨
      (entryAt data offset).name ≠ [] ∧
        ((entryAt data offset).typeflag ≠ 0x30 ∧ (entryAt data offset).typeflag ≠ 0 ∨
          (entryAt data offset).name ∈ reader.files.keys)

/-- What is expected of the reader. -/
structure Strict (data : Buffer) : Prop where
  halts : ∃ fuel, (readTarWith data fuel {}).isSome
  consumes : ∀ fuel files, readTarWith data fuel {} = some (.ok files) →
    ∃ entries, Consumed data 0 entries ∧ addEntries .empty entries = .ok files
  rejects : ∀ reader, Reached data reader → Malformed data reader →
    ∃ message, reader.next data = .finished (.error message)

end Reader

section Fields

private theorem isWhitespace_of_isOctal {unit : CodeUnit} (octal : isOctal unit) : isWhitespace unit.toNat = false := by
  rw [isOctal, Bool.and_eq_true, decide_eq_true_eq, decide_eq_true_eq, UInt16.le_iff_toNat_le,
    UInt16.le_iff_toNat_le] at octal
  obtain ⟨low, high⟩ := octal
  have low : 0x30 ≤ unit.toNat := low
  have high : unit.toNat ≤ 0x37 := high
  unfold isWhitespace
  simp only [Bool.or_eq_false_iff, Bool.and_eq_false_iff, decide_eq_false_iff_not, beq_eq_false_iff_ne]
  omega

private theorem dropWhile_of_forall {α : Type} {test : α → Bool} {list : List α} (none_ : ∀ x ∈ list, test x = false) :
    list.dropWhile test = list := by
  cases list with
  | nil => rfl
  | cons x list => exact List.dropWhile_cons_of_neg (by simp [none_ x List.mem_cons_self])

/-- Octal digits are parsed to their value. -/
private theorem parseOctalField_of_declared (declared : declaredSize? field = some size) :
    parseOctalField field = some (size : ℤ) := by
  rw [declaredSize?] at declared
  split at declared
  next digits =>
    obtain ⟨some_, octal⟩ := digits
    cases declared
    have octal' := List.all_eq_true.mp octal
    have visible : ∀ unit ∈ sizeDigits field, isWhitespace unit.toNat = false := fun unit inside =>
      isWhitespace_of_isOctal (octal' unit inside)
    have trimmed : trim (sizeDigits field) = sizeDigits field := by
      rw [trim, dropWhile_of_forall visible, List.rdropWhile,
        dropWhile_of_forall fun unit inside => visible unit (List.mem_reverse.mp inside), List.reverse_reverse]
    have unsigned (sign : CodeUnit) (other : isOctal sign = false) : (sizeDigits field).head? ≠ some sign := by
      intro first
      rw [octal' sign (List.mem_of_mem_head? first)] at other
      cases other
    show (if trim (sizeDigits field) = [] then some 0 else parseIntOctal (trim (sizeDigits field))) = _
    rw [trimmed, if_neg some_, parseIntOctal, dropWhile_of_forall visible]
    have minus := unsigned 0x2D (by decide)
    have plus := unsigned 0x2B (by decide)
    simp only [minus, plus, or_self, if_false, List.takeWhile_eq_self_iff.mpr octal', some_]
  · cases declared

private theorem relativeIndex_natCast (data : Buffer) (index : ℕ) : relativeIndex data index = min index data.length := by
  rw [relativeIndex, if_neg (by omega), Int.toNat_natCast]

private theorem subarray_natCast (data : Buffer) (start length : ℕ) :
    subarray data start (start + length : ℕ) = (data.drop start).take length := by
  rw [subarray, relativeIndex_natCast, relativeIndex_natCast]
  by_cases inside : start ≤ data.length
  · rw [Nat.min_eq_left inside]
    by_cases whole : start + length ≤ data.length
    · rw [Nat.min_eq_left whole, Nat.add_sub_cancel_left]
    · rw [List.take_of_length_le, List.take_of_length_le] <;> rw [List.length_drop] <;> omega
  · rw [List.drop_of_length_le (by omega), List.drop_of_length_le (by omega), List.take_nil, List.take_nil]

private theorem headerAt_natCast (data : Buffer) (offset : ℕ) : headerAt data offset = blockAt data offset :=
  subarray_natCast data offset tarBlock

private theorem sizeField_eq (header : Buffer) : sizeField header = (header.drop 124).take 12 :=
  subarray_natCast header 124 12

private theorem paddedSize_natCast (size : ℕ) : paddedSize size = blocks size := by
  unfold paddedSize blocks tarBlock
  omega

end Fields

section Runs

/-- A pass over the zeros between entries. -/
private theorem next_padding (room : offset + tarBlock ≤ data.length) (zero : (blockAt data offset).all (· = 0)) :
    TarReader.next data { offset := some (offset : ℤ), files } =
      .reading { offset := some ((offset + tarBlock : ℕ) : ℤ), files } := by
  unfold TarReader.next
  dsimp only
  rw [if_neg (by omega), headerAt_natCast, if_pos zero]
  rfl

/-- A pass over a header that declares a size. -/
private theorem next_declared (room : offset + tarBlock ≤ data.length) (nonzero : ¬(blockAt data offset).all (· = 0))
    (declared : declaredSize? (sizeField (headerAt data offset)) = some size) :
    TarReader.next data { offset := some (offset : ℤ), files } =
      if data.length < offset + tarBlock + size then
        .finished (.error "session archive is truncated or corrupted")
      else
        match addEntry files (entryAt data offset) with
        | .error message => .finished (.error message)
        | .ok files => .reading { offset := some ((offset + tarBlock + blocks size : ℕ) : ℤ), files } := by
  unfold TarReader.next
  dsimp only
  rw [if_neg (by omega), if_neg (by rw [headerAt_natCast]; exact nonzero), parseOctalField_of_declared declared]
  by_cases beyond : data.length < offset + tarBlock + size
  · rw [if_pos beyond, if_pos ⟨_, rfl, by omega⟩]
  · rw [if_neg beyond, if_neg (by rintro ⟨_, ⟨⟩, beyond'⟩; omega)]
    cases addEntry files (entryAt data offset) with
    | error message => rfl
    | ok files =>
      dsimp only [Option.map_some]
      rw [paddedSize_natCast]
      push_cast
      rfl

/-- The entry of a header that declares a size. -/
private theorem entryAt_natCast (declared : declaredSize? (sizeField (headerAt data offset)) = some size) :
    entryAt data offset =
      { name := readCString ((blockAt data offset).take 100)
        typeflag := (blockAt data offset).getD 156 0
        content := (data.drop (offset + tarBlock)).take size } := by
  have header : subarray (blockAt data offset) 0 100 = (blockAt data offset).take 100 :=
    subarray_natCast (blockAt data offset) 0 100
  have content :
      subarray data (offset + tarBlock) (offset + tarBlock + size) = (data.drop (offset + tarBlock)).take size := by
    have same := subarray_natCast data (offset + tarBlock) size
    push_cast at same
    exact same
  rw [entryAt, parseOctalField_of_declared declared, headerAt_natCast, header]
  exact congrArg _ content

private theorem addEntry_error_iff (entry : TarEntry) : (∃ message, addEntry files entry = .error message) ↔
    entry.name ≠ [] ∧ (entry.typeflag ≠ 0x30 ∧ entry.typeflag ≠ 0 ∨ entry.name ∈ files.keys) := by
  rw [addEntry]
  by_cases none_ : entry.name = []
  · rw [if_pos none_]
    exact iff_of_false (by simp) fun ⟨some_, _⟩ => some_ none_
  rw [if_neg none_]
  by_cases other : entry.typeflag ≠ 0x30 ∧ entry.typeflag ≠ 0
  · rw [if_pos other]
    exact iff_of_true ⟨_, rfl⟩ ⟨none_, .inl other⟩
  rw [if_neg other, or_iff_right other]
  cases known : files.get? entry.name with
  | none => exact iff_of_false (by simp) fun ⟨_, inside⟩ => JsMap.get?_eq_none.mp known inside
  | some content =>
    refine iff_of_true ⟨_, rfl⟩ ⟨none_, ?_⟩
    by_contra fresh
    cases known.symm.trans (JsMap.get?_eq_none.mpr fresh)

/-- A malformed header ends the loop with an error exactly if another check refuses it. -/
private theorem next_malformed (malformed : Malformed data reader) :
    (∃ message, reader.next data = .finished (.error message)) ↔ Refused data reader := by
  obtain ⟨offset, at_, room, nonzero, -⟩ := malformed
  have only : Refused data reader ↔
      (∃ bytes ∈ parseOctalField (sizeField (headerAt data offset)), data.length < offset + tarBlock + bytes) ∨
        ∃ message, addEntry reader.files (entryAt data offset) = .error message := by
    rw [addEntry_error_iff, Refused, Option.mem_def.mp at_]
    simp only [Option.mem_def, Option.some.injEq, exists_eq_left']
  rw [only, TarReader.next, Option.mem_def.mp at_]
  dsimp only
  rw [if_neg (by omega), if_neg nonzero]
  by_cases beyond : ∃ bytes ∈ parseOctalField (sizeField (headerAt data offset)),
      (data.length : ℤ) < offset + tarBlock + bytes
  · rw [if_pos beyond]
    exact iff_of_true ⟨_, rfl⟩ (.inl beyond)
  rw [if_neg beyond, or_iff_right beyond]
  cases addEntry reader.files (entryAt data offset) with
  | error message => exact iff_of_true ⟨_, rfl⟩ ⟨_, rfl⟩
  | ok files => exact iff_of_false (by simp) (by simp)

private theorem readTarWith_reading (step : reader.next data = .reading next) :
    readTarWith data (fuel + 1) reader = readTarWith data fuel next := by
  rw [readTarWith, step]

private theorem readTarWith_finished (step : reader.next data = .finished outcome) :
    readTarWith data (fuel + 1) reader = some outcome := by
  rw [readTarWith, step]

/-- Another amount of fuel gives no other outcome. -/
private theorem readTarWith_unique (first : readTarWith data fuel reader = some outcome)
    (second : readTarWith data more reader = some other) : outcome = other := by
  induction fuel generalizing reader more with
  | zero => cases first
  | succ fuel ih =>
    cases more with
    | zero => cases second
    | succ more =>
      cases step : reader.next data with
      | finished result =>
        rw [readTarWith_finished step] at first second
        exact Option.some.inj (first.symm.trans second)
      | reading next =>
        rw [readTarWith_reading step] at first second
        exact ih first second

/-- From a state in which nothing malformed lies ahead the reader halts, and it consumes the rest. -/
private theorem halts_from (checked : ∀ reader, Reached data reader → Malformed data reader → Refused data reader)
    (reached : Reached data { offset := some (offset : ℤ), files }) :
    ∃ fuel outcome, readTarWith data fuel { offset := some (offset : ℤ), files } = some outcome ∧
      ∀ after, outcome = .ok after → ∃ entries, Consumed data offset entries ∧ addEntries files entries = .ok after := by
  induction left : data.length - offset using Nat.strong_induction_on generalizing offset files with
  | _ left ih =>
  subst left
  by_cases room : offset + tarBlock ≤ data.length
  swap
  · refine ⟨1, .ok files, readTarWith_finished ?_, fun after same => ⟨[], .finish (by omega), same⟩⟩
    unfold TarReader.next
    exact if_pos (by omega)
  have block : 0 < tarBlock := by decide
  by_cases zero : (blockAt data offset).all (· = 0)
  · have step := @next_padding data offset files room zero
    obtain ⟨fuel, outcome, halts, consumes⟩ := ih _ (by omega) (reached.pass step) rfl
    refine ⟨fuel + 1, outcome, (readTarWith_reading step).trans halts, fun after same => ?_⟩
    obtain ⟨entries, consumed, added⟩ := consumes after same
    exact ⟨entries, .padding room zero consumed, added⟩
  cases declared : declaredSize? (sizeField (headerAt data offset)) with
  | none =>
    have malformed : Malformed data { offset := some (offset : ℤ), files } :=
      ⟨_, rfl, by omega, by rw [headerAt_natCast]; exact zero, declared⟩
    obtain ⟨message, step⟩ := (next_malformed malformed).mpr (checked _ reached malformed)
    exact ⟨1, _, readTarWith_finished step, fun after same => by cases same⟩
  | some size =>
    have step := @next_declared data offset size files room zero declared
    by_cases beyond : data.length < offset + tarBlock + size
    · rw [if_pos beyond] at step
      exact ⟨1, _, readTarWith_finished step, fun after same => by cases same⟩
    rw [if_neg beyond] at step
    cases added : addEntry files (entryAt data offset) with
    | error message =>
      rw [added] at step
      exact ⟨1, _, readTarWith_finished step, fun after same => by cases same⟩
    | ok files' =>
      rw [added] at step
      obtain ⟨fuel, outcome, halts, consumes⟩ := ih _ (by omega) (reached.pass step) rfl
      refine ⟨fuel + 1, outcome, (readTarWith_reading step).trans halts, fun after same => ?_⟩
      obtain ⟨entries, consumed, added'⟩ := consumes after same
      rw [entryAt_natCast declared] at added
      rw [headerAt_natCast, sizeField_eq] at declared
      refine ⟨_ :: entries, .entry room zero declared (by omega) consumed, ?_⟩
      show (addEntry files _ >>= fun files => addEntries files entries) = _
      rw [added]
      exact added'

end Runs

/-- The reader is strict exactly if the other checks reject each malformed header that it comes to. -/
theorem strict_iff (data : Buffer) :
    Strict data ↔ ∀ reader, Reached data reader → Malformed data reader → Refused data reader := by
  constructor
  · intro strict reader reached malformed
    exact (next_malformed malformed).mp (strict.rejects reader reached malformed)
  · intro checked
    obtain ⟨fuel, outcome, halts, consumes⟩ := @halts_from data 0 .empty checked .start
    refine ⟨⟨fuel, Option.isSome_of_eq_some halts⟩, fun fuel' files halts' => ?_, fun reader reached malformed => ?_⟩
    · exact consumes files (readTarWith_unique halts halts')
    · exact (next_malformed malformed).mpr (checked reader reached malformed)

/-- A header without a name, whose size is -512. -/
def backwardArchive : Buffer :=
  List.replicate 124 0 ++ [0x2D, 0x31, 0x30, 0x30, 0x30] ++ List.replicate 383 0

private theorem next_backward : TarReader.next backwardArchive {} = .reading {} := by
  have nonzero : ¬(headerAt backwardArchive 0).all (· = 0) := by decide +kernel
  have size : parseOctalField (sizeField (headerAt backwardArchive 0)) = some (-512) := by decide +kernel
  have nameless : (entryAt backwardArchive 0).name = [] := by decide +kernel
  have skipped : addEntry .empty (entryAt backwardArchive 0) = .ok .empty := if_pos nameless
  have length : backwardArchive.length = 512 := by decide +kernel
  unfold TarReader.next
  dsimp only
  rw [length, if_neg (by decide), if_neg nonzero, size, if_neg (by rintro ⟨_, ⟨⟩, beyond⟩; revert beyond; decide),
    skipped]
  rfl

/-- The reader comes back to the header for ever. -/
theorem backward_not_strict : ¬Strict backwardArchive := by
  intro strict
  obtain ⟨fuel, halts⟩ := strict.halts
  have never : ∀ fuel, readTarWith backwardArchive fuel {} = none := by
    intro fuel
    induction fuel with
    | zero => rfl
    | succ fuel ih => rw [readTarWith_reading next_backward, ih]
  rw [never fuel] at halts
  cases halts

end PieAgent.Soundness.TarReading
