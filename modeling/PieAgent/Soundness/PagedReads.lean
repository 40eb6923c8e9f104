import Mathlib.Algebra.Ring.Nat
import Mathlib.Data.List.Basic
import Mathlib.Logic.Function.Iterate
import Mathlib.Tactic.Common
import PieAgent.Model.Tools.ReadTool

/-! # Reading a text page by page

A line that does not fit into the rest of the limit of bytes is passed over while later lines may still be shown, but the
header counts the lines that are shown. It is true, and reading on from the line after it shows every line once, exactly
when each page is filled with lines that follow one another and none of the others within the limit of lines fits any more.
-/

namespace PieAgent.Soundness.PagedReads

open JavaScript Model Truncate ReadTool

section Pages

/-- How many lines fit one after another. -/
def fitting (room : ℕ) : List JsString → ℕ
  | [] => 0
  | line :: rest => if utf8ByteLength line ≤ room then fitting (room - utf8ByteLength line) rest + 1 else 0

def byteTotal (lines : List JsString) : ℕ := (lines.map utf8ByteLength).sum

/-- The lines that fit one after another leave no room for any other line. -/
def Filled (room : ℕ) (lines : List JsString) : Prop :=
  ∀ line ∈ lines.drop (fitting room lines), room < byteTotal (lines.take (fitting room lines)) + utf8ByteLength line

/-- The lines on the first page of some lines. -/
def pageSize (limit : ℕ) (lines : List JsString) : ℕ := fitting ReadTool.DEFAULT_MAX_BYTES (lines.take limit)

/-- The lines fall into pages that are filled and not empty. -/
inductive Paged (limit : ℕ) : List JsString → Prop
  | nil : Paged limit []
  | page {lines : List JsString} (shows : 0 < pageSize limit lines)
      (filled : Filled ReadTool.DEFAULT_MAX_BYTES (lines.take limit))
      (rest : Paged limit (lines.drop (pageSize limit lines))) : Paged limit lines

end Pages

section Reads

/-- The lines of a text from one to another, both included. -/
def linesBetween (raw : JsString) (first last : ℕ) : List JsString :=
  ((splitLinesInclusive raw).drop (first - 1)).take (last + 1 - first)

/-- What stands below the header and the note are the lines that the header names. -/
def HeaderTrue (rawPath raw : JsString) (offsetArg limitArg : Option JsNumber) : Prop :=
  let read := readOracleText rawPath raw offsetArg limitArg
  let first := lineOffset offsetArg - 1 + 1
  let last := lineOffset offsetArg - 1 + read.details.keptLines
  read.text = header rawPath first last ++ noteLine (shownSlice raw (lineOffset offsetArg - 1) (lineLimit limitArg)) ++
    (linesBetween raw first last).flatten

variable (raw : JsString) (limit : ℕ)

/-- The last line that is named by the header of a read, which the next read skips. -/
def lastLine (skip : ℕ) : ℕ := skip + (shownSlice raw skip limit).keptLines

/-- The lines that some reads show, each from the line after the last one. -/
def readLines : ℕ → ℕ → List JsString
  | 0, _ => []
  | n + 1, skip => splitLinesInclusive (shownSlice raw skip limit).content ++ readLines n (lastLine raw limit skip)

/-- Some reads show every line once and reach the end of the text. -/
def ReadsAll (skip : ℕ) : Prop :=
  ∃ n, readLines raw limit n skip = (splitLinesInclusive raw).drop skip ∧
    (splitLinesInclusive raw).length ≤ (lastLine raw limit)^[n] skip

end Reads

section Lines

/-- A line with its line feed. -/
private def Terminated (line : JsString) : Prop := ∃ body, line = body ++ [0x0A] ∧ (0x0A : CodeUnit) ∉ body

/-- Lines of which only the last may have no line feed. -/
private inductive Lines : List JsString → Prop
  | nil : Lines []
  | last {line : JsString} (empty : line ≠ []) (inside : (0x0A : CodeUnit) ∉ line) : Lines [line]
  | cons {line : JsString} {rest : List JsString} (ended : Terminated line) (more : Lines rest) : Lines (line :: rest)

private theorem lines_splitLinesFrom (text : JsString) :
    ∀ start : JsString, (0x0A : CodeUnit) ∉ start → Lines (splitLinesFrom start text) := by
  induction text with
  | nil =>
    intro start inside
    rw [splitLinesFrom]
    split
    · exact .nil
    · next empty => exact .last empty inside
  | cons code rest ih =>
    intro start inside
    rw [splitLinesFrom]
    split
    · next feed => exact .cons ⟨start, by rw [feed], inside⟩ (ih [] (by simp))
    · next other =>
      refine ih _ fun listed => ?_
      rcases List.mem_append.mp listed with before | last
      · exact inside before
      · exact other (List.mem_singleton.mp last).symm

private theorem splitLinesFrom_of_not_mem (line : JsString) :
    ∀ (start rest : JsString), (0x0A : CodeUnit) ∉ line →
      splitLinesFrom start (line ++ rest) = splitLinesFrom (start ++ line) rest := by
  induction line with
  | nil =>
    intro start rest _
    simp
  | cons code line ih =>
    intro start rest inside
    obtain ⟨other, inside⟩ := not_or.mp (List.mem_cons.not.mp inside)
    rw [List.cons_append, splitLinesFrom, if_neg (Ne.symm other), ih _ _ inside, List.append_assoc, List.singleton_append]

private theorem splitLinesInclusive_flatten {lines : List JsString} (split : Lines lines) :
    splitLinesInclusive lines.flatten = lines := by
  induction split with
  | nil => rfl
  | @last line empty inside =>
    have whole := splitLinesFrom_of_not_mem line [] [] inside
    rw [List.append_nil, List.nil_append] at whole
    rw [List.flatten_singleton, splitLinesInclusive, whole, splitLinesFrom, if_neg empty]
  | @cons line rest ended more ih =>
    obtain ⟨body, rfl, inside⟩ := ended
    rw [List.flatten_cons, splitLinesInclusive, List.append_assoc, splitLinesFrom_of_not_mem body _ _ inside,
      List.nil_append, List.singleton_append, splitLinesFrom, if_pos rfl]
    exact congrArg _ ih

private theorem Lines.sublist {lines : List JsString} (split : Lines lines) :
    ∀ {part : List JsString}, part.Sublist lines → Lines part := by
  induction split with
  | nil =>
    intro part sub
    rw [List.sublist_nil.mp sub]
    exact .nil
  | last empty inside =>
    intro part sub
    rcases List.sublist_cons_iff.mp sub with skipped | ⟨rest, rfl, inner⟩
    · rw [List.sublist_nil.mp skipped]
      exact .nil
    · rw [List.sublist_nil.mp inner]
      exact .last empty inside
  | cons ended more ih =>
    intro part sub
    rcases List.sublist_cons_iff.mp sub with skipped | ⟨others, rfl, inner⟩
    · exact ih skipped
    · exact .cons ended (ih inner)

private theorem lines_splitLinesInclusive (raw : JsString) : Lines (splitLinesInclusive raw) :=
  lines_splitLinesFrom raw [] (by simp)

end Lines

section Kept

/-- The lines that are kept in some room. -/
private def keptLines (room : ℕ) : List JsString → List JsString
  | [] => []
  | line :: rest =>
    if utf8ByteLength line ≤ room then line :: keptLines (room - utf8ByteLength line) rest else keptLines room rest

private theorem keptLines_nil (room : ℕ) : keptLines room [] = [] := rfl

private theorem keptLines_cons (room : ℕ) (line : JsString) (rest : List JsString) : keptLines room (line :: rest) =
    if utf8ByteLength line ≤ room then line :: keptLines (room - utf8ByteLength line) rest else keptLines room rest := rfl

private theorem keepLines_eq {maxLines maxBytes : ℕ} (lines : List JsString) :
    ∀ (out : List JsString) (keptBytes : ℕ), out.length + lines.length ≤ maxLines → keptBytes ≤ maxBytes →
      (keepLines maxLines maxBytes lines out keptBytes).1 = out ++ keptLines (maxBytes - keptBytes) lines := by
  induction lines with
  | nil =>
    intro out keptBytes _ _
    simp [keepLines, keptLines_nil]
  | cons line rest ih =>
    intro out keptBytes short within
    rw [List.length_cons] at short
    rw [keepLines, keptLines_cons]
    by_cases fits : utf8ByteLength line ≤ maxBytes - keptBytes
    · rw [if_pos ⟨by omega, by omega⟩, if_pos fits, ih _ _ (by simp; omega) (by omega), List.append_assoc,
        List.singleton_append, Nat.sub_add_eq]
    · rw [if_neg (fun both => fits (by omega)), if_neg fits, ih _ _ (by omega) within]

private theorem keptLines_sublist (lines : List JsString) : ∀ room, (keptLines room lines).Sublist lines := by
  induction lines with
  | nil => exact fun _ => .slnil
  | cons line rest ih =>
    intro room
    rw [keptLines_cons]
    split
    · exact (ih _).cons_cons line
    · exact (ih _).cons line

private theorem bytes_le_of_mem_keptLines (lines : List JsString) :
    ∀ {room line}, line ∈ keptLines room lines → utf8ByteLength line ≤ room := by
  induction lines with
  | nil => exact fun listed => absurd listed (by simp [keptLines_nil])
  | cons first rest ih =>
    intro room line listed
    rw [keptLines_cons] at listed
    split at listed
    · next fits =>
      rcases List.mem_cons.mp listed with rfl | later
      · exact fits
      · exact (ih later).trans (Nat.sub_le ..)
    · exact ih listed

private theorem keptLines_eq_nil {room : ℕ} (lines : List JsString) :
    keptLines room lines = [] ↔ ∀ line ∈ lines, room < utf8ByteLength line := by
  induction lines with
  | nil => simp [keptLines_nil]
  | cons line rest ih =>
    rw [keptLines_cons, List.forall_mem_cons]
    split
    · next fits => exact ⟨nofun, fun none => absurd none.1 (by omega)⟩
    · next wide => exact ih.trans ⟨fun none => ⟨by omega, none⟩, And.right⟩

/-- The kept lines follow one another exactly when none of the others fits behind those that fit one after another. -/
private theorem keptLines_eq_take (lines : List JsString) :
    ∀ room, keptLines room lines = lines.take (keptLines room lines).length ↔ Filled room lines := by
  induction lines with
  | nil => simp [keptLines_nil, Filled, fitting]
  | cons line rest ih =>
    intro room
    rw [keptLines_cons, Filled, fitting]
    split
    · next fits =>
      rw [List.length_cons, List.take_succ_cons, List.cons_inj_right, ih]
      simp only [Filled, List.drop_succ_cons, List.take_succ_cons, byteTotal, List.map_cons, List.sum_cons]
      refine forall₂_congr fun other listed => ?_
      omega
    · next wide =>
      have none : keptLines room (line :: rest) = keptLines room rest := by rw [keptLines_cons, if_neg wide]
      have empty := @keptLines_eq_nil room (line :: rest)
      rw [none] at empty
      rw [List.drop_zero, List.take_zero]
      simp only [byteTotal, List.map_nil, List.sum_nil, Nat.zero_add]
      rw [← empty]
      constructor
      · intro same
        cases kept : keptLines room rest with
        | nil => rfl
        | cons first others =>
          rw [kept, List.length_cons, List.take_succ_cons, List.cons.injEq] at same
          have fits : utf8ByteLength first ≤ room := bytes_le_of_mem_keptLines rest (by rw [kept]; exact List.mem_cons_self)
          rw [same.1] at fits
          exact absurd fits wide
      · intro nothing
        rw [nothing]
        rfl

private theorem length_keptLines {room : ℕ} (lines : List JsString) (filled : Filled room lines) :
    (keptLines room lines).length = fitting room lines := by
  induction lines generalizing room with
  | nil => rfl
  | cons line rest ih =>
    rw [Filled, fitting] at filled
    rw [keptLines_cons, fitting]
    split at filled
    · next fits =>
      rw [if_pos fits, if_pos fits, List.length_cons, ih]
      intro other listed
      have more := filled other (by rwa [List.drop_succ_cons])
      simp only [List.take_succ_cons, byteTotal, List.map_cons, List.sum_cons] at more ⊢
      omega
    · next wide =>
      rw [if_neg wide, if_neg wide, List.length_eq_zero_iff, keptLines_eq_nil]
      intro other listed
      simpa [byteTotal] using filled other (List.mem_cons_of_mem _ listed)

end Kept

section Shown

variable {raw : JsString} {skip limit : ℕ}

private theorem takeLines_eq (lines : List JsString) :
    ∀ (takenLines : List JsString) (totalLines : ℕ), takenLines = [] ∨ skip ≤ totalLines →
      takenLines.length ≤ limit →
      (takeLines skip limit lines takenLines totalLines).1 =
        takenLines ++ (lines.drop (skip - totalLines)).take (limit - takenLines.length) := by
  induction lines with
  | nil =>
    intro takenLines totalLines _ _
    simp [takeLines]
  | cons line rest ih =>
    intro takenLines totalLines begun short
    rw [takeLines]
    split
    · next skipped =>
      obtain rfl : takenLines = [] := begun.resolve_right (by omega)
      rw [ih _ _ (.inl rfl) short, show skip - totalLines = (skip - (totalLines + 1)) + 1 by omega, List.drop_succ_cons]
    · next reached =>
      rw [show skip - totalLines = 0 by omega, List.drop_zero]
      split
      · next full => rw [show limit - takenLines.length = 0 by omega, List.take_zero, List.append_nil]
      · next room =>
        rw [ih _ _ (.inr (by omega)) (by simp; omega), show skip - (totalLines + 1) = 0 by omega, List.drop_zero,
          show limit - takenLines.length = (limit - (takenLines ++ [line]).length) + 1 by simp; omega,
          List.take_succ_cons, List.append_assoc, List.singleton_append]

private theorem slice_eq : (slice raw skip limit).1 = ((splitLinesInclusive raw).drop skip).take limit := by
  rw [slice, takeLines_eq _ [] 0 (.inl rfl) (Nat.zero_le _), List.nil_append, Nat.sub_zero, List.length_nil, Nat.sub_zero]

private theorem lines_slice : Lines (((splitLinesInclusive raw).drop skip).take limit) :=
  (lines_splitLinesInclusive raw).sublist ((List.take_sublist ..).trans (List.drop_sublist ..))

/-- The lines that a read shows. -/
private def shownLines (raw : JsString) (skip limit : ℕ) : List JsString :=
  keptLines ReadTool.DEFAULT_MAX_BYTES (((splitLinesInclusive raw).drop skip).take limit)

private theorem shownLines_sublist :
    (shownLines raw skip limit).Sublist (((splitLinesInclusive raw).drop skip).take limit) :=
  keptLines_sublist _ _

private theorem keepLines_slice :
    (keepLines limit ReadTool.DEFAULT_MAX_BYTES (((splitLinesInclusive raw).drop skip).take limit) [] 0).1 =
      shownLines raw skip limit := by
  rw [keepLines_eq _ _ _ (by simp [Nat.min_le_left]) (Nat.zero_le _), List.nil_append, Nat.sub_zero, shownLines]

private theorem content_shownSlice : (shownSlice raw skip limit).content = (shownLines raw skip limit).flatten := by
  rw [shownSlice, slice_eq, truncateHeadInclusive, splitLinesInclusive_flatten lines_slice, ← keepLines_slice]

private theorem keptLines_shownSlice : (shownSlice raw skip limit).keptLines = (shownLines raw skip limit).length := by
  rw [shownSlice, slice_eq, truncateHeadInclusive, splitLinesInclusive_flatten lines_slice, ← keepLines_slice]

private theorem lines_shownLines : Lines (shownLines raw skip limit) := (lines_slice).sublist shownLines_sublist

private theorem take_shownLines (raw : JsString) (skip limit : ℕ) :
    ((splitLinesInclusive raw).drop skip).take (shownLines raw skip limit).length =
      (((splitLinesInclusive raw).drop skip).take limit).take (shownLines raw skip limit).length := by
  have short := (@shownLines_sublist raw skip limit).length_le
  rw [List.length_take] at short
  rw [List.take_take, min_eq_left (by omega)]

/-- The shown lines are the next lines exactly when the page is filled. -/
private theorem shownLines_eq_take : shownLines raw skip limit =
    ((splitLinesInclusive raw).drop skip).take (shownLines raw skip limit).length ↔
      Filled ReadTool.DEFAULT_MAX_BYTES (((splitLinesInclusive raw).drop skip).take limit) := by
  rw [take_shownLines]
  exact keptLines_eq_take _ _

/-- The header of a read is true exactly when its page is filled. -/
theorem headerTrue_iff (rawPath raw : JsString) (offsetArg limitArg : Option JsNumber) :
    HeaderTrue rawPath raw offsetArg limitArg ↔ Filled ReadTool.DEFAULT_MAX_BYTES
      (((splitLinesInclusive raw).drop (lineOffset offsetArg - 1)).take (lineLimit limitArg)) := by
  rw [← shownLines_eq_take]
  simp only [HeaderTrue, readOracleText, List.append_cancel_left_eq, content_shownSlice, keptLines_shownSlice,
    linesBetween]
  rw [Nat.add_sub_cancel, show ∀ skip shown : ℕ, skip + shown + 1 - (skip + 1) = shown by omega]
  constructor
  · intro same
    have split := congrArg splitLinesInclusive same
    rwa [splitLinesInclusive_flatten lines_shownLines, splitLinesInclusive_flatten] at split
    rw [take_shownLines]
    exact (lines_slice).sublist (List.take_sublist ..)
  · exact congrArg _

private theorem lastLine_eq : lastLine raw limit skip = skip + (shownLines raw skip limit).length := by
  rw [lastLine, keptLines_shownSlice]

private theorem readLines_succ (n : ℕ) : readLines raw limit (n + 1) skip =
    shownLines raw skip limit ++ readLines raw limit n (lastLine raw limit skip) := by
  rw [readLines, content_shownSlice, splitLinesInclusive_flatten lines_shownLines]

/-- Reading on shows every line once exactly when the lines fall into filled pages. -/
theorem readsAll_iff (raw : JsString) (limit skip : ℕ) :
    ReadsAll raw limit skip ↔ Paged limit ((splitLinesInclusive raw).drop skip) := by
  constructor
  · rintro ⟨n, all, finished⟩
    induction n generalizing skip with
    | zero =>
      rw [← all]
      exact .nil
    | succ n ih =>
      rw [readLines_succ] at all
      have next := (shownLines_eq_take).mp (List.prefix_iff_eq_take.mp ⟨_, all⟩)
      have size : (shownLines raw skip limit).length = pageSize limit ((splitLinesInclusive raw).drop skip) :=
        length_keptLines _ next
      have later : readLines raw limit n (lastLine raw limit skip) =
          (splitLinesInclusive raw).drop (lastLine raw limit skip) := by
        rw [lastLine_eq, ← List.drop_drop, ← all, List.drop_left, ← lastLine_eq]
      have rest := ih _ later finished
      rw [lastLine_eq] at rest
      rcases Nat.eq_zero_or_pos (shownLines raw skip limit).length with none | some
      · rwa [none, Nat.add_zero] at rest
      · refine .page (size ▸ some) next ?_
        rwa [← size, List.drop_drop]
  · generalize same : (splitLinesInclusive raw).drop skip = lines
    intro paged
    induction paged generalizing skip with
    | nil => exact ⟨0, same.symm, List.drop_eq_nil_iff.mp same⟩
    | page shows filled rest ih =>
      subst same
      have size : (shownLines raw skip limit).length = pageSize limit ((splitLinesInclusive raw).drop skip) :=
        length_keptLines _ filled
      obtain ⟨n, all, finished⟩ := ih (lastLine raw limit skip) (by rw [lastLine_eq, size, List.drop_drop])
      refine ⟨n + 1, ?_, finished⟩
      rw [readLines_succ, all, lastLine_eq, ← List.drop_drop]
      nth_rewrite 1 [(shownLines_eq_take).mpr filled]
      exact List.take_append_drop ..

/-- Every header is true and the reads show every line once exactly when the lines fall into filled pages. -/
theorem read_truthful_iff (rawPath raw : JsString) (offsetArg limitArg : Option JsNumber) :
    HeaderTrue rawPath raw offsetArg limitArg ∧ ReadsAll raw (lineLimit limitArg) (lineOffset offsetArg - 1) ↔
      Paged (lineLimit limitArg) ((splitLinesInclusive raw).drop (lineOffset offsetArg - 1)) := by
  rw [headerTrue_iff, readsAll_iff, and_iff_right_iff_imp]
  generalize (splitLinesInclusive raw).drop (lineOffset offsetArg - 1) = lines
  intro paged
  cases paged with
  | nil => simp [Filled]
  | page _ filled _ => exact filled

end Shown

section LongLine

private theorem utf8ByteLength_plain (n : ℕ) : utf8ByteLength (List.replicate n 0x78 ++ [0x0A]) = n + 1 := by
  induction n with
  | zero => rfl
  | succ n ih =>
    cases n with
    | zero => rfl
    | succ n =>
      rw [List.replicate_succ, List.replicate_succ, List.cons_append, List.cons_append, utf8ByteLength,
        if_neg (by decide), ← List.cons_append, ← List.replicate_succ, ih, unitBytes, if_pos (by decide)]
      omega

/-- A line that is too long is passed over, but the header counts on. -/
theorem long_line_shifts_header :
    ¬ HeaderTrue (js "notes.txt") (List.replicate ReadTool.DEFAULT_MAX_BYTES 0x78 ++ [0x0A] ++ js "b\n") none none := by
  have plain : (0x0A : CodeUnit) ∉ List.replicate ReadTool.DEFAULT_MAX_BYTES 0x78 := fun listed =>
    absurd (List.eq_of_mem_replicate listed) (by decide)
  have second : Lines [js "b\n"] := .cons ⟨js "b", rfl, by decide⟩ .nil
  have split := splitLinesInclusive_flatten (.cons ⟨_, rfl, plain⟩ second)
  rw [List.flatten_cons, List.flatten_singleton] at split
  rw [headerTrue_iff, split]
  intro filled
  have long : ¬ utf8ByteLength (List.replicate ReadTool.DEFAULT_MAX_BYTES 0x78 ++ [0x0A]) ≤
      ReadTool.DEFAULT_MAX_BYTES := by
    rw [utf8ByteLength_plain]
    omega
  rw [show lineOffset none - 1 = 0 from rfl, List.drop_zero, List.take_of_length_le (Nat.le_of_ble_eq_true rfl), Filled,
    fitting, if_neg long] at filled
  have room := filled (js "b\n") (List.mem_cons_of_mem _ List.mem_cons_self)
  exact absurd room (by decide)

end LongLine

end PieAgent.Soundness.PagedReads
