import PieAgent.Model.Tui.Rendering

/-! # What the written lines show

Lines that are joined by line breaks fill the rows from the cursor on, rows that are cleared one after another are
empty, and a relative movement reaches its row unless the edge of the screen is in between. The rows that changed are
found where the old and the new lines differ.
-/

namespace PieAgent.Model.Tui.Rendering

open JavaScript Terminal

variable {Cell : Type} (display : Display Cell) (size : Size)

/-- The row that a line fills, if there is one. -/
def rowOf (lines : List JsString) (j : ℕ) : List Cell :=
  match lines[j]? with
  | some line => filledRow size.width display.blank (display.cells line)
  | none => blankRow size.width display.blank

/-- Rows over which lines are written from a row on. -/
def overlay (rowAt : ℕ → List Cell) (start : ℕ) (lines : List JsString) (j : ℕ) : List Cell :=
  if start ≤ j ∧ j < start + lines.length then rowOf display size lines (j - start) else rowAt j

/-- Rows of which some are cleared. -/
def erased (rowAt : ℕ → List Cell) (start stop j : ℕ) : List Cell :=
  if start ≤ j ∧ j < stop then blankRow size.width display.blank else rowAt j

abbrev Fits (lines : List JsString) : Prop := ∀ line ∈ lines, display.visibleWidth line ≤ size.width

abbrev Shown (rowAt : ℕ → List Cell) (top row : ℕ) (screen : Screen Cell) : Prop :=
  Depicts size.width display.blank size.height rowAt top row screen

abbrev performed (screen : Screen Cell) (outputs : List (Output JsString)) : Screen Cell :=
  screen.performAll size.width display.blank display.cells outputs

variable {display size} {rowAt : ℕ → List Cell} {top row : ℕ} {screen : Screen Cell}

theorem performed_append (outputs more : List (Output JsString)) :
    performed display size screen (outputs ++ more) =
      performed display size (performed display size screen outputs) more :=
  Screen.performAll_append _ _ _ _ _ _

theorem rowOf_of_le {lines : List JsString} {j : ℕ} (outside : lines.length ≤ j) :
    rowOf display size lines j = blankRow size.width display.blank := by
  rw [rowOf, List.getElem?_eq_none outside]

theorem overlay_nil (start : ℕ) : overlay display size rowAt start [] = rowAt := by
  funext j
  exact if_neg fun inside => by simp at inside; omega

private theorem overlay_cons (start : ℕ) (line : JsString) (rest : List JsString) :
    overlay display size (Function.update rowAt start (filledRow size.width display.blank (display.cells line)))
        (start + 1) rest =
      overlay display size rowAt start (line :: rest) := by
  funext j
  rw [overlay, overlay, List.length_cons]
  rcases Nat.lt_trichotomy j start with before | rfl | behind
  · rw [if_neg (by omega), if_neg (by omega), Function.update_of_ne (by omega)]
  · rw [if_neg (by omega), if_pos (by omega), Function.update_self, Nat.sub_self]
    rfl
  · rw [Function.update_of_ne (by omega)]
    split
    next inside =>
      rw [if_pos (by omega), rowOf, rowOf, show j - start = j - (start + 1) + 1 by omega, List.getElem?_cons_succ]
    next outside => rw [if_neg (by omega)]

private theorem shown_written {clearLine : Bool} {line : JsString} (shown : Shown display size rowAt top row screen)
    (start : screen.col = 0) (fits : display.visibleWidth line ≤ size.width)
    (empty : clearLine = true ∨ rowAt row = blankRow size.width display.blank) :
    Shown display size (Function.update rowAt row (filledRow size.width display.blank (display.cells line))) top row
      (performed display size screen ((if clearLine then [Output.clearLine] else []) ++ [Output.text line])) := by
  cases clearLine with
  | false => exact shown.text display.cells start fits (empty.resolve_left nofun)
  | true =>
    have cleared := shown.clearLine display.cells
    have written := cleared.text display.cells start fits (Function.update_self _ _ _)
    rw [Function.update_idem] at written
    exact written

/-- Lines that follow a line break each fill the rows below the cursor. -/
private theorem shown_rest {clearLine : Bool} {rest : List JsString} (shown : Shown display size rowAt top row screen)
    (fits : Fits display size rest)
    (empty : clearLine = true ∨ ∀ j, row < j → rowAt j = blankRow size.width display.blank) :
    Shown display size (overlay display size rowAt (row + 1) rest) (max top (row + rest.length + 1 - size.height))
      (row + rest.length)
      (performed display size screen (rest.flatMap fun line =>
        [Output.carriageReturn, .lineFeed] ++ ((if clearLine then [Output.clearLine] else []) ++
          [Output.text line]))) := by
  induction rest generalizing rowAt top row screen with
  | nil =>
    have below := shown.row_lt
    rw [overlay_nil, List.length_nil, Nat.add_zero, Nat.max_eq_left (by omega)]
    exact shown
  | cons line rest ih =>
    obtain ⟨head, tail⟩ := List.forall_mem_cons.mp fits
    have fed := (shown.carriageReturn display.cells).lineFeed display.cells
    have start : ((screen.perform size.width display.blank display.cells .carriageReturn).perform size.width display.blank
        display.cells .lineFeed).col = 0 := Screen.lineFeed_col ..
    have written := shown_written fed start head (empty.imp_right fun empty => empty _ (Nat.lt_succ_self row))
    have done := ih written tail (empty.imp_right fun empty j behind => by
      rw [Function.update_of_ne (by omega)]
      exact empty j (by omega))
    rw [overlay_cons] at done
    have tops : max (max top (row + 2 - size.height)) (row + 1 + rest.length + 1 - size.height) =
        max top (row + (line :: rest).length + 1 - size.height) := by
      rw [List.length_cons]
      omega
    have rows : row + 1 + rest.length = row + (line :: rest).length := by
      rw [List.length_cons]
      omega
    rw [tops, rows] at done
    rw [List.flatMap_cons, performed_append]
    exact done

/-- Joined lines fill the rows from the cursor on, and the screen follows. -/
theorem shown_joined {clearLine : Bool} {line : JsString} {rest : List JsString}
    (shown : Shown display size rowAt top row screen) (start : screen.col = 0) (fits : Fits display size (line :: rest))
    (empty : clearLine = true ∨ ∀ j, row ≤ j → rowAt j = blankRow size.width display.blank) :
    Shown display size (overlay display size rowAt row (line :: rest)) (max top (row + rest.length + 1 - size.height))
      (row + rest.length) (performed display size screen (joined clearLine (line :: rest))) := by
  obtain ⟨head, tail⟩ := List.forall_mem_cons.mp fits
  have written := shown_written shown start head (empty.imp_right fun empty => empty _ le_rfl)
  have done := shown_rest written tail (empty.imp_right fun empty j behind => by
    rw [Function.update_of_ne (by omega)]
    exact empty j (by omega))
  rw [overlay_cons] at done
  rw [joined, performed_append]
  exact done

/-! ## Clearing rows -/

theorem erased_of_le {start stop : ℕ} (none_ : stop ≤ start) : erased display size rowAt start stop = rowAt := by
  funext j
  exact if_neg (by omega)

private theorem erased_update (start : ℕ) :
    Function.update rowAt start (blankRow size.width display.blank) = erased display size rowAt start (start + 1) := by
  funext j
  rw [erased]
  rcases eq_or_ne j start with rfl | other
  · rw [Function.update_self, if_pos (by omega)]
  · rw [Function.update_of_ne other, if_neg (by omega)]

private theorem erased_erased {start middle stop : ℕ} (first : start ≤ middle) (second : middle ≤ stop) :
    erased display size (erased display size rowAt start middle) middle stop = erased display size rowAt start stop := by
  funext j
  simp only [erased]
  split
  · rw [if_pos (by omega)]
  · split
    · rw [if_pos (by omega)]
    · rw [if_neg (by omega)]

/-- The rows below the cursor are cleared while they are on the screen. -/
theorem shown_clearBelow (shown : Shown display size rowAt top row screen) (count : ℕ)
    (inside : row + count < top + size.height) :
    Shown display size (erased display size rowAt (row + 1) (row + 1 + count)) top (row + count)
      (performed display size screen (List.replicate count [.carriageReturn, .lineFeed, .clearLine]).flatten) := by
  induction count generalizing rowAt row screen with
  | zero =>
    rw [erased_of_le le_rfl]
    exact shown
  | succ count ih =>
    have fed := (shown.carriageReturn display.cells).lineFeed display.cells
    rw [Nat.max_eq_left (by omega)] at fed
    have cleared := ih (fed.clearLine display.cells) (by omega)
    rw [erased_update, erased_erased (Nat.le_succ _) (by omega)] at cleared
    rw [List.replicate_succ, List.flatten_cons, performed_append]
    rw [show row + 1 + 1 + count = row + 1 + (count + 1) by omega,
      show row + 1 + count = row + (count + 1) by omega] at cleared
    exact cleared

/-- The rows from the cursor on are cleared; at the bottom of the screen the cursor stays. -/
theorem shown_clearFrom (shown : Shown display size rowAt top row screen) (count : ℕ) :
    Shown display size (erased display size rowAt row (row + count + 1)) top (min (top + (size.height - 1)) (row + count))
      (performed display size screen ((List.replicate count [Output.carriageReturn, .clearLine, .down 1]).flatten ++
        [Output.carriageReturn, .clearLine])) := by
  induction count generalizing rowAt row screen with
  | zero =>
    have cleared := (shown.carriageReturn display.cells).clearLine display.cells
    have below := shown.row_lt
    rw [erased_update] at cleared
    rw [Nat.add_zero, Nat.min_eq_right (by omega)]
    exact cleared
  | succ count ih =>
    have cleared := (shown.carriageReturn display.cells).clearLine display.cells
    rw [erased_update] at cleared
    have below := shown.row_lt
    have done := ih (cleared.down display.cells 1)
    rw [List.replicate_succ, List.flatten_cons, List.append_assoc, performed_append]
    have rows : min (top + (size.height - 1)) (min (top + (size.height - 1)) (row + 1) + count) =
        min (top + (size.height - 1)) (row + (count + 1)) := by omega
    rw [rows] at done
    refine done.congr fun j _ => ?_
    -- Below the screen everything is empty.
    have empty : top + size.height ≤ j → rowAt j = blankRow size.width display.blank := shown.below j
    simp only [erased]
    split_ifs <;> first | rfl | exact empty (by omega) | exact (empty (by omega)).symm

/-! ## Movements -/

/-- A movement reaches its row, or the edge of the screen in front of it. -/
theorem shown_move (shown : Shown display size rowAt top row screen) (target : ℕ) :
    Shown display size rowAt top (max top (min (top + (size.height - 1)) target))
      (performed display size screen (move (target - row))) := by
  have above := shown.le_row
  have below := shown.row_lt
  rw [move]
  split
  next down =>
    have moved := shown.down display.cells ((target : ℤ) - row).toNat
    rw [show min (top + (size.height - 1)) (row + ((target : ℤ) - row).toNat) =
      max top (min (top + (size.height - 1)) target) by omega] at moved
    exact moved
  · split
    next up =>
      have moved := shown.up display.cells (-((target : ℤ) - row)).toNat
      rw [show max top (row - (-((target : ℤ) - row)).toNat) =
        max top (min (top + (size.height - 1)) target) by omega] at moved
      exact moved
    next stay =>
      rw [show max top (min (top + (size.height - 1)) target) = row by omega]
      exact shown

/-! ## The lines that changed -/

variable {previousLines newLines : List JsString} {firstChanged lastChanged : ℕ}

theorem mem_changedRows {i : ℕ} : i ∈ changedRows previousLines newLines ↔
    i < max newLines.length previousLines.length ∧ previousLines.getD i [] ≠ newLines.getD i [] := by
  rw [changedRows, List.mem_filter, List.mem_range, decide_eq_true_eq]

private theorem le_of_head? {i : ℕ} (head : (changedRows previousLines newLines).head? = some firstChanged)
    (member : i ∈ changedRows previousLines newLines) : firstChanged ≤ i := by
  have sorted : (changedRows previousLines newLines).Pairwise (· < ·) := List.pairwise_lt_range.filter _
  cases rows : changedRows previousLines newLines with
  | nil =>
    rw [rows] at member
    cases member
  | cons first rest =>
    rw [rows] at head member sorted
    cases head
    rcases List.mem_cons.mp member with rfl | later
    · exact le_rfl
    · exact (List.rel_of_pairwise_cons sorted later).le

private theorem le_of_getLast? {i : ℕ} (last : (changedRows previousLines newLines).getLast? = some lastChanged)
    (member : i ∈ changedRows previousLines newLines) : i ≤ lastChanged := by
  have sorted : (changedRows previousLines newLines).Pairwise (· < ·) := List.pairwise_lt_range.filter _
  obtain ⟨front, rows⟩ := List.getLast?_eq_some_iff.mp last
  rw [rows] at member sorted
  rcases List.mem_append.mp member with earlier | here
  · exact ((List.pairwise_append.mp sorted).2.2 i earlier lastChanged (List.mem_singleton_self _)).le
  · exact (List.mem_singleton.mp here).le

/-- The lines at a place are the same when it is not found to be changed. -/
private theorem same_of_not_mem (previous : [] ∉ previousLines) (new : [] ∉ newLines) {i : ℕ}
    (unchanged : i ∉ changedRows previousLines newLines) : previousLines[i]? = newLines[i]? := by
  rcases Nat.lt_or_ge i (max newLines.length previousLines.length) with inside | outside
  · have same : previousLines.getD i [] = newLines.getD i [] := by
      by_contra differ
      exact unchanged ((mem_changedRows).mpr ⟨inside, differ⟩)
    rw [List.getD_eq_getElem?_getD, List.getD_eq_getElem?_getD] at same
    cases old : previousLines[i]? with
    | none =>
      cases now : newLines[i]? with
      | none => rfl
      | some line =>
        rw [old, now, Option.getD_none, Option.getD_some] at same
        exact absurd (same ▸ List.mem_of_getElem? now) new
    | some line =>
      cases now : newLines[i]? with
      | none =>
        rw [old, now, Option.getD_none, Option.getD_some] at same
        exact absurd (same ▸ List.mem_of_getElem? old) previous
      | some other =>
        rw [old, now] at same
        exact congrArg some same
  · rw [List.getElem?_eq_none (by omega), List.getElem?_eq_none (by omega)]

/-- What is known about the rows from the first to the last that changed. -/
structure Changes (previousLines newLines : List JsString) (firstChanged lastChanged : ℕ) : Prop where
  before : ∀ i < firstChanged, previousLines[i]? = newLines[i]?
  behind : ∀ i, lastChanged < i → i < newLines.length → previousLines[i]? = newLines[i]?
  first_le : firstChanged ≤ previousLines.length
  first_lt : firstChanged < max newLines.length previousLines.length
  le : firstChanged ≤ lastChanged
  appended : previousLines.length < newLines.length → lastChanged = newLines.length - 1

theorem eq_of_changes?_eq_none (previous : [] ∉ previousLines) (new : [] ∉ newLines)
    (none_ : changes? previousLines newLines = none) : previousLines = newLines := by
  refine List.ext_getElem? fun i => same_of_not_mem previous new fun member => ?_
  rw [changes?] at none_
  split at none_
  · cases none_
  · cases rows : changedRows previousLines newLines with
    | nil =>
      rw [rows] at member
      cases member
    | cons first rest =>
      rw [rows, List.getLast?_cons] at none_
      cases none_

theorem changes_of_eq_some (previous : [] ∉ previousLines) (new : [] ∉ newLines)
    (some_ : changes? previousLines newLines = some (firstChanged, lastChanged)) :
    Changes previousLines newLines firstChanged lastChanged := by
  rw [changes?] at some_
  split at some_
  next appended =>
    cases some_
    have changed : previousLines.length ∈ changedRows previousLines newLines := by
      refine (mem_changedRows).mpr ⟨by omega, fun same => ?_⟩
      rw [List.getD_eq_getElem?_getD, List.getD_eq_getElem?_getD, List.getElem?_eq_none le_rfl,
        List.getElem?_eq_getElem appended, Option.getD_none, Option.getD_some] at same
      exact new (same ▸ List.getElem_mem appended)
    cases head : (changedRows previousLines newLines).head? with
    | none =>
      rw [List.head?_eq_none_iff.mp head] at changed
      cases changed
    | some first =>
      have least := le_of_head? head changed
      refine ⟨fun i before => ?_, fun i behind inside => ?_, least, ?_, ?_, fun _ => rfl⟩
      · refine same_of_not_mem previous new fun member => ?_
        exact absurd (le_of_head? head member) (Nat.not_le.mpr before)
      · omega
      · exact least.trans_lt (by omega)
      · exact least.trans (by omega)
  next kept =>
    obtain ⟨first, head, some_⟩ := Option.bind_eq_some_iff.mp some_
    obtain ⟨last, last_, same⟩ := Option.map_eq_some_iff.mp some_
    cases same
    have changed := (mem_changedRows).mp (List.mem_of_mem_head? head)
    refine ⟨fun i before => ?_, fun i behind _ => ?_, ?_, changed.1, ?_, fun appended => absurd appended kept⟩
    · refine same_of_not_mem previous new fun member => ?_
      exact absurd (le_of_head? head member) (Nat.not_le.mpr before)
    · refine same_of_not_mem previous new fun member => ?_
      exact absurd (le_of_getLast? last_ member) (Nat.not_le.mpr behind)
    · have := changed.1
      omega
    · exact le_of_getLast? last_ (List.mem_of_mem_head? head)

/-! ## The prepared lines -/

theorem nil_not_mem_applyLineResets (lines : List JsString) : [] ∉ applyLineResets lines := by
  intro member
  obtain ⟨line, _, same⟩ := List.mem_map.mp member
  exact absurd (List.append_eq_nil_iff.mp same).2 (by decide)

/-- The cursor is in one of the bottom lines. -/
theorem row_of_extractCursorPosition {lines : List JsString} {height : ℕ} {cursorPos : CursorPos}
    (found : (extractCursorPosition display lines height).1 = some cursorPos) :
    lines.length - height ≤ cursorPos.row ∧ cursorPos.row < lines.length := by
  rw [extractCursorPosition] at found
  split at found
  next row before after place =>
    cases found
    obtain ⟨other, member, place⟩ := List.exists_of_findSome?_eq_some place
    obtain ⟨_, _, same⟩ := Option.map_eq_some_iff.mp place
    cases same
    rw [List.mem_reverse, List.mem_range'_1] at member
    dsimp only
    omega
  · cases found

theorem length_prepared (frame : Frame) : (frame.prepared display size).2.length = frame.lines.length := by
  rw [Frame.prepared, applyLineResets, List.length_map, extractCursorPosition]
  split
  · exact List.length_set
  · rfl

end PieAgent.Model.Tui.Rendering
