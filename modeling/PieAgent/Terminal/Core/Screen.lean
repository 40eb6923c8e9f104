import Mathlib.Data.List.Basic
import Mathlib.Data.List.Range
import Mathlib.Logic.Function.Basic
import Mathlib.Tactic.Common

/-! # The screen of a terminal

A screen is a list of rows of cells and a cursor. Movements stop at its edges, a line feed at the bottom scrolls,
and text is written cell by cell, going on in the next row behind the last column. The rows are described by
where they stand in all that was ever written, so that a line feed at the bottom only moves the top of the screen.
Nothing here refers to a particular program.
-/

namespace Terminal

/-- What a program writes; texts are interpreted by the terminal. -/
inductive Output (Text : Type) where
  | down (count : ℕ)
  | up (count : ℕ)
  | carriageReturn
  | lineFeed
  | column (index : ℕ)
  | home
  | clearLine
  | clearScreen
  | text (text : Text)

structure Screen (Cell : Type) where
  rows : List (List Cell)
  row : ℕ
  col : ℕ

variable {Cell Text : Type} (width : ℕ) (blank : Cell)

def blankRow : List Cell := List.replicate width blank

/-- A row that begins with the given cells. -/
def filledRow (cells : List Cell) : List Cell := cells ++ List.replicate (width - cells.length) blank

namespace Screen

def lineFeed (screen : Screen Cell) : Screen Cell :=
  if screen.row + 1 < screen.rows.length then { screen with row := screen.row + 1 }
  else { screen with rows := screen.rows.tail ++ [blankRow width blank] }

/-- Write a cell; behind the last column the text goes on in the next row. -/
def put (screen : Screen Cell) (cell : Cell) : Screen Cell :=
  let screen := if screen.col < width then screen else { screen.lineFeed width blank with col := 0 }
  { screen with rows := screen.rows.modify screen.row (·.set screen.col cell), col := screen.col + 1 }

variable (cells : Text → List Cell)

def perform (screen : Screen Cell) : Output Text → Screen Cell
  | .down count => { screen with row := min (screen.rows.length - 1) (screen.row + count) }
  | .up count => { screen with row := screen.row - count }
  | .carriageReturn => { screen with col := 0 }
  | .lineFeed => screen.lineFeed width blank
  | .column index => { screen with col := min (width - 1) index }
  | .home => { screen with row := 0, col := 0 }
  | .clearLine => { screen with rows := screen.rows.set screen.row (blankRow width blank) }
  | .clearScreen => { screen with rows := screen.rows.map fun _ => blankRow width blank }
  | .text text => (cells text).foldl (put width blank) screen

def performAll (screen : Screen Cell) (outputs : List (Output Text)) : Screen Cell :=
  outputs.foldl (perform width blank cells) screen

theorem performAll_append (screen : Screen Cell) (outputs more : List (Output Text)) :
    screen.performAll width blank cells (outputs ++ more) =
      (screen.performAll width blank cells outputs).performAll width blank cells more := List.foldl_append

@[simp] theorem lineFeed_col (screen : Screen Cell) : (screen.lineFeed width blank).col = screen.col := by
  rw [lineFeed]
  split <;> rfl

/-- The cursor is on the screen. -/
structure WellFormed (height : ℕ) (screen : Screen Cell) : Prop where
  length : screen.rows.length = height
  inside : screen.row < height

variable {width} {blank} {cells} {height : ℕ} {screen : Screen Cell}

theorem WellFormed.lineFeed (wellFormed : screen.WellFormed height) :
    (screen.lineFeed width blank).WellFormed height := by
  obtain ⟨length, inside⟩ := wellFormed
  rw [Screen.lineFeed, length]
  split
  next above => exact ⟨length, above⟩
  · refine ⟨?_, inside⟩
    rw [List.length_append, List.length_tail, length, List.length_singleton]
    omega

theorem WellFormed.put (wellFormed : screen.WellFormed height) (cell : Cell) :
    (screen.put width blank cell).WellFormed height := by
  rw [Screen.put]
  split
  · exact ⟨(List.length_modify ..).trans wellFormed.length, wellFormed.inside⟩
  · exact ⟨(List.length_modify ..).trans wellFormed.lineFeed.length, wellFormed.lineFeed.inside⟩

/-- Nothing that is written moves the cursor off the screen. -/
theorem WellFormed.perform (wellFormed : screen.WellFormed height) (output : Output Text) :
    (screen.perform width blank cells output).WellFormed height := by
  obtain ⟨length, inside⟩ := wellFormed
  cases output with
  | down count => exact ⟨length, by show min _ _ < _; omega⟩
  | up count => exact ⟨length, (Nat.sub_le ..).trans_lt inside⟩
  | carriageReturn | column => exact ⟨length, inside⟩
  | lineFeed => exact WellFormed.lineFeed ⟨length, inside⟩
  | home => exact ⟨length, (Nat.zero_le _).trans_lt inside⟩
  | clearLine => exact ⟨List.length_set.trans length, inside⟩
  | clearScreen => exact ⟨(List.length_map _).trans length, inside⟩
  | text text =>
    rw [Screen.perform]
    induction cells text generalizing screen with
    | nil => exact ⟨length, inside⟩
    | cons cell rest ih =>
      have put : (screen.put width blank cell).WellFormed height := WellFormed.put ⟨length, inside⟩ cell
      exact ih put.length put.inside

theorem WellFormed.performAll (wellFormed : screen.WellFormed height) (outputs : List (Output Text)) :
    (screen.performAll width blank cells outputs).WellFormed height := by
  induction outputs generalizing screen with
  | nil => exact wellFormed
  | cons output outputs ih => exact ih (wellFormed.perform output)

variable (width) (blank)

/-- A screen of the given height that shows nothing. -/
def empty (height : ℕ) : Screen Cell := ⟨List.replicate height (blankRow width blank), 0, 0⟩

end Screen

/-- The screen shows the rows from the top on, its cursor is in the given row, and nothing is written below it. -/
structure Depicts (height : ℕ) (rowAt : ℕ → List Cell) (top row : ℕ) (screen : Screen Cell) : Prop where
  length : screen.rows.length = height
  shown : ∀ i < height, screen.rows[i]? = some (rowAt (top + i))
  below : ∀ j, top + height ≤ j → rowAt j = blankRow width blank
  row : top + screen.row = row
  inside : screen.row < height

namespace Depicts

variable {width : ℕ} {blank : Cell} {height top row : ℕ} {rowAt : ℕ → List Cell} {screen : Screen Cell}
  (cells : Text → List Cell)

theorem le_row (depicts : Depicts width blank height rowAt top row screen) : top ≤ row := by
  have := depicts.row
  omega

theorem row_lt (depicts : Depicts width blank height rowAt top row screen) : row < top + height := by
  have := depicts.row
  have := depicts.inside
  omega

/-- Only the rows from the top on matter. -/
theorem congr (depicts : Depicts width blank height rowAt top row screen) {other : ℕ → List Cell}
    (same : ∀ j, top ≤ j → rowAt j = other j) : Depicts width blank height other top row screen where
  length := depicts.length
  shown i below := same (top + i) (Nat.le_add_right ..) ▸ depicts.shown i below
  below j above := same j (by omega) ▸ depicts.below j above
  row := depicts.row
  inside := depicts.inside

/-- The rows of the screen are determined. -/
theorem rows_eq (depicts : Depicts width blank height rowAt top row screen) :
    screen.rows = (List.range height).map fun i => rowAt (top + i) := by
  refine List.ext_getElem? fun i => ?_
  rcases Nat.lt_or_ge i height with inside | outside
  · rw [depicts.shown i inside, List.getElem?_map, List.getElem?_range inside, Option.map_some]
  · rw [List.getElem?_eq_none (depicts.length.symm ▸ outside), List.getElem?_eq_none]
    rwa [List.length_map, List.length_range]

theorem down (depicts : Depicts width blank height rowAt top row screen) (count : ℕ) :
    Depicts width blank height rowAt top (min (top + (height - 1)) (row + count))
      (screen.perform width blank cells (.down count)) where
  length := depicts.length
  shown := depicts.shown
  below := depicts.below
  row := by
    have := depicts.row
    have := depicts.length
    show top + min _ _ = _
    omega
  inside := by
    have := depicts.inside
    have := depicts.length
    show min _ _ < _
    omega

theorem up (depicts : Depicts width blank height rowAt top row screen) (count : ℕ) :
    Depicts width blank height rowAt top (max top (row - count)) (screen.perform width blank cells (.up count)) where
  length := depicts.length
  shown := depicts.shown
  below := depicts.below
  row := by
    have := depicts.row
    show top + (_ - _) = _
    omega
  inside := (Nat.sub_le ..).trans_lt depicts.inside

theorem carriageReturn (depicts : Depicts width blank height rowAt top row screen) :
    Depicts width blank height rowAt top row (screen.perform width blank cells .carriageReturn) :=
  ⟨depicts.length, depicts.shown, depicts.below, depicts.row, depicts.inside⟩

theorem column (depicts : Depicts width blank height rowAt top row screen) (index : ℕ) :
    Depicts width blank height rowAt top row (screen.perform width blank cells (.column index)) :=
  ⟨depicts.length, depicts.shown, depicts.below, depicts.row, depicts.inside⟩

/-- A line feed goes to the next row, which the screen follows. -/
theorem lineFeed (depicts : Depicts width blank height rowAt top row screen) :
    Depicts width blank height rowAt (max top (row + 2 - height)) (row + 1)
      (screen.perform width blank cells .lineFeed) := by
  have row_ := depicts.row
  have inside := depicts.inside
  rw [Screen.perform, Screen.lineFeed, depicts.length]
  split
  next above =>
    have same : max top (row + 2 - height) = top := by omega
    rw [same]
    exact ⟨depicts.length, depicts.shown, depicts.below, by dsimp only; omega, above⟩
  next bottom =>
    have moved : max top (row + 2 - height) = top + 1 := by omega
    rw [moved]
    refine ⟨?_, fun i below => ?_, fun j above => depicts.below j (by omega), by dsimp only; omega, inside⟩
    · rw [List.length_append, List.length_tail, depicts.length, List.length_singleton]
      omega
    · have tail : screen.rows.tail.length = height - 1 := by rw [List.length_tail, depicts.length]
      rcases Nat.lt_or_ge i (height - 1) with kept | last
      · rw [List.getElem?_append_left (tail.symm ▸ kept), List.getElem?_tail, depicts.shown (i + 1) (by omega)]
        congr 2
        omega
      · rw [List.getElem?_append_right (tail.symm ▸ last), tail, show i - (height - 1) = 0 by omega,
          depicts.below _ (by omega)]
        rfl

private theorem set (depicts : Depicts width blank height rowAt top row screen) (new : List Cell) (col : ℕ) :
    Depicts width blank height (Function.update rowAt row new) top row
      ⟨screen.rows.set screen.row new, screen.row, col⟩ where
  length := by rw [List.length_set, depicts.length]
  shown i below := by
    have row_ := depicts.row
    rcases eq_or_ne screen.row i with rfl | other
    · rw [List.getElem?_set_self (depicts.length.symm ▸ below), ← row_, Function.update_self]
    · rw [List.getElem?_set_ne other, depicts.shown i below, Function.update_of_ne (by omega)]
  below j above := by
    have := depicts.row_lt
    rw [Function.update_of_ne (by omega), depicts.below j above]
  row := depicts.row
  inside := depicts.inside

theorem clearLine (depicts : Depicts width blank height rowAt top row screen) :
    Depicts width blank height (Function.update rowAt row (blankRow width blank)) top row
      (screen.perform width blank cells .clearLine) := depicts.set _ _

theorem clearScreen (depicts : Depicts width blank height rowAt top row screen) :
    Depicts width blank height (fun _ => blankRow width blank) 0 0
      ((screen.perform width blank cells .clearScreen).perform width blank cells .home) where
  length := (List.length_map _).trans depicts.length
  shown i below := by
    rw [Screen.perform, Screen.perform, List.getElem?_map, depicts.shown i below]
    rfl
  below _ _ := rfl
  row := rfl
  inside := (Nat.zero_le _).trans_lt depicts.inside

private theorem modify_eq_set {rows : List (List Cell)} {i : ℕ} {here : List Cell} (found : rows[i]? = some here)
    (change : List Cell → List Cell) : rows.modify i change = rows.set i (change here) := by
  refine List.ext_getElem? fun j => ?_
  rcases eq_or_ne i j with rfl | other
  · simp only [List.getElem?_modify, if_true, found, List.getElem?_set_self (List.getElem?_eq_some_iff.mp found).1]
    rfl
  · simp only [List.getElem?_modify, if_neg other, List.getElem?_set_ne other]
    exact id_map _

private theorem set_filledRow {written : List Cell} (cell : Cell) (room : written.length < width) :
    (filledRow width blank written).set written.length cell = filledRow width blank (written ++ [cell]) := by
  have left : width - written.length = width - (written ++ [cell]).length + 1 := by
    rw [List.length_append, List.length_singleton]
    omega
  rw [filledRow, filledRow, List.set_append_right _ _ le_rfl, Nat.sub_self, left, List.replicate_succ,
    List.set_cons_zero, List.append_assoc]
  rfl

/-- Cells that fit into the row are written behind one another. -/
private theorem foldl_put {screen : Screen Cell} {written : List Cell} (new : List Cell)
    (col : screen.col = written.length) (fits : written.length + new.length ≤ width)
    (here : screen.rows[screen.row]? = some (filledRow width blank written)) :
    new.foldl (Screen.put width blank) screen =
      ⟨screen.rows.set screen.row (filledRow width blank (written ++ new)), screen.row, written.length + new.length⟩ := by
  obtain ⟨rows, row, _⟩ := screen
  subst col
  dsimp only at here ⊢
  induction new generalizing rows written with
  | nil =>
    have kept : rows.set row (filledRow width blank written) = rows :=
      (modify_eq_set here id).symm.trans (List.modify_id _ _)
    rw [List.append_nil, kept]
    rfl
  | cons cell new ih =>
    rw [List.length_cons] at fits
    have room : written.length < width := by omega
    have inside := (List.getElem?_eq_some_iff.mp here).1
    have next : Screen.put width blank ⟨rows, row, written.length⟩ cell =
        ⟨rows.set row (filledRow width blank (written ++ [cell])), row, (written ++ [cell]).length⟩ := by
      rw [Screen.put, if_pos room, ← set_filledRow cell room, ← modify_eq_set here (·.set written.length cell),
        List.length_append]
      rfl
    rw [List.foldl_cons, next, ih]
    · rw [List.set_set, List.append_assoc, List.length_append, List.length_singleton, List.length_cons, Nat.add_assoc,
        Nat.add_comm 1]
      rfl
    · rw [List.length_append, List.length_singleton]
      omega
    · exact List.getElem?_set_self inside

/-- A text that fits fills an empty row. -/
theorem text (depicts : Depicts width blank height rowAt top row screen) (start : screen.col = 0) {new : Text}
    (fits : (cells new).length ≤ width) (empty : rowAt row = blankRow width blank) :
    Depicts width blank height (Function.update rowAt row (filledRow width blank (cells new))) top row
      (screen.perform width blank cells (.text new)) := by
  have here : screen.rows[screen.row]? = some (filledRow width blank []) := by
    rw [depicts.shown _ depicts.inside, depicts.row, empty]
    rfl
  rw [Screen.perform, foldl_put (cells new) start (by rwa [List.length_nil, Nat.zero_add]) here]
  exact depicts.set _ _

end Depicts

end Terminal
