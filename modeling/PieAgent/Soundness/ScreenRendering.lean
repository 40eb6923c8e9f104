import PieAgent.Machine.Core.Labeled
import PieAgent.Proofs.Tui.Rendering

/-! # The screen after each frame

A frame is written by what differs from the frame before it. Still the screen shows the lines of the viewport, and the
cursor is in the row that the TUI remembers, unless the cursor belongs into a line above the viewport or all lines are
deleted: the first line is never cleared.
-/

namespace PieAgent.Soundness.ScreenRendering

open JavaScript Model.Tui.Rendering Machine Terminal

variable {Cell : Type} (display : Display Cell) (size : Size)

/-- The rows of the screen are the lines of the viewport, and the cursor is where the TUI takes it to be. -/
structure Shows (state : Rendered Cell) (lines : List JsString) : Prop where
  rows : state.screen.rows =
    (List.range size.height).map fun i => rowOf display size lines (state.tui.previousViewportTop + i)
  cursor : state.tui.previousViewportTop + state.screen.row = state.tui.hardwareCursorRow

/-- What every frame keeps, shown or not. -/
structure Invariant (state : Rendered Cell) : Prop where
  screen : state.screen.WellFormed size.height
  lines : [] ∉ state.tui.previousLines
  covers : state.tui.previousLines.length ≤ state.tui.previousViewportTop + size.height
  top : state.tui.previousViewportTop ≤ state.tui.previousLines.length - 1
  start : state.tui.previousLines = [] → state.tui.hardwareCursorRow = 0 ∧ state.screen.col = 0
  width : state.tui.previousWidth = 0 ∨ state.tui.previousWidth = size.width
  height : state.tui.previousHeight = 0 ∨ state.tui.previousHeight = size.height

/-- The lines of a frame fit into the screen. -/
abbrev FitsScreen (frame : Frame) : Prop := Fits display size (frame.prepared display size).2

/-- What a plan needs to be written cleanly. -/
def Allows (cursor deletion : Prop) : Plan → Prop
  | .fullRender _ => True
  | .unchanged | .update _ _ => cursor
  | .deleteLines => cursor ∧ deletion

instance {cursor deletion : Prop} [Decidable cursor] [Decidable deletion] :
    (plan : Plan) → Decidable (Allows cursor deletion plan)
  | .fullRender _ => inferInstanceAs (Decidable True)
  | .unchanged | .update _ _ => inferInstanceAs (Decidable cursor)
  | .deleteLines => inferInstanceAs (Decidable (cursor ∧ deletion))

/-- Without a full redraw the cursor belongs into the viewport, and when all lines are deleted the first one was empty or
there is no other row. -/
def Clean (state : Rendered Cell) (frame : Frame) : Prop :=
  let tui := if frame.force then state.tui.forced else state.tui
  let (cursorPos, newLines) := frame.prepared display size
  Allows (∀ pos ∈ cursorPos, tui.previousViewportTop ≤ pos.row)
    (newLines = [] → size.height = 1 ∨ rowOf display size tui.previousLines 0 = blankRow size.width display.blank)
    (tui.plan size frame newLines)

instance [DecidableEq Cell] (state : Rendered Cell) (frame : Frame) : Decidable (Clean display size state frame) :=
  inferInstanceAs (Decidable (Allows _ _ _))

variable {display} {size}

/-! ## The cursor -/

section Cursor

variable {tui : Tui} {cursorPos : Option CursorPos} {totalLines : ℕ} {rowAt : ℕ → List Cell} {screen : Screen Cell}

private theorem positionHardwareCursor_snd (inside : ∀ pos ∈ cursorPos, pos.row < totalLines) :
    (tui.positionHardwareCursor cursorPos totalLines).2 =
      { tui with hardwareCursorRow := (cursorPos.map (·.row)).getD tui.hardwareCursorRow } := by
  cases cursorPos with
  | none => rfl
  | some pos =>
    have below := inside pos rfl
    rw [Tui.positionHardwareCursor]
    dsimp only
    rw [if_neg (by omega), Nat.min_eq_left (by omega)]
    rfl

private theorem shown_position (shown : Shown display size rowAt tui.previousViewportTop tui.hardwareCursorRow screen)
    (inside : ∀ pos ∈ cursorPos, pos.row < totalLines) (covers : totalLines ≤ tui.previousViewportTop + size.height) :
    Shown display size rowAt tui.previousViewportTop
      (max tui.previousViewportTop ((cursorPos.map (·.row)).getD tui.hardwareCursorRow))
      (performed display size screen (tui.positionHardwareCursor cursorPos totalLines).1) := by
  cases cursorPos with
  | none =>
    rw [Option.map_none, Option.getD_none, Nat.max_eq_right shown.le_row]
    exact shown
  | some pos =>
    have below := inside pos rfl
    have moved := (shown_move shown pos.row).column display.cells pos.col
    rw [Nat.min_eq_right (by omega)] at moved
    rw [Tui.positionHardwareCursor]
    dsimp only
    rw [if_neg (by omega), Nat.min_eq_left (by omega), performed_append]
    exact moved

end Cursor

variable {state : Rendered Cell} {frame : Frame} {lines : List JsString} {rowAt : ℕ → List Cell}

/-- A screen that is known row by row shows lines when these are the rows and the cursor is not above it. -/
private theorem shows_iff (shown : Shown display size rowAt state.tui.previousViewportTop
    (max state.tui.previousViewportTop state.tui.hardwareCursorRow) state.screen) :
    Shows display size state lines ↔
      (∀ i < size.height, rowAt (state.tui.previousViewportTop + i) =
        rowOf display size lines (state.tui.previousViewportTop + i)) ∧
      state.tui.previousViewportTop ≤ state.tui.hardwareCursorRow := by
  have cursor := shown.row
  constructor
  · intro shows
    refine ⟨fun i inside => ?_, ?_⟩
    · have rows := shows.rows.symm.trans shown.rows_eq
      exact (List.map_inj_left.mp rows i (List.mem_range.mpr inside)).symm
    · have := shows.cursor
      omega
  · rintro ⟨same, above⟩
    refine ⟨shown.rows_eq.trans (List.map_congr_left fun i member => same i (List.mem_range.mp member)), ?_⟩
    omega

private theorem shown_of (invariant : Invariant size state) (shows : Shows display size state state.tui.previousLines) :
    Shown display size (rowOf display size state.tui.previousLines) state.tui.previousViewportTop
      state.tui.hardwareCursorRow state.screen where
  length := invariant.screen.length
  shown i below := by rw [shows.rows, List.getElem?_map, List.getElem?_range below, Option.map_some]
  below j above := rowOf_of_le (invariant.covers.trans above)
  row := shows.cursor
  inside := invariant.screen.inside

private theorem le_cursor_iff {cursorPos : Option CursorPos} {top row : ℕ} (above : top ≤ row) :
    top ≤ (cursorPos.map (·.row)).getD row ↔ ∀ pos ∈ cursorPos, top ≤ pos.row := by
  cases cursorPos with
  | none => exact iff_of_true above nofun
  | some pos => exact ⟨fun here other same => Option.some.inj same ▸ here, fun all => all pos rfl⟩

/-- When the cursor has been placed, the screen shows the lines if the written rows are theirs and the cursor belongs into
one of them. -/
private theorem shows_placed (rowAt : ℕ → List Cell) {tui next : Tui} {cursorPos : Option CursorPos} {totalLines : ℕ}
    {screen : Screen Cell} {buffer : List (Output JsString)}
    (shown : Shown display size rowAt tui.previousViewportTop tui.hardwareCursorRow (performed display size screen buffer))
    (inside : ∀ pos ∈ cursorPos, pos.row < totalLines) (covers : totalLines ≤ tui.previousViewportTop + size.height)
    (top : next.previousViewportTop = tui.previousViewportTop)
    (row : next.hardwareCursorRow = (tui.positionHardwareCursor cursorPos totalLines).2.hardwareCursorRow) :
    Shows display size
        ⟨next, performed display size screen (buffer ++ (tui.positionHardwareCursor cursorPos totalLines).1)⟩ lines ↔
      (∀ i < size.height, rowAt (tui.previousViewportTop + i) = rowOf display size lines (tui.previousViewportTop + i)) ∧
      ∀ pos ∈ cursorPos, tui.previousViewportTop ≤ pos.row := by
  have placed := shown_position shown inside covers
  have above := shown.le_row
  rw [positionHardwareCursor_snd inside] at row
  dsimp only at row
  rw [← performed_append] at placed
  rw [← le_cursor_iff above, ← top]
  rw [← top, ← row] at placed
  refine (shows_iff placed).trans (and_congr_right fun _ => ?_)
  rw [row]

/-! ## A full redraw -/

section Redraw

variable {tui : Tui} {cursorPos : Option CursorPos} {newLines : List JsString} {screen : Screen Cell}

private theorem shown_lines (shown : Shown display size (fun _ => blankRow size.width display.blank) 0 0 screen)
    (start : screen.col = 0) (fits : Fits display size newLines) :
    Shown display size (rowOf display size newLines) (max size.height newLines.length - size.height)
      (newLines.length - 1) (performed display size screen (joined false newLines)) := by
  cases newLines with
  | nil =>
    have inside := shown.inside
    rw [List.length_nil, Nat.max_eq_left (Nat.zero_le _), Nat.sub_self]
    exact shown.congr fun j _ => (rowOf_of_le (Nat.zero_le j)).symm
  | cons line rest =>
    have written := @shown_joined _ _ _ _ _ _ _ false _ _ shown start fits (.inr fun _ _ => rfl)
    have tops : max 0 (0 + rest.length + 1 - size.height) = max size.height (line :: rest).length - size.height := by
      rw [List.length_cons]
      omega
    rw [tops, show 0 + rest.length = (line :: rest).length - 1 by rw [List.length_cons]; omega] at written
    refine written.congr fun j _ => ?_
    rw [overlay, Nat.sub_zero]
    split
    · rfl
    next outside => exact (rowOf_of_le (by omega)).symm

private theorem shows_fullRender {clear : Bool} (fits : Fits display size newLines)
    (inside : ∀ pos ∈ cursorPos, newLines.length - size.height ≤ pos.row ∧ pos.row < newLines.length)
    (ready : Shown display size (fun _ => blankRow size.width display.blank) 0 0
      (performed display size screen (if clear then [.clearScreen, .home] else [])))
    (start : (performed display size screen (if clear then [.clearScreen, .home] else [])).col = 0) :
    Shows display size ⟨(fullRender clear size newLines cursorPos tui).2,
      performed display size screen (fullRender clear size newLines cursorPos tui).1⟩ newLines := by
  have written := shown_lines ready start fits
  rw [← performed_append] at written
  have positive := ready.inside
  have below : ∀ pos ∈ cursorPos, pos.row < newLines.length := fun pos here => (inside pos here).2
  rw [fullRender]
  dsimp only
  refine (shows_placed (rowOf display size newLines) ?_ below ?_ ?_ ?_).mpr ⟨fun _ _ => rfl, fun pos here => ?_⟩
  · exact written
  · dsimp only
    omega
  · dsimp only
    rw [positionHardwareCursor_snd below]
  · rfl
  · have := (inside pos here).1
    dsimp only
    omega

end Redraw

/-! ## A frame that changes only some rows -/

section Rows

variable {tui : Tui} {cursorPos : Option CursorPos} {newLines : List JsString} {screen : Screen Cell}

private theorem shows_keepLines
    (shown : Shown display size (rowOf display size newLines) tui.previousViewportTop tui.hardwareCursorRow screen)
    (viewport : tui.prevViewportTop size = tui.previousViewportTop)
    (inside : ∀ pos ∈ cursorPos, pos.row < newLines.length)
    (covers : newLines.length ≤ tui.previousViewportTop + size.height) :
    Shows display size ⟨(keepLines size newLines cursorPos tui).2,
        performed display size screen (keepLines size newLines cursorPos tui).1⟩ newLines ↔
      ∀ pos ∈ cursorPos, tui.previousViewportTop ≤ pos.row := by
  rw [keepLines]
  dsimp only
  have placed := @shows_placed _ display size newLines (rowOf display size newLines) tui
    { (tui.positionHardwareCursor cursorPos newLines.length).2 with
      previousViewportTop := tui.prevViewportTop size, previousHeight := size.height } cursorPos newLines.length screen []
    shown inside covers viewport rfl
  exact placed.trans (and_iff_right fun _ _ => rfl)

private theorem rowOf_congr {lines others : List JsString} {j : ℕ} (same : lines[j]? = others[j]?) :
    rowOf display size lines j = rowOf display size others j := by
  rw [rowOf, rowOf, same]

private theorem shows_deleteLines
    (shown : Shown display size (rowOf display size tui.previousLines) tui.previousViewportTop
      tui.hardwareCursorRow screen)
    (viewport : tui.prevViewportTop size = tui.previousViewportTop)
    (inside : ∀ pos ∈ cursorPos, pos.row < newLines.length)
    (covers : tui.previousLines.length ≤ tui.previousViewportTop + size.height)
    (fewer : newLines.length < tui.previousLines.length) (below : tui.previousViewportTop ≤ newLines.length - 1)
    (same : ∀ i < newLines.length, tui.previousLines[i]? = newLines[i]?) :
    Shows display size ⟨(deleteLines size newLines cursorPos tui).2,
        performed display size screen (deleteLines size newLines cursorPos tui).1⟩ newLines ↔
      (∀ pos ∈ cursorPos, tui.previousViewportTop ≤ pos.row) ∧
        (newLines = [] → size.height = 1 ∨ rowOf display size tui.previousLines 0 = blankRow size.width display.blank) := by
  have positive : 0 < size.height := (Nat.zero_le _).trans_lt shown.inside
  have extra : 0 < tui.previousLines.length - newLines.length := by omega
  have moved := (shown_move shown (newLines.length - 1)).carriageReturn display.cells
  rw [show max tui.previousViewportTop (min (tui.previousViewportTop + (size.height - 1)) (newLines.length - 1)) =
    newLines.length - 1 by omega] at moved
  have cleared := ((shown_clearFrom (moved.down display.cells 1)
    (tui.previousLines.length - newLines.length - 1)).up display.cells (tui.previousLines.length - newLines.length))
  generalize first : min (tui.previousViewportTop + (size.height - 1)) (newLines.length - 1 + 1) = start at cleared
  rw [show max tui.previousViewportTop (min (tui.previousViewportTop + (size.height - 1))
      (start + (tui.previousLines.length - newLines.length - 1)) - (tui.previousLines.length - newLines.length)) =
    newLines.length - 1 by omega] at cleared
  have rows : (∀ i < size.height,
      erased display size (rowOf display size tui.previousLines) start
          (start + (tui.previousLines.length - newLines.length - 1) + 1) (tui.previousViewportTop + i) =
        rowOf display size newLines (tui.previousViewportTop + i)) ↔
      (newLines = [] → size.height = 1 ∨ rowOf display size tui.previousLines 0 = blankRow size.width display.blank) := by
    constructor
    · rintro same' rfl
      rw [or_iff_not_imp_left]
      intro taller
      have top : tui.previousViewportTop = 0 := Nat.le_zero.mp below
      have zero := same' 0 positive
      rw [top, erased, if_neg] at zero
      · exact zero.trans (rowOf_of_le (Nat.zero_le _))
      · rw [top] at first
        simp only [List.length_nil] at first
        omega
    · intro first_ i inside
      rw [erased]
      split
      next here => exact (rowOf_of_le (by omega)).symm
      next kept =>
        rcases Nat.lt_or_ge (tui.previousViewportTop + i) newLines.length with old | gone
        · exact rowOf_congr (same _ old)
        · rw [rowOf_of_le gone]
          by_cases nothing : newLines = []
          · have top : tui.previousViewportTop = 0 := by
              rw [nothing] at below
              exact Nat.le_zero.mp below
            have none_ : newLines.length = 0 := List.length_eq_zero_iff.mpr nothing
            rcases first_ nothing with single | blank
            · omega
            · rcases Nat.eq_zero_or_pos i with rfl | later
              · rw [top]
                exact blank
              · exact rowOf_of_le (by omega)
          · have some_ := List.length_pos_of_ne_nil nothing
            exact rowOf_of_le (by omega)
  rw [deleteLines]
  simp only [if_pos extra]
  refine (shows_placed (erased display size (rowOf display size tui.previousLines) start
    (start + (tui.previousLines.length - newLines.length - 1) + 1)) ?_ inside ?_ ?_ ?_).trans ?_
  · generalize (List.replicate (tui.previousLines.length - newLines.length - 1)
      [Output.carriageReturn, .clearLine, .down 1]).flatten ++ [Output.carriageReturn, .clearLine] = buffer at cleared
    rw [performed_append, performed_append, performed_append, performed_append]
    exact cleared
  · dsimp only
    omega
  · exact viewport
  · rfl
  · exact (and_congr_left' rows).trans and_comm

/-- The cursor goes to the first line that changed, with a line feed when lines are appended. -/
private theorem shown_start {firstChanged : ℕ} (appendStart : Prop) [Decidable appendStart]
    (shown : Shown display size rowAt tui.previousViewportTop tui.hardwareCursorRow screen)
    (positive : appendStart → 0 < firstChanged)
    (inside : (if appendStart then firstChanged - 1 else firstChanged) < tui.previousViewportTop + size.height)
    (above : tui.previousViewportTop ≤ if appendStart then firstChanged - 1 else firstChanged) :
    Shown display size rowAt (max tui.previousViewportTop (firstChanged + 1 - size.height)) firstChanged
      (performed display size screen
        (move ((if appendStart then firstChanged - 1 else firstChanged : ℕ) - (tui.hardwareCursorRow : ℤ)) ++
          if appendStart then [Output.carriageReturn, .lineFeed] else [Output.carriageReturn])) ∧
    (performed display size screen
      (move ((if appendStart then firstChanged - 1 else firstChanged : ℕ) - (tui.hardwareCursorRow : ℤ)) ++
        if appendStart then [Output.carriageReturn, .lineFeed] else [Output.carriageReturn])).col = 0 := by
  have moved := (shown_move shown (if appendStart then firstChanged - 1 else firstChanged)).carriageReturn display.cells
  rw [Nat.min_eq_right (by omega), Nat.max_eq_right above] at moved
  rw [performed_append]
  split at moved
  next appends =>
    have fed := moved.lineFeed display.cells
    have some_ := positive appends
    simp only [if_pos appends] at inside ⊢
    rw [show firstChanged - 1 + 1 = firstChanged by omega,
      show firstChanged - 1 + 2 - size.height = firstChanged + 1 - size.height by omega] at fed
    exact ⟨fed, Screen.lineFeed_col ..⟩
  next other =>
    simp only [if_neg other] at inside above ⊢
    rw [Nat.max_eq_left (by omega)]
    exact ⟨moved, rfl⟩

private theorem shown_rendered {top firstChanged renderEnd : ℕ} (shown : Shown display size rowAt top firstChanged screen)
    (start : screen.col = 0) (fits : Fits display size newLines) (le : firstChanged ≤ renderEnd)
    (inside : renderEnd < newLines.length) :
    Shown display size (overlay display size rowAt firstChanged ((newLines.take (renderEnd + 1)).drop firstChanged))
      (max top (renderEnd + 1 - size.height)) renderEnd
      (performed display size screen (joined true ((newLines.take (renderEnd + 1)).drop firstChanged))) := by
  have length : ((newLines.take (renderEnd + 1)).drop firstChanged).length = renderEnd + 1 - firstChanged := by
    rw [List.length_drop, List.length_take, Nat.min_eq_left (by omega)]
  have fit : Fits display size ((newLines.take (renderEnd + 1)).drop firstChanged) := fun line member =>
    fits line (List.mem_of_mem_take (List.mem_of_mem_drop member))
  cases rendered : (newLines.take (renderEnd + 1)).drop firstChanged with
  | nil =>
    rw [rendered, List.length_nil] at length
    omega
  | cons line rest =>
    rw [rendered] at length fit
    rw [List.length_cons] at length
    have written := @shown_joined _ _ _ _ _ _ _ true _ _ shown start fit (.inl rfl)
    rwa [show firstChanged + rest.length = renderEnd by omega] at written

private theorem rowOf_drop_take {first last j : ℕ} (above : first ≤ j) (below : j < last) :
    rowOf display size ((newLines.take last).drop first) (j - first) = rowOf display size newLines j := by
  rw [rowOf, rowOf, List.getElem?_drop, show first + (j - first) = j by omega, List.getElem?_take_of_lt below]

/-- The lines that are gone are cleared, and the cursor returns to the last line. -/
private theorem shown_gone {top renderEnd last extra : ℕ} (shown : Shown display size rowAt top renderEnd screen)
    (le : renderEnd ≤ last) (inside : last + extra < top + size.height) :
    Shown display size (erased display size rowAt (last + 1) (last + 1 + extra)) top last
      (performed display size screen ((if renderEnd < last then [Output.down (last - renderEnd)] else []) ++
        (List.replicate extra [Output.carriageReturn, .lineFeed, .clearLine]).flatten ++ [Output.up extra])) := by
  have above := shown.le_row
  have moved : Shown display size rowAt top last
      (performed display size screen (if renderEnd < last then [Output.down (last - renderEnd)] else [])) := by
    split
    next before =>
      have moved := shown.down display.cells (last - renderEnd)
      rwa [show min (top + (size.height - 1)) (renderEnd + (last - renderEnd)) = last by omega] at moved
    · rwa [show last = renderEnd by omega]
  have cleared := (shown_clearBelow moved extra inside).up display.cells extra
  rw [show max top (last + extra - extra) = last by omega] at cleared
  rw [performed_append, performed_append]
  exact cleared

/-- What was written is the rest of the new lines, also when lines behind them have to be cleared. -/
private theorem shown_behind {firstChanged lastChanged renderEnd : ℕ} {buffer : List (Output JsString)}
    (changes : Changes tui.previousLines newLines firstChanged lastChanged)
    (covers : tui.previousLines.length ≤ tui.previousViewportTop + size.height)
    (some_ : firstChanged < newLines.length) (end_ : min lastChanged (newLines.length - 1) = renderEnd)
    (rendered : Shown display size
      (overlay display size (rowOf display size tui.previousLines) firstChanged
        ((newLines.take (renderEnd + 1)).drop firstChanged))
      (max tui.previousViewportTop (renderEnd + 1 - size.height)) renderEnd (performed display size screen buffer)) :
    Shown display size (rowOf display size newLines)
      (max tui.previousViewportTop
        ((if 0 < tui.previousLines.length - newLines.length then newLines.length - 1 else renderEnd) + 1 - size.height))
      (if 0 < tui.previousLines.length - newLines.length then newLines.length - 1 else renderEnd)
      (performed display size screen (buffer ++ if 0 < tui.previousLines.length - newLines.length then
        (if renderEnd < newLines.length - 1 then [Output.down (newLines.length - 1 - renderEnd)] else []) ++
          (List.replicate (tui.previousLines.length - newLines.length)
            [Output.carriageReturn, .lineFeed, .clearLine]).flatten ++
            [Output.up (tui.previousLines.length - newLines.length)] else [])) := by
  have first_le := changes.first_le
  have order := changes.le
  -- Rows that were not written are those of the old lines, which are the same.
  have old : ∀ j, (j < firstChanged ∨ renderEnd < j) → j < newLines.length →
      rowOf display size tui.previousLines j = rowOf display size newLines j := by
    rintro j (before | behind) inside
    · exact rowOf_congr (changes.before j before)
    · exact rowOf_congr (changes.behind j (by omega) inside)
  have length : ((newLines.take (renderEnd + 1)).drop firstChanged).length = renderEnd + 1 - firstChanged := by
    rw [List.length_drop, List.length_take, Nat.min_eq_left (by omega)]
  rw [performed_append]
  split
  next extra =>
    rw [Nat.max_eq_left (by omega)] at rendered ⊢
    have gone := shown_gone rendered (show renderEnd ≤ newLines.length - 1 by omega)
      (show newLines.length - 1 + (tui.previousLines.length - newLines.length) < _ by omega)
    refine gone.congr fun j _ => ?_
    rw [erased]
    split
    · exact (rowOf_of_le (by omega)).symm
    · rw [overlay, length]
      split
      · exact rowOf_drop_take (by omega) (by omega)
      · rcases Nat.lt_or_ge j newLines.length with kept | gone
        · exact old j (by omega) kept
        · rw [rowOf_of_le gone, rowOf_of_le (by omega)]
  next none_ =>
    refine rendered.congr fun j _ => ?_
    rw [overlay, length]
    split
    · exact rowOf_drop_take (by omega) (by omega)
    · rcases Nat.lt_or_ge j newLines.length with kept | gone
      · exact old j (by omega) kept
      · rw [rowOf_of_le gone, rowOf_of_le (by omega)]

private theorem shows_updateLines {firstChanged lastChanged : ℕ}
    (shown : Shown display size (rowOf display size tui.previousLines) tui.previousViewportTop
      tui.hardwareCursorRow screen)
    (viewport : tui.prevViewportTop size = tui.previousViewportTop)
    (inside : ∀ pos ∈ cursorPos, newLines.length - size.height ≤ pos.row ∧ pos.row < newLines.length)
    (covers : tui.previousLines.length ≤ tui.previousViewportTop + size.height)
    (top : tui.previousViewportTop ≤ tui.previousLines.length - 1) (fits : Fits display size newLines)
    (changes : Changes tui.previousLines newLines firstChanged lastChanged) (some_ : firstChanged < newLines.length)
    (above : tui.previousViewportTop ≤ firstChanged) :
    Shows display size ⟨(updateLines size newLines cursorPos firstChanged lastChanged tui).2,
        performed display size screen (updateLines size newLines cursorPos firstChanged lastChanged tui).1⟩ newLines ↔
      ∀ pos ∈ cursorPos, tui.previousViewportTop ≤ pos.row := by
  have positive : 0 < size.height := (Nat.zero_le _).trans_lt shown.inside
  have first_le := changes.first_le
  have order := changes.le
  have appended := changes.appended
  have below : ∀ pos ∈ cursorPos, pos.row < newLines.length := fun pos here => (inside pos here).2
  rw [updateLines]
  dsimp only
  rw [viewport]
  generalize target_ : (if tui.previousLines.length < newLines.length ∧ firstChanged = tui.previousLines.length ∧
    0 < firstChanged then firstChanged - 1 else firstChanged) = target
  have noScroll : target + 1 - (tui.previousViewportTop + size.height) = 0 := by
    rw [← target_]
    split <;> omega
  rw [noScroll]
  simp only [Nat.lt_irrefl, if_false, List.nil_append, Nat.add_zero]
  subst target_
  obtain ⟨started, start⟩ := shown_start (tui.previousLines.length < newLines.length ∧
    firstChanged = tui.previousLines.length ∧ 0 < firstChanged) shown (·.2.2) (by omega) (by split <;> omega)
  have rendered := shown_rendered started start fits (show firstChanged ≤ min lastChanged (newLines.length - 1) by omega)
    (by omega)
  rw [← performed_append] at rendered
  generalize renderEnd_ : min lastChanged (newLines.length - 1) = renderEnd at rendered ⊢
  rw [show max (max tui.previousViewportTop (firstChanged + 1 - size.height)) (renderEnd + 1 - size.height) =
    max tui.previousViewportTop (renderEnd + 1 - size.height) by omega] at rendered
  have written := shown_behind changes covers some_ renderEnd_ rendered
  refine (shows_placed (rowOf display size newLines) ?_ below ?_ ?_ ?_).trans ?_
  · exact written
  · dsimp only
    split <;> omega
  · rw [positionHardwareCursor_snd below]
  · rfl
  · dsimp only
    rw [and_iff_right fun _ _ => rfl]
    refine forall₂_congr fun pos here => ?_
    have := (inside pos here).1
    split <;> omega

end Rows

/-! ## One frame -/

section Plans

variable {tui : Tui} {newLines : List JsString}

private theorem prevViewportTop_eq (height : tui.previousHeight = 0 ∨ tui.previousHeight = size.height) :
    tui.prevViewportTop size = tui.previousViewportTop := by
  rw [Tui.prevViewportTop, if_neg]
  rintro ⟨known, other⟩
  exact height.elim known other

private theorem plan_forced : tui.forced.plan size frame newLines = .fullRender true := by
  have wide : ((-1 : ℤ) ≠ 0 ∧ (-1 : ℤ) ≠ size.width) := ⟨by decide, by omega⟩
  rw [Tui.plan, Tui.forced, if_neg (fun first => first.2.1 wide), if_pos wide]

/-- What a plan says about the old and the new lines. -/
private def Planned (tui : Tui) (newLines : List JsString) : Plan → Prop
  | .fullRender clear => clear = false → tui.previousLines = []
  | .unchanged => tui.previousLines = newLines ∧ newLines ≠ []
  | .deleteLines => newLines.length < tui.previousLines.length ∧ tui.previousViewportTop ≤ newLines.length - 1 ∧
    ∀ i < newLines.length, tui.previousLines[i]? = newLines[i]?
  | .update firstChanged lastChanged => Changes tui.previousLines newLines firstChanged lastChanged ∧
    firstChanged < newLines.length ∧ tui.previousViewportTop ≤ firstChanged

private theorem planned (width : tui.previousWidth = 0 ∨ tui.previousWidth = size.width)
    (height : tui.previousHeight = 0 ∨ tui.previousHeight = size.height) (old : [] ∉ tui.previousLines)
    (new : [] ∉ newLines) : Planned tui newLines (tui.plan size frame newLines) := by
  have sameWidth : ¬(tui.previousWidth ≠ 0 ∧ tui.previousWidth ≠ size.width) := fun changed =>
    width.elim changed.1 changed.2
  have sameHeight : ¬(tui.previousHeight ≠ 0 ∧ tui.previousHeight ≠ size.height) := fun changed =>
    height.elim changed.1 changed.2
  rw [Tui.plan]
  split
  next first => exact fun _ => first.1
  next later =>
    have some_ : tui.previousLines ≠ [] := fun empty => later ⟨empty, sameWidth, sameHeight⟩
    rw [if_neg fun changed => sameHeight changed.1, prevViewportTop_eq height]
    split
    · exact nofun
    · cases found : changes? tui.previousLines newLines with
      | none =>
        have same := eq_of_changes?_eq_none old new found
        exact ⟨same, same ▸ some_⟩
      | some rows =>
        have changes := changes_of_eq_some old new found
        have below := changes.first_lt
        dsimp only
        split
        · split
          · exact nofun
          · split
            · exact nofun
            · exact ⟨by omega, by omega, fun i inside => changes.before i (by omega)⟩
        · split
          · exact nofun
          · exact ⟨changes, by omega, by omega⟩

end Plans

private theorem inside_prepared {pos : CursorPos} (here : pos ∈ (frame.prepared display size).1) :
    (frame.prepared display size).2.length - size.height ≤ pos.row ∧ pos.row < (frame.prepared display size).2.length := by
  rw [length_prepared]
  exact row_of_extractCursorPosition here

/-- Movements and clearing keep the cursor in the first column. -/
private theorem col_performed {screen : Screen Cell} {outputs : List (Output JsString)} (start : screen.col = 0)
    (stays : ∀ output ∈ outputs, (∀ text, output ≠ .text text) ∧ ∀ index, output ≠ .column index) :
    (performed display size screen outputs).col = 0 := by
  induction outputs generalizing screen with
  | nil => exact start
  | cons output outputs ih =>
    obtain ⟨head, tail⟩ := List.forall_mem_cons.mp stays
    refine ih ?_ tail
    cases output with
    | down | up | carriageReturn | home | clearLine | clearScreen => first | exact start | rfl
    | lineFeed => exact (Screen.lineFeed_col ..).trans start
    | column index => exact absurd rfl (head.2 index)
    | text text => exact absurd rfl (head.1 text)

/-- The invariant holds behind a frame whose lines are remembered with a viewport in which they fit. -/
private theorem Invariant.next {next : Rendered Cell} {newLines : List JsString}
    (screen : next.screen.WellFormed size.height)
    (new : [] ∉ newLines) (lines : next.tui.previousLines = newLines)
    (covers : newLines.length ≤ next.tui.previousViewportTop + size.height)
    (top : next.tui.previousViewportTop ≤ newLines.length - 1)
    (start : newLines = [] → next.tui.hardwareCursorRow = 0 ∧ next.screen.col = 0)
    (width : next.tui.previousWidth = 0 ∨ next.tui.previousWidth = size.width)
    (height : next.tui.previousHeight = size.height) : Invariant size next := by
  subst lines
  exact ⟨screen, new, covers, top, start, width, .inr height⟩

section Frames

variable {tui : Tui} {screen : Screen Cell} {cursorPos : Option CursorPos} {newLines : List JsString}

private theorem invariant_fullRender {clear : Bool} (wellFormed : screen.WellFormed size.height) (new : [] ∉ newLines)
    (below : ∀ pos ∈ cursorPos, pos.row < newLines.length)
    (start : (performed display size screen (if clear then [.clearScreen, .home] else [])).col = 0) :
    Invariant size ⟨(fullRender clear size newLines cursorPos tui).2,
      performed display size screen (fullRender clear size newLines cursorPos tui).1⟩ := by
  have positive : 0 < size.height := (Nat.zero_le _).trans_lt wellFormed.inside
  rw [fullRender]
  dsimp only
  refine Invariant.next (wellFormed.performAll _) new rfl ?_ ?_ ?_ (.inr rfl) rfl
  · rw [positionHardwareCursor_snd below]
    dsimp only
    omega
  · rw [positionHardwareCursor_snd below]
    dsimp only
    omega
  · rintro rfl
    cases cursorPos with
    | none => exact ⟨rfl, by simpa only [joined, List.append_nil, Tui.positionHardwareCursor] using start⟩
    | some pos => exact absurd (below pos rfl) (Nat.not_lt_zero _)

private theorem invariant_keepLines (invariant : Invariant size ⟨tui, screen⟩) (same : tui.previousLines = newLines)
    (some_ : newLines ≠ []) (below : ∀ pos ∈ cursorPos, pos.row < newLines.length) :
    Invariant size ⟨(keepLines size newLines cursorPos tui).2,
      performed display size screen (keepLines size newLines cursorPos tui).1⟩ := by
  have viewport : tui.prevViewportTop size = tui.previousViewportTop := prevViewportTop_eq invariant.height
  rw [keepLines]
  dsimp only
  rw [positionHardwareCursor_snd below]
  subst same
  refine Invariant.next (invariant.screen.performAll _) invariant.lines rfl ?_ ?_ (absurd · some_) invariant.width rfl
  · exact viewport ▸ invariant.covers
  · exact viewport ▸ invariant.top

private theorem invariant_deleteLines (invariant : Invariant size ⟨tui, screen⟩) (new : [] ∉ newLines)
    (fewer : newLines.length < tui.previousLines.length) (top : tui.previousViewportTop ≤ newLines.length - 1)
    (below : ∀ pos ∈ cursorPos, pos.row < newLines.length) :
    Invariant size ⟨(deleteLines size newLines cursorPos tui).2,
      performed display size screen (deleteLines size newLines cursorPos tui).1⟩ := by
  have viewport : tui.prevViewportTop size = tui.previousViewportTop := prevViewportTop_eq invariant.height
  have covers := invariant.covers
  rw [deleteLines]
  dsimp only at covers ⊢
  refine Invariant.next (invariant.screen.performAll _) new rfl ?_ ?_ ?_ (.inr rfl) rfl
  · dsimp only
    omega
  · dsimp only
    omega
  · rintro rfl
    cases cursorPos with
    | some pos => exact absurd (below pos rfl) (Nat.not_lt_zero _)
    | none =>
      refine ⟨rfl, ?_⟩
      have extra : 0 < tui.previousLines.length - ([] : List JsString).length := by omega
      simp only [if_pos extra, Tui.positionHardwareCursor, List.append_nil, List.append_assoc]
      rw [performed_append, performed_append]
      refine col_performed rfl fun output member => ?_
      simp only [List.mem_append, List.mem_flatten, List.mem_replicate, List.mem_cons, List.not_mem_nil,
        or_false] at member
      rcases member with rfl | ⟨_, ⟨_, rfl⟩, member⟩ | (rfl | rfl) | rfl
      · exact ⟨nofun, nofun⟩
      · simp only [List.mem_cons, List.not_mem_nil, or_false] at member
        rcases member with rfl | rfl | rfl <;> exact ⟨nofun, nofun⟩
      · exact ⟨nofun, nofun⟩
      · exact ⟨nofun, nofun⟩
      · exact ⟨nofun, nofun⟩

private theorem invariant_updateLines {firstChanged lastChanged : ℕ} (invariant : Invariant size ⟨tui, screen⟩)
    (new : [] ∉ newLines) (changes : Changes tui.previousLines newLines firstChanged lastChanged)
    (some_ : firstChanged < newLines.length) (above : tui.previousViewportTop ≤ firstChanged)
    (below : ∀ pos ∈ cursorPos, pos.row < newLines.length) :
    Invariant size ⟨(updateLines size newLines cursorPos firstChanged lastChanged tui).2,
      performed display size screen (updateLines size newLines cursorPos firstChanged lastChanged tui).1⟩ := by
  have viewport : tui.prevViewportTop size = tui.previousViewportTop := prevViewportTop_eq invariant.height
  have covers := invariant.covers
  have top := invariant.top
  have positive : 0 < size.height := (Nat.zero_le _).trans_lt invariant.screen.inside
  have first_le := changes.first_le
  have order := changes.le
  have appended := changes.appended
  rw [updateLines]
  dsimp only at covers top ⊢
  rw [viewport]
  refine Invariant.next (invariant.screen.performAll _) new rfl ?_ ?_ ?_ (.inr rfl) rfl
  · rw [positionHardwareCursor_snd below]
    dsimp only
    split <;> split <;> omega
  · rw [positionHardwareCursor_snd below]
    dsimp only
    split <;> split <;> omega
  · rintro rfl
    exact absurd some_ (Nat.not_lt_zero _)

end Frames

private theorem previousLines_positionHardwareCursor {tui : Tui} {cursorPos : Option CursorPos} {totalLines : ℕ}
    (inside : ∀ pos ∈ cursorPos, pos.row < totalLines) :
    (tui.positionHardwareCursor cursorPos totalLines).2.previousLines = tui.previousLines := by
  rw [positionHardwareCursor_snd inside]

section Steps

variable (invariant : Invariant size state) (fits : FitsScreen display size frame)

include invariant fits in
private theorem spec_fullRender {clear : Bool} {tui : Tui} (empty : clear = false → state.tui.previousLines = []) :
    Invariant size ⟨(fullRender clear size (frame.prepared display size).2 (frame.prepared display size).1 tui).2,
        performed display size state.screen
          (fullRender clear size (frame.prepared display size).2 (frame.prepared display size).1 tui).1⟩ ∧
      (Shows display size state state.tui.previousLines →
        Shows display size ⟨(fullRender clear size (frame.prepared display size).2 (frame.prepared display size).1 tui).2,
          performed display size state.screen
            (fullRender clear size (frame.prepared display size).2 (frame.prepared display size).1 tui).1⟩
          (frame.prepared display size).2) := by
  have start : (performed display size state.screen (if clear then [.clearScreen, .home] else [])).col = 0 := by
    cases clear with
    | true => rfl
    | false => exact (invariant.start (empty rfl)).2
  refine ⟨invariant_fullRender invariant.screen (nil_not_mem_applyLineResets _)
    (fun pos here => (inside_prepared here).2) start, fun shows => ?_⟩
  refine shows_fullRender fits (fun pos here => inside_prepared here) ?_ start
  have shown := shown_of invariant shows
  cases clear with
  | true => exact shown.clearScreen display.cells
  | false =>
    have nothing := empty rfl
    have top : state.tui.previousViewportTop = 0 := by
      have := invariant.top
      rw [nothing] at this
      exact Nat.le_zero.mp this
    rw [top, (invariant.start nothing).1, nothing] at shown
    exact shown.congr fun j _ => rowOf_of_le (Nat.zero_le j)

include invariant fits in
/-- A frame keeps the invariant and its lines are remembered; it is shown if and only if it is written cleanly to a
screen that shows the lines before. -/
theorem step_spec {next : Rendered Cell} (stepped : step display size state frame = some next) :
    Invariant size next ∧ next.tui.previousLines = (frame.prepared display size).2 ∧
      (Shows display size state state.tui.previousLines →
        (Shows display size next (frame.prepared display size).2 ↔ Clean display size state frame)) := by
  obtain ⟨written, rendered, rfl⟩ := Option.map_eq_some_iff.mp stepped
  have new : [] ∉ (frame.prepared display size).2 := nil_not_mem_applyLineResets _
  have inside : ∀ pos ∈ (frame.prepared display size).1, (frame.prepared display size).2.length - size.height ≤ pos.row ∧
    pos.row < (frame.prepared display size).2.length := fun pos here => inside_prepared here
  have below := fun pos here => (inside pos here).2
  rw [doRender] at rendered
  rw [Clean]
  cases force : frame.force with
  | true =>
    simp only [force, if_true, plan_forced] at rendered ⊢
    cases rendered
    obtain ⟨keeps, shows⟩ := @spec_fullRender _ _ _ _ _ invariant fits true state.tui.forced nofun
    exact ⟨keeps, rfl, fun before => iff_true_intro (shows before)⟩
  | false =>
    simp only [force, Bool.false_eq_true, if_false] at rendered ⊢
    have plan := @planned size frame state.tui _ invariant.width invariant.height invariant.lines new
    have viewport := prevViewportTop_eq invariant.height
    cases decided : state.tui.plan size frame (frame.prepared display size).2 with
    | fullRender clear =>
      rw [decided] at rendered plan
      cases rendered
      obtain ⟨keeps, shows⟩ := @spec_fullRender _ _ _ _ _ invariant fits clear state.tui plan
      exact ⟨keeps, rfl, fun before => iff_true_intro (shows before)⟩
    | unchanged =>
      rw [decided] at rendered plan
      cases rendered
      obtain ⟨same, some_⟩ := plan
      refine ⟨invariant_keepLines invariant same some_ below, ?_, fun shows => ?_⟩
      · exact (previousLines_positionHardwareCursor below).trans same
      · have shown := shown_of invariant shows
        rw [same] at shown
        exact shows_keepLines shown viewport below (same ▸ invariant.covers)
    | deleteLines =>
      rw [decided] at rendered plan
      cases rendered
      obtain ⟨fewer, top, same⟩ := plan
      refine ⟨invariant_deleteLines invariant new fewer top below, rfl, fun shows => ?_⟩
      exact shows_deleteLines (shown_of invariant shows) viewport below invariant.covers fewer top same
    | update firstChanged lastChanged =>
      rw [decided] at rendered plan
      obtain ⟨_, written⟩ := Option.ite_none_left_eq_some.mp rendered
      cases written
      obtain ⟨changes, some_, above⟩ := plan
      refine ⟨invariant_updateLines invariant new changes some_ above below, rfl, fun shows => ?_⟩
      exact shows_updateLines (shown_of invariant shows) viewport inside invariant.covers invariant.top fits changes
        some_ above

include fits in
/-- A frame that fits is written without an error. -/
theorem isSome_step : (step display size state frame).isSome := by
  rw [step, Option.isSome_map, doRender]
  dsimp only
  split
  · rfl
  · rfl
  · rfl
  · rw [if_neg, Option.isSome_some]
    rw [List.any_eq_true]
    rintro ⟨line, member, wide⟩
    have narrow := fits line (List.mem_of_mem_take (List.mem_of_mem_drop member))
    exact absurd (of_decide_eq_true wide) (Nat.not_lt.mpr narrow)

end Steps

/-! ## Runs -/

variable (display size) in
/-- Behind every frame the screen shows its lines. -/
def AlwaysShows (state : Rendered Cell) (frames : List Frame) : Prop :=
  ∀ past (frame : Frame) next, past ++ [frame] <+: frames →
    run? (step display size) state (past ++ [frame]) = some next →
    Shows display size next (frame.prepared display size).2

private theorem exists_run {frames : List Frame} (fits : ∀ frame ∈ frames, FitsScreen display size frame) :
    ∃ final, run? (step display size) state frames = some final := by
  induction frames generalizing state with
  | nil => exact ⟨state, rfl⟩
  | cons frame frames ih =>
    obtain ⟨head, tail⟩ := List.forall_mem_cons.mp fits
    obtain ⟨next, stepped⟩ := Option.isSome_iff_exists.mp (@isSome_step _ _ _ state _ head)
    obtain ⟨final, run⟩ := @ih next tail
    exact ⟨final, run?_cons.mpr ⟨next, stepped, run⟩⟩

private theorem alwaysShows_iff {frames : List Frame} (invariant : Invariant size state)
    (shows : Shows display size state state.tui.previousLines) (fits : ∀ frame ∈ frames, FitsScreen display size frame) :
    AlwaysShows display size state frames ↔ Meets (step display size) (Clean display size) state frames := by
  induction frames generalizing state with
  | nil =>
    refine iff_of_true (fun past frame next start _ => ?_) meets_nil
    exact absurd (List.prefix_nil.mp start) (List.append_ne_nil_of_right_ne_nil _ (List.cons_ne_nil _ _))
  | cons frame frames ih =>
    obtain ⟨head, tail⟩ := List.forall_mem_cons.mp fits
    obtain ⟨next, stepped⟩ := Option.isSome_iff_exists.mp (@isSome_step _ _ _ state _ head)
    obtain ⟨keeps, lines, clean⟩ := step_spec invariant head stepped
    have clean := clean shows
    have after (shown : Shows display size next (frame.prepared display size).2) := ih keeps (lines ▸ shown) tail
    constructor
    · intro always
      have shown := always [] frame next (List.prefix_append _ _) (run?_cons.mpr ⟨next, stepped, rfl⟩)
      refine ⟨clean.mp shown, fun other same => ?_⟩
      obtain rfl : next = other := Option.some.inj (stepped.symm.trans same)
      refine (after shown).mp fun past frame' final start run => ?_
      exact always (frame :: past) frame' final (List.cons_prefix_cons.mpr ⟨rfl, start⟩)
        (run?_cons.mpr ⟨next, stepped, run⟩)
    · rintro ⟨here, later⟩ past frame' final start run
      have shown := clean.mpr here
      cases past with
      | nil =>
        obtain ⟨rfl, _⟩ := List.cons_prefix_cons.mp start
        obtain ⟨other, same, finished⟩ := run?_cons.mp run
        cases finished
        obtain rfl : next = final := Option.some.inj (stepped.symm.trans same)
        exact shown
      | cons first past =>
        obtain ⟨rfl, behind⟩ := List.cons_prefix_cons.mp start
        obtain ⟨other, same, rest⟩ := run?_cons.mp run
        obtain rfl : next = other := Option.some.inj (stepped.symm.trans same)
        exact (after shown).mpr (later next stepped) past frame' final behind rest

private theorem invariant_initial (positive : 0 < size.height) : Invariant size (initial display size) where
  screen := ⟨List.length_replicate, positive⟩
  lines := List.not_mem_nil
  covers := Nat.zero_le _
  top := le_rfl
  start _ := ⟨rfl, rfl⟩
  width := .inl rfl
  height := .inl rfl

private theorem shows_initial : Shows display size (initial display size) [] where
  rows := by
    have empty : (fun i => rowOf display size [] (0 + i)) = fun _ => blankRow size.width display.blank :=
      funext fun i => rowOf_of_le (Nat.zero_le _)
    rw [initial]
    dsimp only
    rw [empty, List.map_const', List.length_range]
    rfl
  cursor := rfl

/-- On a terminal of a fixed size all frames that fit are written, and the screen shows each of them as a full redraw would
if and only if all are written cleanly. -/
theorem alwaysShows_iff_meets {frames : List Frame} (positive : 0 < size.height)
    (fits : ∀ frame ∈ frames, FitsScreen display size frame) :
    (∃ final, run? (step display size) (initial display size) frames = some final) ∧
      (AlwaysShows display size (initial display size) frames ↔
        Meets (step display size) (Clean display size) (initial display size) frames) :=
  ⟨exists_run fits, alwaysShows_iff (invariant_initial positive) shows_initial fits⟩

/-- A terminal that shows the text of lines without escape sequences of their own. -/
def plain : Display CodeUnit := ⟨fun line => line.take (line.length - segmentReset.length), 0x20⟩

def texts (lines : List String) : Frame := { lines := lines.map js }

/-- Lines are written, one is changed and one appended, the screen is scrolled, and lines are deleted. -/
def edits : List Frame :=
  [texts ["a", "b"], texts ["a", "c", "d"], texts ["a", "c", "d", "e"], texts ["a", "c", "f"]]

theorem alwaysShows_edits : AlwaysShows plain ⟨4, 3⟩ (initial plain ⟨4, 3⟩) edits := by
  refine (alwaysShows_iff_meets (by decide) ?_).2.mpr ?_
  · decide
  · refine Meets.cons ?_ rfl (Meets.cons ?_ rfl (Meets.cons ?_ rfl (Meets.cons ?_ rfl meets_nil)))
    · decide
    · decide
    · decide
    · decide

/-- All lines are deleted, and another one is written. -/
def emptied : List Frame := [texts ["ab", "cd"], texts [], texts ["x"]]

/-- The last of four lines is deleted, and the cursor is put into the second one, which has left the screen. -/
def cursorAbove : List Frame := [texts ["a", "b", "c", "d"], { lines := [js "a", cursorMarker ++ js "b", js "c"] }]

/-- The first line stays on the screen and shines through the next one, and the cursor is not where it is taken to be. -/
theorem not_shows :
    (∃ middle final, run? (step plain ⟨4, 3⟩) (initial plain ⟨4, 3⟩) (emptied.take 2) = some middle ∧
      run? (step plain ⟨4, 3⟩) middle (emptied.drop 2) = some final ∧
      middle.tui.previousLines = [] ∧ middle.screen.rows.head? = some (js "ab  ") ∧
      ¬Shows plain ⟨4, 3⟩ middle [] ∧ final.screen.rows.head? = some (js "xb  ")) ∧
    ∃ final, run? (step plain ⟨4, 2⟩) (initial plain ⟨4, 2⟩) cursorAbove = some final ∧
      final.tui.hardwareCursorRow = 1 ∧ final.tui.previousViewportTop + final.screen.row = 2 ∧
      ¬Shows plain ⟨4, 2⟩ final final.tui.previousLines := by
  refine ⟨⟨_, _, rfl, rfl, ?_, ?_, fun shows => ?_, ?_⟩, ⟨_, rfl, ?_, ?_, fun shows => ?_⟩⟩
  · decide
  · decide
  · exact absurd shows.rows (by decide)
  · decide
  · decide
  · decide
  · exact absurd shows.cursor (by decide)

end PieAgent.Soundness.ScreenRendering
