import PieAgent.JavaScript.Core.Search
import PieAgent.JavaScript.Core.Strings
import PieAgent.Terminal.Core.Screen

/-! # Differential rendering

`doRender` compares the new lines with those of the last time and writes what changes them on the terminal: it appends,
rewrites the lines that changed, clears those that are gone, or clears the screen and writes all lines. Images, overlays,
the visibility of the cursor, the scrollback and the debug files are left out, and so is what `stop` writes when a line is
too wide. How many cells a line takes is what the terminal makes of it.
-/

-- The class of the source has the name of its namespace.
set_option linter.dupNamespace false

namespace PieAgent.Model.Tui.Rendering

open JavaScript Terminal

/-- The cells that the terminal makes of a line, and the cell of an empty place. -/
structure Display (Cell : Type) where
  cells : JsString → List Cell
  blank : Cell

structure Size where
  width : ℕ
  height : ℕ

structure CursorPos where
  row : ℕ
  col : ℕ

/-- The fields of the TUI; a size of 0 is not known yet, and -1 asks for a full redraw. -/
structure Tui where
  previousLines : List JsString := []
  previousWidth : ℤ := 0
  previousHeight : ℤ := 0
  cursorRow : ℕ := 0
  hardwareCursorRow : ℕ := 0
  maxLinesRendered : ℕ := 0
  previousViewportTop : ℕ := 0

/-- What the components render, and how: `requestRender` may have forced a redraw before. -/
structure Frame where
  lines : List JsString
  force : Bool := false
  clearOnShrink : Bool := false
  isTermuxSession : Bool := false

variable {Cell : Type}

def Display.visibleWidth (display : Display Cell) (line : JsString) : ℕ := (display.cells line).length

def cursorMarker : JsString := js "\x1b_pi:c\x07"

def segmentReset : JsString := js "\x1b[0m\x1b]8;;\x07"

/-- Thai and Lao vowels are written as their decompositions. -/
def normalizeTerminalOutput (line : JsString) : JsString :=
  line.flatMap fun unit =>
    if unit = 0x0E33 then [0x0E4D, 0x0E32] else if unit = 0x0EB3 then [0x0ECD, 0x0EB2] else [unit]

def applyLineResets (lines : List JsString) : List JsString :=
  lines.map fun line => normalizeTerminalOutput line ++ segmentReset

/-- The last of the bottom lines with a marker, which is taken out. -/
def extractCursorPosition (display : Display Cell) (lines : List JsString) (height : ℕ) :
    Option CursorPos × List JsString :=
  let rows := (List.range' (lines.length - height) (lines.length - (lines.length - height))).reverse
  match rows.findSome? fun row => (cut? cursorMarker (lines.getD row [])).map fun place => (row, place) with
  | some (row, before, after) => (some ⟨row, display.visibleWidth before⟩, lines.set row (before ++ after))
  | none => (none, lines)

/-- `requestRender(true)`. -/
def Tui.forced (_ : Tui) : Tui := { previousWidth := -1, previousHeight := -1 }

/-- A relative movement over rows. -/
def move (lineDiff : ℤ) : List (Output JsString) :=
  if 0 < lineDiff then [.down lineDiff.toNat] else if lineDiff < 0 then [.up (-lineDiff).toNat] else []

def Tui.positionHardwareCursor (tui : Tui) (cursorPos : Option CursorPos) (totalLines : ℕ) :
    List (Output JsString) × Tui :=
  match cursorPos with
  | none => ([], tui)
  | some cursorPos =>
    if totalLines = 0 then ([], tui)
    else
      let targetRow := min cursorPos.row (totalLines - 1)
      (move (targetRow - tui.hardwareCursorRow) ++ [.column cursorPos.col], { tui with hardwareCursorRow := targetRow })

/-- Lines with line breaks between them, each on a row that is cleared before. -/
def joined (clearLine : Bool) : List JsString → List (Output JsString)
  | [] => []
  | line :: rest =>
    let written (line : JsString) : List (Output JsString) := (if clearLine then [.clearLine] else []) ++ [.text line]
    written line ++ rest.flatMap fun line => [.carriageReturn, .lineFeed] ++ written line

def fullRender (clear : Bool) (size : Size) (newLines : List JsString) (cursorPos : Option CursorPos) (tui : Tui) :
    List (Output JsString) × Tui :=
  let buffer := (if clear then [Output.clearScreen, .home] else []) ++ joined false newLines
  let cursorRow := newLines.length - 1
  let (outputs, tui) := { tui with
    cursorRow
    hardwareCursorRow := cursorRow
    maxLinesRendered := if clear then newLines.length else max tui.maxLinesRendered newLines.length
    previousViewportTop := max size.height newLines.length - size.height
    }.positionHardwareCursor cursorPos newLines.length
  (buffer ++ outputs, { tui with previousLines := newLines, previousWidth := size.width, previousHeight := size.height })

/-- The rows in which the lines differ; a missing line counts as an empty one. -/
def changedRows (previousLines newLines : List JsString) : List ℕ :=
  (List.range (max newLines.length previousLines.length)).filter fun i => previousLines.getD i [] ≠ newLines.getD i []

/-- `firstChanged` and `lastChanged`, absent for -1. -/
def changes? (previousLines newLines : List JsString) : Option (ℕ × ℕ) :=
  let changed := changedRows previousLines newLines
  if previousLines.length < newLines.length then
    some (changed.head?.getD previousLines.length, newLines.length - 1)
  else changed.head?.bind fun firstChanged => changed.getLast?.map fun lastChanged => (firstChanged, lastChanged)

/-- What `doRender` decides to do. -/
inductive Plan where
  | fullRender (clear : Bool)
  | unchanged
  | deleteLines
  | update (firstChanged lastChanged : ℕ)

/-- The top of the viewport before the lines are written. -/
def Tui.prevViewportTop (tui : Tui) (size : Size) : ℕ :=
  let heightChanged := tui.previousHeight ≠ 0 ∧ tui.previousHeight ≠ size.height
  let previousBufferLength := if 0 < tui.previousHeight then tui.previousViewportTop + tui.previousHeight else size.height
  if heightChanged then (previousBufferLength - size.height).toNat else tui.previousViewportTop

def Tui.plan (tui : Tui) (size : Size) (frame : Frame) (newLines : List JsString) : Plan :=
  let widthChanged := tui.previousWidth ≠ 0 ∧ tui.previousWidth ≠ size.width
  let heightChanged := tui.previousHeight ≠ 0 ∧ tui.previousHeight ≠ size.height
  if tui.previousLines = [] ∧ ¬widthChanged ∧ ¬heightChanged then .fullRender false
  else if widthChanged then .fullRender true
  else if heightChanged ∧ ¬frame.isTermuxSession then .fullRender true
  else if frame.clearOnShrink ∧ newLines.length < tui.maxLinesRendered then .fullRender true
  else
    match changes? tui.previousLines newLines with
    | none => .unchanged
    | some (firstChanged, lastChanged) =>
      if newLines.length ≤ firstChanged then
        if newLines.length - 1 < tui.prevViewportTop size then .fullRender true
        else if size.height < tui.previousLines.length - newLines.length then .fullRender true
        else .deleteLines
      else if firstChanged < tui.prevViewportTop size then .fullRender true
      else .update firstChanged lastChanged

/-- Nothing changed but the place of the cursor. -/
def keepLines (size : Size) (newLines : List JsString) (cursorPos : Option CursorPos) (tui : Tui) :
    List (Output JsString) × Tui :=
  let (outputs, moved) := tui.positionHardwareCursor cursorPos newLines.length
  (outputs, { moved with previousViewportTop := tui.prevViewportTop size, previousHeight := size.height })

/-- All changes are in deleted lines. -/
def deleteLines (size : Size) (newLines : List JsString) (cursorPos : Option CursorPos) (tui : Tui) :
    List (Output JsString) × Tui :=
  let targetRow := newLines.length - 1
  let extraLines := tui.previousLines.length - newLines.length
  let cleared := (List.replicate (extraLines - 1) [Output.carriageReturn, .clearLine, .down 1]).flatten ++
    (if 0 < extraLines then [Output.carriageReturn, .clearLine] else [])
  let buffer := move (targetRow - tui.hardwareCursorRow) ++ [Output.carriageReturn] ++
    (if 0 < extraLines then [Output.down 1] else []) ++ cleared ++
    (if 0 < extraLines then [Output.up extraLines] else [])
  let (outputs, moved) :=
    { tui with cursorRow := targetRow, hardwareCursorRow := targetRow }.positionHardwareCursor cursorPos newLines.length
  (buffer ++ outputs, { moved with
    previousLines := newLines
    previousWidth := size.width
    previousHeight := size.height
    previousViewportTop := tui.prevViewportTop size })

/-- The lines from the first to the last that changed are written, and what is behind the new lines is cleared. -/
def updateLines (size : Size) (newLines : List JsString) (cursorPos : Option CursorPos) (firstChanged lastChanged : ℕ)
    (tui : Tui) : List (Output JsString) × Tui :=
  let previousLength := tui.previousLines.length
  let appendStart := previousLength < newLines.length ∧ firstChanged = previousLength ∧ 0 < firstChanged
  let prevViewportTop := tui.prevViewportTop size
  let moveTargetRow := if appendStart then firstChanged - 1 else firstChanged
  -- Lines below the viewport are reached by scrolling.
  let scroll := moveTargetRow + 1 - (prevViewportTop + size.height)
  let currentScreenRow := min (size.height - 1) (tui.hardwareCursorRow - prevViewportTop)
  let scrolled := if 0 < scroll then
    (if 0 < size.height - 1 - currentScreenRow then [Output.down (size.height - 1 - currentScreenRow)] else []) ++
      (List.replicate scroll [Output.carriageReturn, .lineFeed]).flatten else []
  let hardwareCursorRow := if 0 < scroll then moveTargetRow else tui.hardwareCursorRow
  let start := if appendStart then [Output.carriageReturn, .lineFeed] else [Output.carriageReturn]
  let renderEnd := min lastChanged (newLines.length - 1)
  let rendered := (newLines.take (renderEnd + 1)).drop firstChanged
  let extraLines := previousLength - newLines.length
  let finalCursorRow := if 0 < extraLines then newLines.length - 1 else renderEnd
  let cleared := if 0 < extraLines then
    (if renderEnd < newLines.length - 1 then [Output.down (newLines.length - 1 - renderEnd)] else []) ++
      (List.replicate extraLines [Output.carriageReturn, .lineFeed, .clearLine]).flatten ++
        [Output.up extraLines] else []
  let buffer := scrolled ++ move (moveTargetRow - hardwareCursorRow) ++ start ++ joined true rendered ++ cleared
  let (outputs, moved) := { tui with
    cursorRow := newLines.length - 1
    hardwareCursorRow := finalCursorRow
    maxLinesRendered := max tui.maxLinesRendered newLines.length
    previousViewportTop := max (prevViewportTop + scroll) (finalCursorRow + 1 - size.height)
    }.positionHardwareCursor cursorPos newLines.length
  (buffer ++ outputs, { moved with
    previousLines := newLines, previousWidth := size.width, previousHeight := size.height })

/-- The cursor and the lines of a frame as they are written. -/
def Frame.prepared (display : Display Cell) (size : Size) (frame : Frame) : Option CursorPos × List JsString :=
  let extracted := extractCursorPosition display frame.lines size.height
  (extracted.1, applyLineResets extracted.2)

/-- Write a frame; a changed line that is too wide throws. -/
def doRender (display : Display Cell) (size : Size) (frame : Frame) (tui : Tui) :
    Option (List (Output JsString) × Tui) :=
  let tui := if frame.force then tui.forced else tui
  let (cursorPos, newLines) := frame.prepared display size
  match tui.plan size frame newLines with
  | .fullRender clear => some (fullRender clear size newLines cursorPos tui)
  | .unchanged => some (keepLines size newLines cursorPos tui)
  | .deleteLines => some (deleteLines size newLines cursorPos tui)
  | .update firstChanged lastChanged =>
    if ((newLines.take (lastChanged + 1)).drop firstChanged).any (size.width < display.visibleWidth ·) then none
    else some (updateLines size newLines cursorPos firstChanged lastChanged tui)

/-- The TUI and the terminal that it writes to. -/
structure Rendered (Cell : Type) where
  tui : Tui
  screen : Screen Cell

/-- Write a frame and let the terminal perform it. -/
def step (display : Display Cell) (size : Size) (state : Rendered Cell) (frame : Frame) : Option (Rendered Cell) :=
  (doRender display size frame state.tui).map fun written =>
    ⟨written.2, state.screen.performAll size.width display.blank display.cells written.1⟩

/-- A new TUI on an empty screen. -/
def initial (display : Display Cell) (size : Size) : Rendered Cell :=
  ⟨{}, Screen.empty size.width display.blank size.height⟩

end PieAgent.Model.Tui.Rendering
