import PieAgent.JavaScript.Core.Strings
import PieAgent.JavaScript.Core.Replace

/-! # The prompt editor and its paste markers

A text is cut at the cursor, so that lines and columns are those of the whole text. A large paste is kept in a
map and stands in the text as a marker with its number, which `submitValue` replaces by the paste. The same
editing functions are written once for texts of code units and for texts in which a paste is one unit: the
reference editor never uses a marker. How far a deletion or a cursor movement reaches is what the segmenter and
the layout answer for the text, once for each of the two editors.
-/

namespace PieAgent.Model.Tui.Editing

open JavaScript

/-- What the last key did, where it matters to the next one. -/
inductive LastAction
  | kill
  | yank
  | typeWord
deriving DecidableEq

namespace KillRing

variable {α : Type}

/-- `push` of the ring whose most recent entry is the last one. -/
def push (ring : List (List α)) (text : List α) (prepend accumulate : Bool) : List (List α) :=
  match text, accumulate, ring.getLast? with
  | [], _, _ => ring
  | text, true, some last => ring.dropLast ++ [if prepend then text ++ last else last ++ text]
  | text, _, _ => ring ++ [text]

def peek? (ring : List (List α)) : Option (List α) := ring.getLast?

/-- Move the last entry to the front. -/
def rotate (ring : List (List α)) : List (List α) :=
  match ring.getLast? with
  | some last => if 1 < ring.length then last :: ring.dropLast else ring
  | none => ring

end KillRing

/-- The text before and behind the cursor. -/
structure Text (α : Type) where
  before : List α
  after : List α

def Text.whole {α : Type} (text : Text α) : List α := text.before ++ text.after

/-- The fields of the editor that do not depend on how a paste is shown; the top of the undo stack comes first. -/
structure Editor (α : Type) where
  state : Text α
  killRing : List (List α)
  lastAction : Option LastAction
  undoStack : List (Text α)
  history : List JsString
  historyIndex : ℤ

namespace Editor

variable {α : Type}

def pushUndoSnapshot (editor : Editor α) : Editor α := { editor with undoStack := editor.state :: editor.undoStack }

def insertTextAtCursorInternal (new : List α) (editor : Editor α) : Editor α :=
  { editor with state := { editor.state with before := editor.state.before ++ new } }

/-- `insertCharacter` of what a key yields; white space and the first character of a word can be undone up to here. -/
def insertCharacter (new : List α) (whitespace : Bool) (editor : Editor α) : Editor α :=
  let snapshot := if whitespace || editor.lastAction != some .typeWord then editor.pushUndoSnapshot else editor
  { snapshot with historyIndex := -1, lastAction := some .typeWord }.insertTextAtCursorInternal new

def addNewLine (newLine : List α) (editor : Editor α) : Editor α :=
  { editor.pushUndoSnapshot with historyIndex := -1, lastAction := none }.insertTextAtCursorInternal newLine

/-- `handleBackspace`, where the grapheme before the cursor or the line break has the given length. -/
def handleBackspace (extent : ℕ) (editor : Editor α) : Editor α :=
  let editor := { editor with historyIndex := -1, lastAction := none }
  if editor.state.before.isEmpty then editor
  else { editor.pushUndoSnapshot with state := { editor.state with before := editor.state.before.rdrop extent } }

/-- `handleForwardDelete`, where the grapheme behind the cursor or the line break has the given length. -/
def handleForwardDelete (extent : ℕ) (editor : Editor α) : Editor α :=
  let editor := { editor with historyIndex := -1, lastAction := none }
  if editor.state.after.isEmpty then editor
  else { editor.pushUndoSnapshot with state := { editor.state with after := editor.state.after.drop extent } }

/-- `deleteToStartOfLine` and `deleteWordBackwards`: what stands before the cursor goes to the kill ring. -/
def deleteBackwards (extent : ℕ) (editor : Editor α) : Editor α :=
  let editor := { editor with historyIndex := -1 }
  if editor.state.before.isEmpty then editor
  else
    { editor.pushUndoSnapshot with
      state := { editor.state with before := editor.state.before.rdrop extent }
      killRing := KillRing.push editor.killRing (editor.state.before.rtake extent) true
        (editor.lastAction = some LastAction.kill)
      lastAction := some .kill }

/-- `deleteToEndOfLine` and `deleteWordForward`: what stands behind the cursor goes to the kill ring. -/
def deleteForwards (extent : ℕ) (editor : Editor α) : Editor α :=
  let editor := { editor with historyIndex := -1 }
  if editor.state.after.isEmpty then editor
  else
    { editor.pushUndoSnapshot with
      state := { editor.state with after := editor.state.after.drop extent }
      killRing := KillRing.push editor.killRing (editor.state.after.take extent) false
        (editor.lastAction = some LastAction.kill)
      lastAction := some .kill }

/-- A movement that puts the cursor behind the first `position` units of the text. -/
def moveCursor (position : ℕ) (editor : Editor α) : Editor α :=
  { editor with
    lastAction := none
    state := ⟨editor.state.whole.take position, editor.state.whole.drop position⟩ }

def insertYankedText (text : List α) (editor : Editor α) : Editor α :=
  { editor with historyIndex := -1 }.insertTextAtCursorInternal text

/-- The text before the cursor is taken to be the last entry of the ring. -/
def deleteYankedText (editor : Editor α) : Editor α :=
  match KillRing.peek? editor.killRing with
  | some text => { editor with state := { editor.state with before := editor.state.before.rdrop text.length } }
  | none => editor

def yank (editor : Editor α) : Editor α :=
  match KillRing.peek? editor.killRing with
  | some text => { editor.pushUndoSnapshot.insertYankedText text with lastAction := some .yank }
  | none => editor

def yankPop (editor : Editor α) : Editor α :=
  if editor.lastAction ≠ some .yank ∨ editor.killRing.length ≤ 1 then editor
  else
    let editor := editor.pushUndoSnapshot.deleteYankedText
    let editor := { editor with killRing := KillRing.rotate editor.killRing }
    match KillRing.peek? editor.killRing with
    | some text => { editor.insertYankedText text with lastAction := some .yank }
    | none => editor

def undo (editor : Editor α) : Editor α :=
  let editor := { editor with historyIndex := -1 }
  match editor.undoStack with
  | snapshot :: undoStack => { editor with undoStack, state := snapshot, lastAction := none }
  | [] => editor

/-- `setTextInternal` puts the cursor behind the text. -/
def setTextInternal (text : List α) (editor : Editor α) : Editor α := { editor with state := ⟨text, []⟩ }

/-- `navigateHistory`, where the texts of the history are put into the editor by `ofText`. -/
def navigateHistory (ofText : JsString → List α) (older : Bool) (editor : Editor α) : Editor α :=
  let editor := { editor with lastAction := none }
  let newIndex : ℤ := if older then editor.historyIndex + 1 else editor.historyIndex - 1
  if newIndex < -1 ∨ editor.history.length ≤ newIndex then editor
  else
    let snapshot := if editor.historyIndex = -1 ∧ 0 ≤ newIndex then editor.pushUndoSnapshot else editor
    let moved := { snapshot with historyIndex := newIndex }
    if newIndex = -1 then moved.setTextInternal []
    else moved.setTextInternal (ofText (editor.history.getD newIndex.toNat []))

def addToHistory (text : JsString) (editor : Editor α) : Editor α :=
  let trimmed := trim text
  if trimmed = [] ∨ editor.history.head? = some trimmed then editor
  else
    let history := trimmed :: editor.history
    { editor with history := if 100 < history.length then history.dropLast else history }

/-- The fields that `submitValue` resets. -/
def cleared (editor : Editor α) : Editor α :=
  { editor with state := ⟨[], []⟩, historyIndex := -1, undoStack := [], lastAction := none }

def initial : Editor α := ⟨⟨[], []⟩, [], none, [], [], -1⟩

end Editor

/-! ## Pastes -/

/-- How far a deletion or a movement reaches: in the text with markers, and in the text of the reference editor. -/
structure Extent where
  units : ℕ
  atoms : ℕ

/-- What a key makes the editor do, and the call with which the program adds a prompt to the history. -/
inductive Event where
  | insertCharacter (data : JsString)
  | addNewLine
  | handlePaste (pastedText : JsString)
  | handleBackspace (extent : Extent)
  | handleForwardDelete (extent : Extent)
  | deleteBackwards (extent : Extent)
  | deleteForwards (extent : Extent)
  | moveCursor (position : Extent)
  | yank
  | yankPop
  | undo
  | navigateHistory (older : Bool)
  | addToHistory (text : JsString)
  | submitValue

/-- `isWhitespaceChar`. -/
def isWhitespaceChar (data : JsString) : Bool := data.any fun unit => isWhitespace unit.toNat

/-- Line ends become `\n`, and a tab becomes four spaces. -/
def normalizeText (text : JsString) : JsString :=
  (replaceAll (fun text => if js "\r\n" <+: text then some (js "\n", 2) else none) text).flatMap fun unit =>
    if unit = 0x0D then [0x0A] else if unit = 0x09 then js "    " else [unit]

/-- The value of a decimal numeral. -/
def numeral (ds : JsString) : ℕ := ds.foldl (fun value unit => 10 * value + (unit.toNat - 0x30)) 0

/-- A key with Ctrl that a terminal wrote as `ESC [ code ; 5 u`, and its length. -/
def controlKey? (text : JsString) : Option (JsString × ℕ) :=
  (text.dropPrefix? [0x1B, 0x5B]).bind fun rest =>
    let code := rest.takeWhile isDecimal
    if code = [] ∨ ¬js ";5u" <+: rest.dropWhile isDecimal then none
    else if 97 ≤ numeral code ∧ numeral code ≤ 122 then some ([UInt16.ofNat (numeral code - 96)], code.length + 5)
    else if 65 ≤ numeral code ∧ numeral code ≤ 90 then some ([UInt16.ofNat (numeral code - 64)], code.length + 5)
    else none

/-- Control keys become control characters, and of these only line breaks are kept. -/
def cleanPaste (pastedText : JsString) : JsString :=
  (normalizeText (replaceAll controlKey? pastedText)).filter fun unit => unit = 0x0A || 32 ≤ unit

/-- The class `\w` of a pattern. -/
def isWord (unit : CodeUnit) : Bool :=
  isDecimal unit || (0x41 ≤ unit && unit ≤ 0x5A) || (0x61 ≤ unit && unit ≤ 0x7A) || unit == 0x5F

/-- The pattern `/^[/~.]/`. -/
def isPath (text : JsString) : Bool := text.head?.any fun unit => unit == 0x2F || unit == 0x7E || unit == 0x2E

/-- The paste as it enters the editor: a path is kept apart from the word before the cursor. -/
def filteredText (before pastedText : JsString) : JsString :=
  let clean := cleanPaste pastedText
  if isPath clean && before.getLast?.any isWord then js " " ++ clean else clean

def pastedLines (text : JsString) : ℕ := text.count 0x0A + 1

def isLarge (text : JsString) : Bool := 10 < pastedLines text || 1000 < text.length

def marker (pasteId : ℕ) (text : JsString) : JsString :=
  if 10 < pastedLines text then
    js "[paste #" ++ digits pasteId ++ js " +" ++ digits (pastedLines text) ++ js " lines]"
  else js "[paste #" ++ digits pasteId ++ js " " ++ digits text.length ++ js " chars]"

/-- What follows a number at the front of a text. -/
def afterNumber? (text : JsString) : Option JsString :=
  if text.takeWhile isDecimal = [] then none else some (text.dropWhile isDecimal)

/-- What follows `( (\+\d+ lines|\d+ chars))` at the front of a text. -/
def afterSize? (text : JsString) : Option JsString :=
  (((text.dropPrefix? (js " +")).bind afterNumber?).bind fun rest => rest.dropPrefix? (js " lines")) <|>
    (((text.dropPrefix? (js " ")).bind afterNumber?).bind fun rest => rest.dropPrefix? (js " chars"))

/-- What follows a marker with the given number at the front of a text. -/
def afterMarker? (pasteId : ℕ) (text : JsString) : Option JsString :=
  (text.dropPrefix? (js "[paste #" ++ digits pasteId)).bind fun rest =>
    ((afterSize? rest).getD rest).dropPrefix? (js "]")

def expandPasteMarkers (pastes : List (ℕ × JsString)) (text : JsString) : JsString :=
  pastes.foldl (fun result (pasteId, pasteContent) =>
    replaceAll (fun text => (afterMarker? pasteId text).map fun rest => (pasteContent, text.length - rest.length))
      result) text

/-- The editor with its map of pastes in the order of their numbers, and what it has passed to `onSubmit`. -/
structure PasteEditor where
  editor : Editor CodeUnit
  pastes : List (ℕ × JsString)
  pasteCounter : ℕ
  submitted : List JsString

namespace PasteEditor

def handlePaste (pastedText : JsString) (state : PasteEditor) : PasteEditor :=
  let editor := { state.editor.pushUndoSnapshot with historyIndex := -1, lastAction := none }
  let text := filteredText editor.state.before pastedText
  if isLarge text then
    let pasteId := state.pasteCounter + 1
    { state with
      editor := editor.insertTextAtCursorInternal (normalizeText (marker pasteId text))
      pastes := state.pastes ++ [(pasteId, text)]
      pasteCounter := pasteId }
  else { state with editor := editor.insertTextAtCursorInternal (normalizeText text) }

def submitValue (state : PasteEditor) : PasteEditor where
  editor := state.editor.cleared
  pastes := []
  pasteCounter := 0
  submitted := state.submitted ++ [trim (expandPasteMarkers state.pastes state.editor.state.whole)]

def step (state : PasteEditor) : Event → PasteEditor
  | .insertCharacter data => { state with editor := state.editor.insertCharacter data (isWhitespaceChar data) }
  | .addNewLine => { state with editor := state.editor.addNewLine (js "\n") }
  | .handlePaste pastedText => state.handlePaste pastedText
  | .handleBackspace extent => { state with editor := state.editor.handleBackspace extent.units }
  | .handleForwardDelete extent => { state with editor := state.editor.handleForwardDelete extent.units }
  | .deleteBackwards extent => { state with editor := state.editor.deleteBackwards extent.units }
  | .deleteForwards extent => { state with editor := state.editor.deleteForwards extent.units }
  | .moveCursor position => { state with editor := state.editor.moveCursor position.units }
  | .yank => { state with editor := state.editor.yank }
  | .yankPop => { state with editor := state.editor.yankPop }
  | .undo => { state with editor := state.editor.undo }
  | .navigateHistory older => { state with editor := state.editor.navigateHistory id older }
  | .addToHistory text => { state with editor := state.editor.addToHistory text }
  | .submitValue => state.submitValue

def initial : PasteEditor := ⟨.initial, [], 0, []⟩

end PasteEditor

/-! ## The editor without markers -/

/-- A large paste; its numbers tell it apart and are not used by the reference editor. -/
structure Paste where
  /-- How often a text was submitted before. -/
  epoch : ℕ
  pasteId : ℕ
  content : JsString
deriving DecidableEq

inductive Atom where
  | char (unit : CodeUnit)
  | paste (paste : Paste)
deriving DecidableEq

def Atom.content : Atom → JsString
  | .char unit => [unit]
  | .paste inserted => inserted.content

/-- A text with its pastes in full. -/
def inFull (atoms : List Atom) : JsString := atoms.flatMap Atom.content

/-- The editor that inserts every paste in full; a large paste is one unit of its text. -/
structure Reference where
  editor : Editor Atom
  epoch : ℕ
  pasteCounter : ℕ
  submitted : List JsString

namespace Reference

def handlePaste (pastedText : JsString) (state : Reference) : Reference :=
  let editor := { state.editor.pushUndoSnapshot with historyIndex := -1, lastAction := none }
  let text := filteredText (inFull editor.state.before) pastedText
  if isLarge text then
    let pasteId := state.pasteCounter + 1
    { state with
      editor := editor.insertTextAtCursorInternal [.paste ⟨state.epoch, pasteId, text⟩]
      pasteCounter := pasteId }
  else { state with editor := editor.insertTextAtCursorInternal ((normalizeText text).map .char) }

def submitValue (state : Reference) : Reference where
  editor := state.editor.cleared
  epoch := state.epoch + 1
  pasteCounter := 0
  submitted := state.submitted ++ [trim (inFull state.editor.state.whole)]

def step (state : Reference) : Event → Reference
  | .insertCharacter data =>
    { state with editor := state.editor.insertCharacter (data.map .char) (isWhitespaceChar data) }
  | .addNewLine => { state with editor := state.editor.addNewLine ((js "\n").map .char) }
  | .handlePaste pastedText => state.handlePaste pastedText
  | .handleBackspace extent => { state with editor := state.editor.handleBackspace extent.atoms }
  | .handleForwardDelete extent => { state with editor := state.editor.handleForwardDelete extent.atoms }
  | .deleteBackwards extent => { state with editor := state.editor.deleteBackwards extent.atoms }
  | .deleteForwards extent => { state with editor := state.editor.deleteForwards extent.atoms }
  | .moveCursor position => { state with editor := state.editor.moveCursor position.atoms }
  | .yank => { state with editor := state.editor.yank }
  | .yankPop => { state with editor := state.editor.yankPop }
  | .undo => { state with editor := state.editor.undo }
  | .navigateHistory older => { state with editor := state.editor.navigateHistory (·.map .char) older }
  | .addToHistory text => { state with editor := state.editor.addToHistory text }
  | .submitValue => state.submitValue

def initial : Reference := ⟨.initial, 0, 0, []⟩

end Reference

/-- Both editors, given the same keys. -/
abbrev Pair := PasteEditor × Reference

def step (pair : Pair) (event : Event) : Option Pair := some (pair.1.step event, pair.2.step event)

def initial : Pair := (.initial, .initial)

end PieAgent.Model.Tui.Editing
