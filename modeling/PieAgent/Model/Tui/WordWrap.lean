import PieAgent.JavaScript.Core.Strings
import PieAgent.Model.Tui.TextWidth

/-! # Word wrap in the editor

A line is wrapped segment by segment. The segments are graphemes, and the paste markers whose number is valid, each as
one. A marker that is wider than the editor is wrapped again by its own graphemes.
-/

namespace PieAgent.Model.Tui.WordWrap

open JavaScript TextWidth

/-- `text.slice(start, end)`. -/
def slice (text : JsString) (start end_ : ℕ) : JsString := (text.take end_).drop start

section Markers

/-- A number between two texts. No digit may stand behind it, so it is the longest run of digits. -/
def numbered? (before after text : JsString) : Option JsString :=
  (text.dropPrefix? before).bind fun rest =>
    let number := rest.takeWhile isDecimal
    if number ≠ [] ∧ after <+: rest.dropWhile isDecimal then some (before ++ number ++ after) else none

/-- `( (\+\d+ lines|\d+ chars))?\]` -/
def markerSize? (text : JsString) : Option JsString :=
  if js "]" <+: text then some (js "]")
  else (numbered? (js " +") (js " lines]") text).or (numbered? (js " ") (js " chars]") text)

/-- A match of `PASTE_MARKER_REGEX` at the front of the text, with its number. -/
def pasteMarker? (text : JsString) : Option (JsString × JsString) :=
  (text.dropPrefix? (js "[paste #")).bind fun rest =>
    let id := rest.takeWhile isDecimal
    if id = [] then none
    else (markerSize? (rest.dropWhile isDecimal)).map fun size => (js "[paste #" ++ id ++ size, id)

def isPasteMarker (segment : JsString) : Bool :=
  10 ≤ segment.length ∧ (pasteMarker? segment).map Prod.fst = some segment

variable (validIds : JsString → Bool)

/-- The matches behind the given number of characters, as start and end, where the number of the marker is valid. -/
def markersFrom : ℕ → ℕ → JsString → List (ℕ × ℕ)
  | _, _, [] => []
  | skip + 1, index, _ :: rest => markersFrom skip (index + 1) rest
  | 0, index, unit :: rest =>
    match pasteMarker? (unit :: rest) with
    | some (marker, id) =>
      (if validIds id then [(index, index + marker.length)] else []) ++
        markersFrom (marker.length - 1) (index + 1) rest
    | none => markersFrom 0 (index + 1) rest

/-- Segments with their places, the first at the given one. -/
def indexed : ℕ → List JsString → List (ℕ × JsString)
  | _, [] => []
  | index, segment :: rest => (index, segment) :: indexed (index + segment.length) rest

def mergeMarkers (text : JsString) : List (ℕ × JsString) → List (ℕ × ℕ) → List (ℕ × JsString)
  | [], _ => []
  | (index, segment) :: rest, markers =>
    let markers := markers.dropWhile fun (_, end_) => end_ ≤ index
    match markers.head? with
    | some (start, end_) =>
      if start ≤ index ∧ index < end_ then
        if index = start then (start, slice text start end_) :: mergeMarkers text rest markers
        else mergeMarkers text rest markers
      else (index, segment) :: mergeMarkers text rest markers
    | none => (index, segment) :: mergeMarkers text rest markers

/-- Without a valid marker these are the graphemes. -/
def segmentWithMarkers (unicode : Unicode) (text : JsString) : List (ℕ × JsString) :=
  mergeMarkers text (indexed 0 (unicode.segment text)) (markersFrom validIds 0 0 text)

end Markers

structure TextChunk where
  text : JsString
  startIndex : ℕ
  endIndex : ℕ
deriving DecidableEq

/-- The variables of the loop; an absent opportunity is -1. -/
structure Wrapping where
  chunks : List TextChunk := []
  currentWidth : ℕ := 0
  chunkStart : ℕ := 0
  wrapOppIndex : Option ℕ := none
  wrapOppWidth : ℕ := 0

namespace Wrapping

/-- Ends the chunk at a place. -/
def push (state : Wrapping) (line : JsString) (end_ width : ℕ) : Wrapping :=
  { state with
    chunks := state.chunks ++ [⟨slice line state.chunkStart end_, state.chunkStart, end_⟩]
    chunkStart := end_, currentWidth := width, wrapOppIndex := none }

def force (state : Wrapping) (line : JsString) (charIndex : ℕ) : Wrapping :=
  if state.chunkStart < charIndex then state.push line charIndex 0 else { state with wrapOppIndex := none }

/-- The check before a segment of the given width. -/
def overflow (state : Wrapping) (line : JsString) (gWidth charIndex maxWidth : ℕ) : Wrapping :=
  if maxWidth < state.currentWidth + gWidth then
    match state.wrapOppIndex with
    | some wrapOppIndex =>
      if state.currentWidth - state.wrapOppWidth + gWidth ≤ maxWidth then
        state.push line wrapOppIndex (state.currentWidth - state.wrapOppWidth)
      else state.force line charIndex
    | none => state.force line charIndex
  else state

/-- The chunks of a segment that is wider than the editor; the last of them may go on. -/
def rewrap (unicode : Unicode) (state : Wrapping) (charIndex : ℕ) (subChunks : List TextChunk) (last : TextChunk) :
    Wrapping :=
  { state with
    chunks := state.chunks ++ subChunks.map fun chunk =>
      ⟨chunk.text, charIndex + chunk.startIndex, charIndex + chunk.endIndex⟩
    chunkStart := charIndex + last.startIndex, currentWidth := visibleWidth unicode last.text
    wrapOppIndex := none }

/-- `isWhitespaceChar` -/
def isWhitespaceChar (char : JsString) : Bool := char.any fun unit => isWhitespace unit.toNat

/-- Where white space ends before the next segment, the line may be broken. -/
def advance (state : Wrapping) (gWidth : ℕ) (grapheme : JsString) (next : Option (ℕ × JsString)) : Wrapping :=
  let currentWidth := state.currentWidth + gWidth
  let isWs := ¬isPasteMarker grapheme ∧ isWhitespaceChar grapheme
  match next with
  | some (index, segment) =>
    if isWs ∧ (isPasteMarker segment ∨ ¬isWhitespaceChar segment) then
      { state with currentWidth, wrapOppIndex := some index, wrapOppWidth := currentWidth }
    else { state with currentWidth }
  | none => { state with currentWidth }

end Wrapping

section Lines

variable (unicode : Unicode)

/-- The loop over the segments, where `rewrapped` are the chunks of one segment alone. -/
def wrapSegments (rewrapped : JsString → Option (List TextChunk)) (line : JsString) (maxWidth : ℕ) :
    List (ℕ × JsString) → Wrapping → Option Wrapping
  | [], state => some state
  | (charIndex, grapheme) :: rest, state =>
    let gWidth := visibleWidth unicode grapheme
    let state := state.overflow line gWidth charIndex maxWidth
    if maxWidth < gWidth then do
      let subChunks ← rewrapped grapheme
      let last ← subChunks.getLast?
      wrapSegments rewrapped line maxWidth rest (state.rewrap unicode charIndex subChunks.dropLast last)
    else wrapSegments rewrapped line maxWidth rest (state.advance gWidth grapheme rest.head?)

/-- Absent if the calls are nested too deeply. -/
def wordWrapLine : ℕ → JsString → ℕ → List (ℕ × JsString) → Option (List TextChunk)
  | 0, _, _, _ => none
  | fuel + 1, line, maxWidth, segments =>
    if line = [] ∨ maxWidth = 0 then some [⟨[], 0, 0⟩]
    else if visibleWidth unicode line ≤ maxWidth then some [⟨line, 0, line.length⟩]
    else do
      let rewrapped grapheme := wordWrapLine fuel grapheme maxWidth (indexed 0 (unicode.segment grapheme))
      let state ← wrapSegments unicode rewrapped line maxWidth segments {}
      return state.chunks ++ [⟨line.drop state.chunkStart, state.chunkStart, line.length⟩]

end Lines

end PieAgent.Model.Tui.WordWrap
