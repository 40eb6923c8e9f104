import Mathlib.Algebra.Ring.Nat
import PieAgent.Framing.Core.Marks
import PieAgent.JavaScript.Core.Strings

/-! # The width of a text in terminal columns

Grapheme clusters and the width of one code point are those of the Unicode library. `visibleWidth` measures a text
without its escape codes, a tab as three spaces. Its cache changes no answer.
-/

namespace PieAgent.Model.Tui.TextWidth

open JavaScript Framing

def esc : CodeUnit := 0x1B

def tab : CodeUnit := 0x09

def isPrintableAscii (text : JsString) : Bool := text.all fun unit => 0x20 ≤ unit && unit ≤ 0x7E

/-- The segmenter, the expressions over Unicode properties and `eastAsianWidth`. -/
structure Unicode where
  segment : JsString → List JsString
  /-- Default ignorable, control, mark or surrogate. -/
  isZeroWidth : ℕ → Bool
  /-- Default ignorable, control, format, mark or surrogate. -/
  isNonPrinting : ℕ → Bool
  isRgiEmoji : JsString → Bool
  eastAsianWidth : ℕ → ℕ
  flatten_segment : ∀ text, (segment text).flatten = text
  nonempty_of_segment : ∀ text, ∀ cluster ∈ segment text, cluster ≠ []
  segment_ascii : ∀ text, isPrintableAscii text → segment text = text.map ([·])
  printable : ∀ code, 0x20 ≤ code → code ≤ 0x7E →
    isZeroWidth code = false ∧ isNonPrinting code = false ∧ eastAsianWidth code = 1

section Codes

/-- What ends a control sequence: `[mGKHJ]`. -/
def isFinal (unit : CodeUnit) : Bool := (js "mGKHJ").contains unit

def controlEnd? : JsString → Option JsString
  | [] => none
  | unit :: rest => if isFinal unit then some [unit] else (controlEnd? rest).map (unit :: ·)

/-- A command string ends with BEL or with `ESC \`. -/
def commandEnd? : JsString → Option JsString
  | [] => none
  | unit :: rest =>
    if unit = 0x07 then some [unit]
    else if unit = esc ∧ rest.head? = some 0x5C then some (unit :: rest.take 1)
    else (commandEnd? rest).map (unit :: ·)

/-- The escape code at the front of a text. -/
def extractAnsiCode? : JsString → Option JsString
  | first :: next :: rest =>
    if first ≠ esc then none
    else if next = 0x5B then (controlEnd? rest).map fun ended => first :: next :: ended
    else if next = 0x5D ∨ next = 0x5F then (commandEnd? rest).map fun ended => first :: next :: ended
    else none
  | _ => none

def ansiPieces (text : JsString) : List (Piece CodeUnit) := pieces extractAnsiCode? text

/-- A text without its escape codes. -/
def stripAnsi (text : JsString) : JsString := chars (ansiPieces text)

/-- `replace(/\t/g, "   ")`. -/
def expandTabs (text : JsString) : JsString := text.flatMap fun unit => if unit = tab then js "   " else [unit]

end Codes

section Graphemes

variable (unicode : Unicode)

def couldBeEmoji (segment : JsString) : Bool :=
  let code := codePoint ((characters segment).headD [])
  (0x1F000 ≤ code && code ≤ 0x1FBFF) || (0x2300 ≤ code && code ≤ 0x23FF) || (0x2600 ≤ code && code ≤ 0x27BF) ||
    (0x2B50 ≤ code && code ≤ 0x2B55) || segment.contains 0xFE0F || 2 < segment.length

/-- What a character behind the first code unit of a cluster adds to its width. -/
def trailingWidth (character : JsString) : ℕ :=
  let code := codePoint character
  if 0xFF00 ≤ code ∧ code ≤ 0xFFEF then unicode.eastAsianWidth code
  else if code = 0x0E33 ∨ code = 0x0EB3 then 1
  else 0

def graphemeWidth (segment : JsString) : ℕ :=
  if segment ≠ [] ∧ (characters segment).all fun character => unicode.isZeroWidth (codePoint character) then 0
  else if couldBeEmoji segment && unicode.isRgiEmoji segment then 2
  else
    match (characters segment).dropWhile fun character => unicode.isNonPrinting (codePoint character) with
    | [] => 0
    | base :: _ =>
      if 0x1F1E6 ≤ codePoint base ∧ codePoint base ≤ 0x1F1FF then 2
      else unicode.eastAsianWidth (codePoint base) +
        ((characters (segment.drop 1)).map (trailingWidth unicode)).sum

/-- The columns of a text, cluster by cluster. -/
def columns (text : JsString) : ℕ := ((unicode.segment text).map (graphemeWidth unicode)).sum

def visibleWidth (text : JsString) : ℕ :=
  if text = [] then 0
  else if isPrintableAscii text then text.length
  else
    let clean := if text.contains tab then expandTabs text else text
    let clean := if clean.contains esc then stripAnsi clean else clean
    columns unicode clean

end Graphemes

end PieAgent.Model.Tui.TextWidth

/-! ## Slices and truncated texts

A line is read in tokens: its escape codes, and between them the clusters of each stretch of text. `sliceWithWidth`
takes a range of columns, `truncateToWidth` a front of the text and an ellipsis.
-/

namespace PieAgent.Model.Tui.TextWidth

open JavaScript Framing

/-- What the loops over a line see. -/
inductive Token
  | code (text : JsString)
  | cluster (segment : JsString)

namespace Token

def text : Token → JsString
  | .code text => text
  | .cluster segment => segment

def cluster? : Token → Option JsString
  | .code _ => none
  | .cluster segment => some segment

end Token

section Slices

variable (unicode : Unicode)

/-- The tokens of the pieces, where the given text already stands in front of them. -/
def tokensFrom : JsString → List (Piece CodeUnit) → List Token
  | stretch, [] => (unicode.segment stretch).map .cluster
  | stretch, .char unit :: rest => tokensFrom (stretch ++ [unit]) rest
  | stretch, .mark code :: rest => (unicode.segment stretch).map .cluster ++ .code code :: tokensFrom [] rest

def tokens (line : JsString) : List Token := tokensFrom unicode [] (ansiPieces line)

structure Slice where
  result : JsString := []
  resultWidth : ℕ := 0
  currentCol : ℕ := 0
  pendingAnsi : JsString := []

/-- One cluster of the line. -/
def Slice.take (slice : Slice) (startCol endCol : ℕ) (strict : Bool) (segment : JsString) : Slice :=
  let w := graphemeWidth unicode segment
  let inRange := startCol ≤ slice.currentCol ∧ slice.currentCol < endCol
  let fits := strict = false ∨ slice.currentCol + w ≤ endCol
  if inRange ∧ fits then
    { result := slice.result ++ slice.pendingAnsi ++ segment, resultWidth := slice.resultWidth + w,
      currentCol := slice.currentCol + w, pendingAnsi := [] }
  else { slice with currentCol := slice.currentCol + w }

/-- One escape code of the line. -/
def Slice.code (slice : Slice) (startCol endCol : ℕ) (code : JsString) : Slice :=
  if startCol ≤ slice.currentCol ∧ slice.currentCol < endCol then { slice with result := slice.result ++ code }
  else if slice.currentCol < startCol then { slice with pendingAnsi := slice.pendingAnsi ++ code }
  else slice

def sliceTokens (startCol endCol : ℕ) (strict : Bool) : List Token → Slice → Slice
  | [], slice => slice
  | .code code :: rest, slice => sliceTokens startCol endCol strict rest (slice.code startCol endCol code)
  | .cluster segment :: rest, slice =>
    let slice := slice.take unicode startCol endCol strict segment
    if endCol ≤ slice.currentCol then slice else sliceTokens startCol endCol strict rest slice

/-- The text and its width. -/
def sliceWithWidth (line : JsString) (startCol length : ℕ) (strict : Bool) : JsString × ℕ :=
  if length = 0 then ([], 0)
  else
    let slice := sliceTokens unicode startCol (startCol + length) strict (tokens unicode line) {}
    (slice.result, slice.resultWidth)

end Slices

section Truncation

variable (unicode : Unicode)

/-- As `tokensFrom`, where a tab is a cluster of its own. -/
def tabTokensFrom : JsString → List (Piece CodeUnit) → List Token
  | stretch, [] => (unicode.segment stretch).map .cluster
  | stretch, .char unit :: rest =>
    if unit = tab then (unicode.segment stretch).map .cluster ++ .cluster [tab] :: tabTokensFrom [] rest
    else tabTokensFrom (stretch ++ [unit]) rest
  | stretch, .mark code :: rest => (unicode.segment stretch).map .cluster ++ .code code :: tabTokensFrom [] rest

/-- Texts with escape codes or tabs are read in stretches, and others as one. -/
def tabTokens (text : JsString) : List Token :=
  if text.contains esc || text.contains tab then tabTokensFrom unicode [] (ansiPieces text)
  else (unicode.segment text).map .cluster

/-- A tab counts as three columns. -/
def cellWidth (segment : JsString) : ℕ := if segment = [tab] then 3 else graphemeWidth unicode segment

def fragmentFrom (maxWidth : ℕ) : List Token → JsString → JsString × ℕ → JsString × ℕ
  | [], _, fragment => fragment
  | .code code :: rest, pendingAnsi, fragment => fragmentFrom maxWidth rest (pendingAnsi ++ code) fragment
  | .cluster segment :: rest, pendingAnsi, (result, width) =>
    if maxWidth < width + cellWidth unicode segment then (result, width)
    else fragmentFrom maxWidth rest [] (result ++ pendingAnsi ++ segment, width + cellWidth unicode segment)

/-- The text and its width. -/
def truncateFragmentToWidth (text : JsString) (maxWidth : ℕ) : JsString × ℕ :=
  if maxWidth = 0 ∨ text = [] then ([], 0)
  else if isPrintableAscii text then (text.take maxWidth, (text.take maxWidth).length)
  else fragmentFrom unicode maxWidth (tabTokens unicode text) [] ([], 0)

def reset : JsString := esc :: js "[0m"

def spaces (count : ℕ) : JsString := List.replicate count 0x20

def finalizeTruncatedResult (prefix_ : JsString) (prefixWidth : ℕ) (ellipsis : JsString)
    (ellipsisWidth maxWidth : ℕ) (pad : Bool) : JsString :=
  let result := if 0 < ellipsis.length then prefix_ ++ reset ++ ellipsis ++ reset else prefix_ ++ reset
  if pad then result ++ spaces (maxWidth - (prefixWidth + ellipsisWidth)) else result

structure Truncation where
  result : JsString := []
  pendingAnsi : JsString := []
  visibleSoFar : ℕ := 0
  keptWidth : ℕ := 0
  keepContiguousPrefix : Bool := true
  overflowed : Bool := false

def Truncation.take (state : Truncation) (targetWidth maxWidth : ℕ) (segment : JsString) : Truncation :=
  let width := cellWidth unicode segment
  let kept :=
    if state.keepContiguousPrefix = true ∧ state.keptWidth + width ≤ targetWidth then
      { state with
        result := state.result ++ state.pendingAnsi ++ segment, pendingAnsi := [],
        keptWidth := state.keptWidth + width }
    else { state with keepContiguousPrefix := false, pendingAnsi := [] }
  { kept with
    visibleSoFar := state.visibleSoFar + width, overflowed := maxWidth < state.visibleSoFar + width }

def truncateTokens (targetWidth maxWidth : ℕ) : List Token → Truncation → Truncation
  | [], state => state
  | .code code :: rest, state =>
    truncateTokens targetWidth maxWidth rest { state with pendingAnsi := state.pendingAnsi ++ code }
  | .cluster segment :: rest, state =>
    let state := state.take unicode targetWidth maxWidth segment
    if state.overflowed then state else truncateTokens targetWidth maxWidth rest state

/-- Unless the text overflows, all of it has been seen. -/
def truncateToWidth (text : JsString) (maxWidth : ℕ) (ellipsis : JsString) (pad : Bool) : JsString :=
  if maxWidth = 0 then []
  else if text = [] then if pad then spaces maxWidth else []
  else
    let ellipsisWidth := visibleWidth unicode ellipsis
    if maxWidth ≤ ellipsisWidth then
      let textWidth := visibleWidth unicode text
      if textWidth ≤ maxWidth then if pad then text ++ spaces (maxWidth - textWidth) else text
      else
        let (clipped, width) := truncateFragmentToWidth unicode ellipsis maxWidth
        if width = 0 then if pad then spaces maxWidth else []
        else finalizeTruncatedResult [] 0 clipped width maxWidth pad
    else
      let targetWidth := maxWidth - ellipsisWidth
      if isPrintableAscii text then
        if text.length ≤ maxWidth then if pad then text ++ spaces (maxWidth - text.length) else text
        else finalizeTruncatedResult (text.take targetWidth) targetWidth ellipsis ellipsisWidth maxWidth pad
      else
        let state := truncateTokens unicode targetWidth maxWidth (tabTokens unicode text) {}
        if state.overflowed then
          finalizeTruncatedResult state.result state.keptWidth ellipsis ellipsisWidth maxWidth pad
        else if pad then text ++ spaces (maxWidth - state.visibleSoFar) else text

end Truncation

end PieAgent.Model.Tui.TextWidth
