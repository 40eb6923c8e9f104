import Mathlib.Data.List.DropRight
import PieAgent.JavaScript.Core.JsonParse
import PieAgent.JavaScript.Core.Utf8

/-! # The read pump of the language server client

`FramedReader` buffers the bytes that arrive. `readLine` and `readExact` check the buffer for what they need and
otherwise call `waitForData`, which waits for the next chunk when the buffer is empty and returns at once when it
is not. `readFramed` reads header lines up to an empty one and then a body, and the pump reads frames until
one fails or the stream ends.

A step of the pump is what it does between two microtasks: one check of the buffer. What the pump does with a
frame never waits and changes nothing that it reads, and is left out.
-/

namespace PieAgent.Model.Lsp

open JavaScript

/-- Where the pump is: in the header of a frame with the length read so far, in its body, or at its end. -/
inductive ReadPoint where
  | readLine (contentLength : Option ℕ)
  | readExact (contentLength : ℕ)
  | ended
deriving DecidableEq

/-- The reader and the pump. `waiting` says that the pump waits for the `dataAvailable` signal. -/
structure ReadPump where
  buffer : List UInt8 := []
  closed : Bool := false
  point : ReadPoint := .readLine none
  waiting : Bool := false
  values : List Json := []
deriving DecidableEq

/-- `line.replace(/[\r\n]+$/, "")`. -/
def trimLineEnd (line : List Char) : List Char := line.rdropWhile fun c => c == '\r' || c == '\n'

/-- `Number(rest)` of a text that holds digits only, absent for others. -/
def decimal? (text : List Char) : Option ℕ :=
  if text ≠ [] ∧ text.all Char.isDigit then some (Nat.ofDigitChars 10 text 0) else none

def contentLengthPrefix : List Char := "Content-Length: ".toList

/-- A header line: an empty one ends the header. -/
def readHeaderLine (contentLength : Option ℕ) (line : List UInt8) : ReadPoint :=
  let trimmed := trimLineEnd (decodeUtf8 line)
  if trimmed = [] then
    match contentLength with
    | none => .ended
    | some contentLength => .readExact contentLength
  else if contentLengthPrefix.isPrefixOf trimmed then
    .readLine (decimal? (trimmed.drop contentLengthPrefix.length))
  else .readLine contentLength

/-- The bytes in front of the first LF and behind it. -/
def takeLine? (buffer : List UInt8) : Option (List UInt8 × List UInt8) :=
  if 10 ∈ buffer then some (buffer.takeWhile (· != 10), (buffer.dropWhile (· != 10)).drop 1) else none

/-- A pump that is not closed goes on at once when there is something in the buffer. -/
def ReadPump.waitForData (pump : ReadPump) : ReadPump := { pump with waiting := pump.buffer.isEmpty }

def ReadPump.step? (pump : ReadPump) : Option ReadPump :=
  if pump.waiting then none
  else match pump.point with
    | .ended => none
    | .readLine contentLength =>
      match takeLine? pump.buffer with
      | some (line, buffer) => some { pump with buffer, point := readHeaderLine contentLength line }
      | none =>
        if pump.closed then
          if pump.buffer = [] then some { pump with point := .ended }
          else some { pump with buffer := [], point := readHeaderLine contentLength pump.buffer }
        else some pump.waitForData
    | .readExact contentLength =>
      if pump.buffer.length < contentLength then
        if pump.closed then some { pump with point := .ended } else some pump.waitForData
      else
        let buffer := pump.buffer.drop contentLength
        match parse? (decodeUtf8 (pump.buffer.take contentLength)) with
        | some value => some { pump with buffer, point := .readLine none, values := pump.values ++ [value] }
        | none => some { pump with buffer, point := .ended }

/-- A `data` event of the stream. -/
def ReadPump.data (pump : ReadPump) (chunk : List UInt8) : ReadPump :=
  { pump with buffer := pump.buffer ++ chunk, waiting := false }

/-- An `end`, `close` or `error` event of the stream. -/
def ReadPump.close (pump : ReadPump) : ReadPump := { pump with closed := true, waiting := false }

end PieAgent.Model.Lsp
