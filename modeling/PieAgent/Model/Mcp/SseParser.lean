import PieAgent.Framing.Core.Frames
import PieAgent.JavaScript.Core.Strings
import PieAgent.JavaScript.Core.Utf8

/-! # The event parser of the HTTP transport

`SseParser` keeps the text of the event that has not ended and counts its bytes. A chunk is decoded on its
own; whenever the buffer holds two line feeds in a row, the text before them is an event. A chunk that
would take the count over the cap is refused before it is decoded.

Texts are lists of characters: what the parser compares and cuts at is ASCII.
-/

namespace PieAgent.Model.Mcp

open JavaScript Framing

abbrev Line := List Char

structure SseEvent where
  id : Option Line
  data : Option Line
deriving DecidableEq

def trimStart (text : Line) : Line := text.dropWhile fun c => isWhitespace c.toNat

/-- The line without the carriage return at its end. -/
def dropReturn (rawLine : Line) : Line := if rawLine.getLast? = some '\r' then rawLine.dropLast else rawLine

/-- What a line gives an event: the variables `id` and `dataLines` after it. -/
def readField (fields : Option Line × List Line) (line : Line) : Option Line × List Line :=
  if line = [] ∨ line.head? = some ':' then fields
  else if "id:".toList.isPrefixOf line then (some (trimStart (line.drop 3)), fields.2)
  else if "data:".toList.isPrefixOf line then (fields.1, fields.2 ++ [trimStart (line.drop 5)])
  else fields

/-- The event of some lines. -/
def readEvent? (lines : List Line) : Option SseEvent :=
  let (id, dataLines) := lines.foldl readField (none, [])
  if id = none ∧ dataLines = [] then none
  else some { id, data := if dataLines = [] then none else some (['\n'].intercalate dataLines) }

def parseSseEvent (raw : Line) : Option SseEvent := readEvent? ((raw.splitOn '\n').map dropReturn)

structure SseParser where
  capBytes : ℤ
  buffer : Line := []
  bufferBytes : ℤ := 0

/-- The buffer before and after its first two line feeds in a row. -/
def takeEvent? : Line → Option (Line × Line)
  | '\n' :: '\n' :: rest => some ([], rest)
  | c :: rest => (takeEvent? rest).map fun (raw, rest) => (c :: raw, rest)
  | [] => none

def utf8ByteLength (text : Line) : ℕ := (encodeUtf8 text).length

/-- The loop of `push`: an iteration takes two characters at least, so the length of the buffer is fuel enough. -/
def SseParser.takeEvents : ℕ → SseParser → List SseEvent → SseParser × List SseEvent
  | 0, parser, out => (parser, out)
  | fuel + 1, parser, out =>
    match takeEvent? parser.buffer with
    | none => (parser, out)
    | some (raw, buffer) =>
      takeEvents fuel
        { parser with buffer, bufferBytes := parser.bufferBytes - utf8ByteLength (raw ++ ['\n', '\n']) }
        (out ++ (parseSseEvent raw).toList)

/-- `decodeUtf8Strict`. -/
def decodeUtf8Strict (bytes : List UInt8) : Except JsString Line :=
  match decodeFatal? bytes with
  | some text => .ok text
  | none => .error (js "utf8: The encoded data was not valid for encoding utf-8")

def SseParser.push (parser : SseParser) (chunk : List UInt8) : Except JsString (SseParser × List SseEvent) :=
  if parser.capBytes < parser.bufferBytes + chunk.length then .error (js "MCP HTTP SSE frame exceeded cap")
  else do
    let text ← decodeUtf8Strict chunk
    let buffer := parser.buffer ++ text
    return takeEvents buffer.length { parser with buffer, bufferBytes := parser.bufferBytes + chunk.length } []

/-- The chunks of a response body one after another, up to the first error. -/
def SseParser.pushAll (parser : SseParser) : List (List UInt8) → Except JsString (SseParser × List SseEvent)
  | [] => .ok (parser, [])
  | chunk :: chunks => do
    let (parser, events) ← parser.push chunk
    let (parser, more) ← pushAll parser chunks
    return (parser, events ++ more)

end PieAgent.Model.Mcp
