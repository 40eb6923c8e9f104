import PieAgent.JavaScript.Core.Strings
import PieAgent.JavaScript.Core.Utf8

/-! # Server-sent events of a response body

`iterateSseMessages` decodes the chunks of a body as they arrive, takes the lines that have ended off the
buffer, and gives an event at every empty line behind a field. When the body has ended, the rest of the buffer
is a line, and a last event needs no empty line. A line may end in LF, CR or CR LF.

Texts are lists of characters: what the reader compares and cuts at is ASCII.
-/

namespace PieAgent.Model.Providers

open JavaScript

abbrev Line := List Char

structure ServerSentEvent where
  event : Option Line
  data : Line
  raw : List Line

structure SseDecoderState where
  event : Option Line := none
  data : List Line := []
  raw : List Line := []

/-- An event type, not the empty one, or data has been read. -/
def SseDecoderState.pending (state : SseDecoderState) : Bool :=
  (state.event.any fun event => !event.isEmpty) || !state.data.isEmpty

def flushSseEvent (state : SseDecoderState) : Option ServerSentEvent × SseDecoderState :=
  if state.pending then
    (some { event := state.event, data := ['\n'].intercalate state.data, raw := state.raw }, {})
  else (none, state)

/-- The name of a field, and its value without a space in front. -/
def splitField (line : Line) : Line × Line :=
  let value := (line.dropWhile (· ≠ ':')).drop 1
  (line.takeWhile (· ≠ ':'), if value.head? = some ' ' then value.drop 1 else value)

def decodeSseLine (line : Line) (state : SseDecoderState) : Option ServerSentEvent × SseDecoderState :=
  if line = [] then flushSseEvent state
  else
    let state := { state with raw := state.raw ++ [line] }
    if line.head? = some ':' then (none, state)
    else
      let (fieldName, value) := splitField line
      if fieldName = "event".toList then (none, { state with event := some value })
      else if fieldName = "data".toList then (none, { state with data := state.data ++ [value] })
      else (none, state)

/-- The text before and behind the first line end. A CR at the end of the text is a line end. -/
def consumeLine : Line → Option (Line × Line)
  | [] => none
  | '\n' :: rest => some ([], rest)
  | '\r' :: '\n' :: rest => some ([], rest)
  | '\r' :: rest => some ([], rest)
  | c :: rest => (consumeLine rest).map fun (line, rest) => (c :: line, rest)

structure SseReader where
  decoder : TextDecoder := {}
  state : SseDecoderState := {}
  buffer : Line := []

/-- The loop over the lines of the buffer: an iteration takes a character at least, so the length of the buffer is
fuel enough. -/
def SseReader.consumeLines : ℕ → SseReader → List ServerSentEvent × SseReader
  | 0, reader => ([], reader)
  | fuel + 1, reader =>
    match consumeLine reader.buffer with
    | none => ([], reader)
    | some (line, rest) =>
      let (event, state) := decodeSseLine line reader.state
      let (events, reader) := consumeLines fuel { reader with buffer := rest, state }
      (event.toList ++ events, reader)

/-- A text joins the buffer. -/
def SseReader.readText (reader : SseReader) (text : Line) : List ServerSentEvent × SseReader :=
  SseReader.consumeLines (reader.buffer ++ text).length { reader with buffer := reader.buffer ++ text }

def SseReader.readChunk (reader : SseReader) (chunk : List UInt8) : List ServerSentEvent × SseReader :=
  let (text, decoder) := reader.decoder.decode chunk
  { reader with decoder }.readText text

/-- The end of the body. -/
def SseReader.finish (reader : SseReader) : List ServerSentEvent :=
  let (events, reader) := reader.readText reader.decoder.flush
  let (event, state) := if reader.buffer = [] then (none, reader.state) else decodeSseLine reader.buffer reader.state
  events ++ event.toList ++ (flushSseEvent state).1.toList

/-- How a body ends: the last read says that it is done, or `reader.read` or the check of the signal before it throws. -/
inductive BodyEnd where
  | done
  | throws (error : JsString)

/-- The events of a body, and the error that ends them. -/
def SseReader.readBody (reader : SseReader) (bodyEnd : BodyEnd) :
    List (List UInt8) → List ServerSentEvent × Option JsString
  | [] =>
    match bodyEnd with
    | .done => (reader.finish, none)
    | .throws error => ([], some error)
  | chunk :: chunks =>
    let (events, reader) := reader.readChunk chunk
    let (more, error) := reader.readBody bodyEnd chunks
    (events ++ more, error)

def iterateSseMessages (chunks : List (List UInt8)) (bodyEnd : BodyEnd) : List ServerSentEvent × Option JsString :=
  ({} : SseReader).readBody bodyEnd chunks

end PieAgent.Model.Providers
