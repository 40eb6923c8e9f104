import PieAgent.Model.Core.Truncate

/-! # The read tool

A slice of the lines of a text is cut to the limits of lines and of bytes. The line numbers of what is shown stand in front
of it, so that the reader knows which offset to ask for next.

Images and the errors of the file system are left out.
-/

namespace PieAgent.Model.ReadTool

open JavaScript Truncate

def DEFAULT_MAX_LINES : ℕ := 2000

def DEFAULT_MAX_BYTES : ℕ := 256 * 1024

/-- The lines of a text from the start of one of them on, each with its line feed. -/
def splitLinesFrom (start : JsString) : JsString → List JsString
  | [] => if start = [] then [] else [start]
  | code :: rest =>
    if code = 0x0A then (start ++ [code]) :: splitLinesFrom [] rest else splitLinesFrom (start ++ [code]) rest

/-- No line follows the last line feed. -/
def splitLinesInclusive (text : JsString) : List JsString := splitLinesFrom [] text

structure InclusiveTruncation where
  content : JsString
  totalLines : ℕ
  keptLines : ℕ
  truncatedLines : ℕ
  totalBytes : ℕ
  keptBytes : ℕ

/-- The lines that are kept: a line that does not fit is passed over. -/
def keepLines (maxLines maxBytes : ℕ) : List JsString → List JsString → ℕ → List JsString × ℕ
  | [], out, keptBytes => (out, keptBytes)
  | line :: rest, out, keptBytes =>
    if out.length < maxLines ∧ keptBytes + utf8ByteLength line ≤ maxBytes then
      keepLines maxLines maxBytes rest (out ++ [line]) (keptBytes + utf8ByteLength line)
    else keepLines maxLines maxBytes rest out keptBytes

def truncateHeadInclusive (text : JsString) (maxLines maxBytes : ℕ) : InclusiveTruncation :=
  let lines := splitLinesInclusive text
  let (out, keptBytes) := keepLines maxLines maxBytes lines [] 0
  { content := out.flatten
    totalLines := lines.length
    keptLines := out.length
    truncatedLines := lines.length - out.length
    totalBytes := utf8ByteLength text
    keptBytes }

def formatInclusiveTruncationNote (trunc : InclusiveTruncation) : Option JsString :=
  if trunc.truncatedLines = 0 then none
  else some (js "[truncated: kept " ++ digits trunc.keptLines ++ js "/" ++ digits trunc.totalLines ++ js " lines, " ++
    digits trunc.keptBytes ++ js " of " ++ digits trunc.totalBytes ++ js " bytes]")

/-- An argument that is no integer from 0 on counts as absent. -/
def asU64 (value : Option JsNumber) : Option ℕ := value.bind JsNumber.natural?

/-- The lines that are taken, and how many were looked at. -/
def takeLines (skip limit : ℕ) : List JsString → List JsString → ℕ → List JsString × ℕ
  | [], takenLines, totalLines => (takenLines, totalLines)
  | line :: rest, takenLines, totalLines =>
    if totalLines + 1 ≤ skip then takeLines skip limit rest takenLines (totalLines + 1)
    else if limit ≤ takenLines.length then (takenLines, totalLines + 1)
    else takeLines skip limit rest (takenLines ++ [line]) (totalLines + 1)

structure ReadToolDetails where
  path : JsString
  totalLines : ℕ
  keptLines : ℕ
  offset : ℕ

structure OracleRead where
  text : JsString
  details : ReadToolDetails

/-- The header over the lines from `first` to `last`. -/
def header (rawPath : JsString) (first last : ℕ) : JsString :=
  js "[" ++ rawPath ++ js "] lines " ++ digits first ++ js "-" ++ digits last ++ js "\n"

/-- The note with its line feed. -/
def noteLine (trunc : InclusiveTruncation) : JsString :=
  match formatInclusiveTruncationNote trunc with
  | none => []
  | some note => note ++ js "\n"

def lineOffset (offsetArg : Option JsNumber) : ℕ := (asU64 offsetArg).getD 1

def lineLimit (limitArg : Option JsNumber) : ℕ := (asU64 limitArg).getD DEFAULT_MAX_LINES

/-- The lines of a read before the limit of bytes, and how many lines were looked at. -/
def slice (raw : JsString) (skip limit : ℕ) : List JsString × ℕ := takeLines skip limit (splitLinesInclusive raw) [] 0

/-- What a read shows of a text. -/
def shownSlice (raw : JsString) (skip limit : ℕ) : InclusiveTruncation :=
  truncateHeadInclusive (slice raw skip limit).1.flatten limit DEFAULT_MAX_BYTES

def readOracleText (rawPath raw : JsString) (offsetArg limitArg : Option JsNumber) : OracleRead :=
  let offset := lineOffset offsetArg
  let limit := lineLimit limitArg
  let skip := offset - 1
  let trunc := shownSlice raw skip limit
  { text := header rawPath (skip + 1) (skip + trunc.keptLines) ++ noteLine trunc ++ trunc.content
    details := { path := rawPath, totalLines := (slice raw skip limit).2, keptLines := trunc.keptLines, offset } }

end PieAgent.Model.ReadTool
