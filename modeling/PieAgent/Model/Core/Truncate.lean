import PieAgent.JavaScript.Core.Strings

/-! # Truncation of tool outputs

Output is cut to whole lines within a limit of lines and a limit of bytes, from the head or from the tail. The last line
of the tail is cut itself when it alone exceeds the limit of bytes.
-/

namespace PieAgent.Model.Truncate

open JavaScript

def DEFAULT_MAX_LINES : ℕ := 2000

def DEFAULT_MAX_BYTES : ℕ := 50 * 1024

inductive Limit where
  | lines
  | bytes
deriving DecidableEq

structure TruncationResult where
  content : JsString
  truncated : Bool
  truncatedBy : Option Limit
  totalLines : ℕ
  totalBytes : ℕ
  outputLines : ℕ
  outputBytes : ℕ
  lastLinePartial : Bool
  firstLineExceedsLimit : Bool
  maxLines : ℕ
  maxBytes : ℕ

structure TruncationOptions where
  maxLines : Option ℕ
  maxBytes : Option ℕ

def TruncationOptions.lineLimit (options : TruncationOptions) : ℕ := options.maxLines.getD DEFAULT_MAX_LINES

def TruncationOptions.byteLimit (options : TruncationOptions) : ℕ := options.maxBytes.getD DEFAULT_MAX_BYTES

/-- The bytes of a code unit that is no part of a surrogate pair. -/
def unitBytes (code : CodeUnit) : ℕ := if code ≤ 0x7F then 1 else if code ≤ 0x7FF then 2 else 3

def utf8ByteLength : JsString → ℕ
  | [] => 0
  | [code] => unitBytes code
  | code :: next :: rest =>
    if isHighSurrogate code && isLowSurrogate next then 4 + utf8ByteLength rest
    else unitBytes code + utf8ByteLength (next :: rest)

/-- `"\uFFFD"`. -/
def replacement : JsString := [0xFFFD]

def replaceUnpairedSurrogates : JsString → JsString
  | [] => []
  | [code] => if isHighSurrogate code || isLowSurrogate code then replacement else [code]
  | code :: next :: rest =>
    if isHighSurrogate code && isLowSurrogate next then code :: next :: replaceUnpairedSurrogates rest
    else if isHighSurrogate code || isLowSurrogate code then replacement ++ replaceUnpairedSurrogates (next :: rest)
    else code :: replaceUnpairedSurrogates (next :: rest)

/-- `content.split("\n")`. -/
def splitLines (content : JsString) : List JsString := content.splitOn 0x0A

/-- The result when both limits hold. -/
def untruncated (content : JsString) (totalLines maxLines maxBytes : ℕ) : TruncationResult where
  content
  truncated := false
  truncatedBy := none
  totalLines
  totalBytes := utf8ByteLength content
  outputLines := totalLines
  outputBytes := utf8ByteLength content
  lastLinePartial := false
  firstLineExceedsLimit := false
  maxLines
  maxBytes

/-- The loop of `truncateHead` over the lines up to the limit: the lines that fit, their bytes, and what ended it. -/
def collectHead (maxBytes : ℕ) : List JsString → List JsString → ℕ → List JsString × ℕ × Limit
  | [], outputLinesArr, outputBytesCount => (outputLinesArr, outputBytesCount, .lines)
  | line :: rest, outputLinesArr, outputBytesCount =>
    let lineBytes := utf8ByteLength line + (if 0 < outputLinesArr.length then 1 else 0)
    if maxBytes < outputBytesCount + lineBytes then (outputLinesArr, outputBytesCount, .bytes)
    else collectHead maxBytes rest (outputLinesArr ++ [line]) (outputBytesCount + lineBytes)

def truncateHead (content : JsString) (options : TruncationOptions) : TruncationResult :=
  let maxLines := options.lineLimit
  let maxBytes := options.byteLimit
  let totalBytes := utf8ByteLength content
  let lines := splitLines content
  let totalLines := lines.length
  if totalLines ≤ maxLines ∧ totalBytes ≤ maxBytes then untruncated content totalLines maxLines maxBytes
  else if maxBytes < utf8ByteLength (lines.headD []) then
    { content := [], truncated := true, truncatedBy := some .bytes, totalLines, totalBytes, outputLines := 0
      outputBytes := 0, lastLinePartial := false, firstLineExceedsLimit := true, maxLines, maxBytes }
  else
    let (outputLinesArr, outputBytesCount, limit) := collectHead maxBytes (lines.take maxLines) [] 0
    let truncatedBy := if maxLines ≤ outputLinesArr.length ∧ outputBytesCount ≤ maxBytes then .lines else limit
    let outputContent := join (js "\n") outputLinesArr
    { content := outputContent, truncated := true, truncatedBy := some truncatedBy, totalLines, totalBytes
      outputLines := outputLinesArr.length, outputBytes := utf8ByteLength outputContent, lastLinePartial := false
      firstLineExceedsLimit := false, maxLines, maxBytes }

/-- The loop of `truncateStringToBytesFromEnd` over the code units before `i`, the last one first: the characters that
fit, and whether one of them is a lone surrogate. -/
def takeFromEnd (maxBytes : ℕ) : List CodeUnit → ℕ → JsString → Bool → JsString × Bool
  | [], _, output, needsReplacement => (output, needsReplacement)
  | [code], outputBytes, output, needsReplacement =>
    if maxBytes < outputBytes + unitBytes code then (output, needsReplacement)
    else (code :: output, needsReplacement || isHighSurrogate code || isLowSurrogate code)
  | code :: previous :: rest, outputBytes, output, needsReplacement =>
    if isLowSurrogate code && isHighSurrogate previous then
      if maxBytes < outputBytes + 4 then (output, needsReplacement)
      else takeFromEnd maxBytes rest (outputBytes + 4) (previous :: code :: output) needsReplacement
    else
      if maxBytes < outputBytes + unitBytes code then (output, needsReplacement)
      else takeFromEnd maxBytes (previous :: rest) (outputBytes + unitBytes code) (code :: output)
        (needsReplacement || isHighSurrogate code || isLowSurrogate code)

def truncateStringToBytesFromEnd (str : JsString) (maxBytes : ℕ) : JsString :=
  if maxBytes = 0 then []
  else
    let (output, needsReplacement) := takeFromEnd maxBytes str.reverse 0 [] false
    if needsReplacement then replaceUnpairedSurrogates output else output

/-- The variables of `truncateTail` after its loop. -/
structure TailState where
  outputLinesArr : List JsString
  outputBytesCount : ℕ
  truncatedBy : Limit
  lastLinePartial : Bool

/-- The loop of `truncateTail` over the lines, the last one first. -/
def collectTail (maxLines maxBytes : ℕ) : List JsString → List JsString → ℕ → TailState
  | [], outputLinesArr, outputBytesCount => ⟨outputLinesArr, outputBytesCount, .lines, false⟩
  | line :: rest, outputLinesArr, outputBytesCount =>
    if outputLinesArr.length < maxLines then
      let lineBytes := utf8ByteLength line + (if 0 < outputLinesArr.length then 1 else 0)
      if maxBytes < outputBytesCount + lineBytes then
        if outputLinesArr.length = 0 then
          let truncatedLine := truncateStringToBytesFromEnd line maxBytes
          ⟨truncatedLine :: outputLinesArr, utf8ByteLength truncatedLine, .bytes, true⟩
        else ⟨outputLinesArr, outputBytesCount, .bytes, false⟩
      else collectTail maxLines maxBytes rest (line :: outputLinesArr) (outputBytesCount + lineBytes)
    else ⟨outputLinesArr, outputBytesCount, .lines, false⟩

/-- The lines of `truncateTail`: a final line feed starts no line. -/
def tailLines (content : JsString) : List JsString :=
  let lines := splitLines content
  if 1 < lines.length ∧ lines.getLastD [] = [] then lines.dropLast else lines

def truncateTail (content : JsString) (options : TruncationOptions) : TruncationResult :=
  let maxLines := options.lineLimit
  let maxBytes := options.byteLimit
  let totalBytes := utf8ByteLength content
  let lines := tailLines content
  let totalLines := lines.length
  if totalLines ≤ maxLines ∧ totalBytes ≤ maxBytes then untruncated content totalLines maxLines maxBytes
  else
    let state := collectTail maxLines maxBytes lines.reverse [] 0
    let truncatedBy :=
      if maxLines ≤ state.outputLinesArr.length ∧ state.outputBytesCount ≤ maxBytes then .lines else state.truncatedBy
    let outputContent := join (js "\n") state.outputLinesArr
    { content := outputContent, truncated := true, truncatedBy := some truncatedBy, totalLines, totalBytes
      outputLines := state.outputLinesArr.length, outputBytes := utf8ByteLength outputContent
      lastLinePartial := state.lastLinePartial, firstLineExceedsLimit := false, maxLines, maxBytes }

end PieAgent.Model.Truncate
