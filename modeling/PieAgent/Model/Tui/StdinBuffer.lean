import PieAgent.JavaScript.Core.Search
import PieAgent.JavaScript.Core.Strings
import PieAgent.JavaScript.Core.Utf8

/-! # The buffer for terminal input

The buffer collects the chunks of the input and emits complete escape sequences and single code units as data, and what
stands between the markers of a bracketed paste as one paste. What is not complete stays in the buffer.

A chunk is a string, or bytes that are converted to one. The timeout that flushes the buffer is a call of its own.
-/

namespace PieAgent.Model.Tui

open JavaScript Framing

def esc : CodeUnit := 0x1B

def bracketedPasteStart : JsString := esc :: js "[200~"

def bracketedPasteEnd : JsString := esc :: js "[201~"

section Sequences

inductive SequenceStatus where
  | complete
  | incomplete
  | notEscape
deriving DecidableEq

/-- `/^\d+$/` or, when nothing is allowed as well, `/^\d*$/`. -/
def isDigits (text : JsString) : Bool := text.all fun unit => 0x30 ≤ unit && unit ≤ 0x39

/-- The format `<digits;digits;digits`, with `M` or `m` behind it. The source checks it twice, by an expression and by
its parts. -/
def isMouseReport (payload : JsString) : Bool :=
  (payload.getLast? = some 0x4D || payload.getLast? = some 0x6D) &&
    let parts := splitAtAll (js ";") payload.tail.dropLast
    parts.length = 3 && parts.all fun part => part ≠ [] && isDigits part

def isCompleteCsiSequence (data : JsString) : SequenceStatus :=
  if ¬(esc :: js "[") <+: data then .complete
  else if data.length < 3 then .incomplete
  else
    let payload := data.drop 2
    let lastChar := payload.getLastD 0
    if 0x40 ≤ lastChar ∧ lastChar ≤ 0x7E then
      if js "<" <+: payload then if isMouseReport payload then .complete else .incomplete
      else .complete
    else .incomplete

/-- A sequence of the given start that ends with one of the terminators. -/
def isTerminatedSequence (start : JsString) (terminators : List JsString) (data : JsString) : SequenceStatus :=
  if ¬start <+: data then .complete
  else if ∃ terminator ∈ terminators, terminator <:+ data then .complete
  else .incomplete

def isCompleteOscSequence : JsString → SequenceStatus :=
  isTerminatedSequence (esc :: js "]") [esc :: js "\\", [0x07]]

def isCompleteDcsSequence : JsString → SequenceStatus := isTerminatedSequence (esc :: js "P") [esc :: js "\\"]

def isCompleteApcSequence : JsString → SequenceStatus := isTerminatedSequence (esc :: js "_") [esc :: js "\\"]

def isCompleteSequence (data : JsString) : SequenceStatus :=
  if data.head? ≠ some esc then .notEscape
  else if data.length = 1 then .incomplete
  else
    let afterEsc := data.tail
    if js "[" <+: afterEsc then
      if js "[M" <+: afterEsc then if 6 ≤ data.length then .complete else .incomplete
      else isCompleteCsiSequence data
    else if js "]" <+: afterEsc then isCompleteOscSequence data
    else if js "P" <+: afterEsc then isCompleteDcsSequence data
    else if js "_" <+: afterEsc then isCompleteApcSequence data
    else if js "O" <+: afterEsc then if 2 ≤ afterEsc.length then .complete else .incomplete
    else .complete

/-- The characters behind two escapes at which the second one starts a sequence of its own. -/
def introducers : List CodeUnit := js "[]OP_"

/-- The inner loop: the shortest candidate that is complete, and what follows it. -/
def scanSequence (candidate rest : JsString) : Option (JsString × JsString) :=
  match isCompleteSequence candidate with
  | .complete =>
    if candidate = [esc, esc] ∧ ∃ next ∈ rest.head?, next ∈ introducers then some ([esc], esc :: rest)
    else some (candidate, rest)
  | .notEscape => some (candidate, rest)
  | .incomplete =>
    match rest with
    | [] => none
    | unit :: rest => scanSequence (candidate ++ [unit]) rest

def takeSequence? : JsString → Option (JsString × JsString)
  | [] => none
  | unit :: rest => if unit = esc then scanSequence [esc] rest else some ([unit], rest)

/-- The sequences of a buffer, and the remainder. -/
def extractCompleteSequences (buffer : JsString) : List JsString × JsString := frames takeSequence? buffer

/-- `/^\x1b\[(\d+)(?::\d*)?(?::\d+)?u$/`, with a code point of at least 32. -/
def parseUnmodifiedKittyPrintableCodepoint (sequence : JsString) : Option ℕ :=
  if (esc :: js "[") <+: sequence ∧ js "u" <:+ sequence ∧ 3 ≤ sequence.length then
    let parts := splitAtAll (js ":") (sequence.drop 2).dropLast
    let matched := parts.all isDigits && parts.head? ≠ some [] && match parts with
      | [_] | [_, _] => true
      | [_, _, last] => last ≠ []
      | _ => false
    let codepoint := (parts.headD []).foldl (fun value unit => 10 * value + (unit.toNat - 0x30)) 0
    if matched ∧ 32 ≤ codepoint then some codepoint else none
  else none

end Sequences

inductive InputEvent where
  | data (sequence : JsString)
  | paste (content : JsString)
deriving DecidableEq

structure StdinBuffer where
  buffer : JsString := []
  pasteMode : Bool := false
  pasteBuffer : JsString := []
  pendingKittyPrintableCodepoint : Option ℕ := none

namespace StdinBuffer

variable (stdin : StdinBuffer)

/-- A printable key that has been reported by its code point is not emitted a second time. -/
def emitDataSequence (sequence : JsString) : StdinBuffer × List InputEvent :=
  let rawCodepoint : Option ℕ := match sequence with
    | [unit] => some unit.toNat
    | _ => none
  if rawCodepoint.isSome ∧ rawCodepoint = stdin.pendingKittyPrintableCodepoint then
    ({ stdin with pendingKittyPrintableCodepoint := none }, [])
  else
    ({ stdin with pendingKittyPrintableCodepoint := parseUnmodifiedKittyPrintableCodepoint sequence }, [.data sequence])

def emitDataSequences : StdinBuffer → List JsString → StdinBuffer × List InputEvent
  | stdin, [] => (stdin, [])
  | stdin, sequence :: sequences =>
    let (stdin, events) := stdin.emitDataSequence sequence
    let (stdin, more) := stdin.emitDataSequences sequences
    (stdin, events ++ more)

/-- The end of a paste, when it has arrived. What follows it is processed again. -/
def finishPaste (again : StdinBuffer → JsString → StdinBuffer × List InputEvent) : StdinBuffer × List InputEvent :=
  match cut? bracketedPasteEnd stdin.pasteBuffer with
  | none => (stdin, [])
  | some (pastedContent, remaining) =>
    let stdin := { stdin with pasteMode := false, pasteBuffer := [], pendingKittyPrintableCodepoint := none }
    if remaining = [] then (stdin, [.paste pastedContent])
    else
      let (stdin, more) := again stdin remaining
      (stdin, .paste pastedContent :: more)

/-- `process`. More fuel than there is text makes no difference. -/
def processWith : ℕ → StdinBuffer → JsString → StdinBuffer × List InputEvent
  | 0, stdin, _ => (stdin, [])
  | fuel + 1, stdin, str =>
    if str = [] ∧ stdin.buffer = [] then stdin.emitDataSequence []
    else if stdin.pasteMode then
      { stdin with
        pasteBuffer := stdin.pasteBuffer ++ (stdin.buffer ++ str)
        buffer := [] }.finishPaste (processWith fuel)
    else
      match cut? bracketedPasteStart (stdin.buffer ++ str) with
      | some (beforePaste, pasted) =>
        let (stdin, events) := stdin.emitDataSequences (extractCompleteSequences beforePaste).1
        let (stdin, more) := { stdin with
          pendingKittyPrintableCodepoint := none
          pasteMode := true
          pasteBuffer := pasted
          buffer := [] }.finishPaste (processWith fuel)
        (stdin, events ++ more)
      | none =>
        let (sequences, remainder) := extractCompleteSequences (stdin.buffer ++ str)
        { stdin with buffer := remainder }.emitDataSequences sequences

def process (str : JsString) : StdinBuffer × List InputEvent :=
  processWith (stdin.buffer.length + stdin.pasteBuffer.length + str.length + 1) stdin str

/-- The conversion of bytes. A single byte above 127 becomes an escape sequence. -/
def ofBytes : List UInt8 → JsString
  | [byte] => if 127 < byte then [esc, UInt16.ofNat (byte.toNat - 128)] else ofText (decodeUtf8 [byte])
  | bytes => ofText (decodeUtf8 bytes)

/-- `flush`, with what it returns. -/
def flush : StdinBuffer × List JsString :=
  if stdin.buffer = [] then (stdin, [])
  else ({ stdin with buffer := [], pendingKittyPrintableCodepoint := none }, [stdin.buffer])

/-- The callback of the timeout. -/
def expire : StdinBuffer × List InputEvent := stdin.flush.1.emitDataSequences stdin.flush.2

def processAll : StdinBuffer → List JsString → StdinBuffer × List InputEvent
  | stdin, [] => (stdin, [])
  | stdin, chunk :: chunks =>
    let (stdin, events) := stdin.process chunk
    let (stdin, more) := stdin.processAll chunks
    (stdin, events ++ more)

end StdinBuffer

end PieAgent.Model.Tui
