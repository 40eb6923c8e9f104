import PieAgent.Framing.Core.Frames
import PieAgent.Model.Providers.AnthropicSse

/-! # Events of an answer that arrives in chunks

A CR at the end of the buffer ends a line before the reader can know whether an LF follows. When a chunk ends
between the CR and the LF of one line end, the LF ends a second, empty line. Where an event has been read that far
and goes on, the empty line cuts it in two, and nothing else in a body depends on the chunks.
-/

namespace PieAgent.Soundness

open JavaScript Framing Model.Providers

/-- The characters of a piece of text, each with whether the piece ends behind it. -/
def flagPiece : Line → List (Char × Bool)
  | [] => []
  | c :: text => (c, text.isEmpty) :: flagPiece text

/-- The lines of a text in pieces and what stands behind the last, each line with whether a piece ends between the CR
and the LF at its end. -/
def cutLines : Line → List (Char × Bool) → List (Line × Bool) × Line
  | line, [] => ([], line)
  | line, ('\n', _) :: text => ((line, false) :: (cutLines [] text).1, (cutLines [] text).2)
  | line, ('\r', cut) :: ('\n', _) :: text => ((line, cut) :: (cutLines [] text).1, (cutLines [] text).2)
  | line, ('\r', _) :: text => ((line, false) :: (cutLines [] text).1, (cutLines [] text).2)
  | line, (c, _) :: text => cutLines (line ++ [c]) text

/-- The lines of the pieces of text that a body in chunks gives. -/
def bodyLines (chunks : List (List UInt8)) : List (Line × Bool) × Line :=
  cutLines [] ((({} : TextDecoder).pieces chunks).flatMap flagPiece)

/-- Behind a line an event is pending, and what comes next is not empty. -/
def GoesOn (state : SseDecoderState) (lines : List (Line × Bool)) (tail : Line) : Prop :=
  state.pending ∧ (lines.head?.map (·.1)).getD tail ≠ []

instance (state : SseDecoderState) (lines : List (Line × Bool)) (tail : Line) : Decidable (GoesOn state lines tail) :=
  inferInstanceAs (Decidable (_ ∧ _))

/-- For every line behind which an event goes on, whether a piece ends inside of its line end. -/
def openCuts : SseDecoderState → List (Line × Bool) → Line → List Bool
  | _, [], _ => []
  | state, (line, cut) :: lines, tail =>
    let state := (decodeSseLine line state).2
    if GoesOn state lines tail then cut :: openCuts (if cut then (flushSseEvent state).2 else state) lines tail
    else openCuts state lines tail

def chunkCuts (chunks : List (List UInt8)) : List Bool := openCuts {} (bodyLines chunks).1 (bodyLines chunks).2

section Lines

variable {c : Char} {text rest line tail : Line} {flagged other : List (Char × Bool)} {chunks : List (List UInt8)}

private theorem consumeLine_lf (text : Line) : consumeLine ('\n' :: text) = some ([], text) := rfl

private theorem consumeLine_crlf (text : Line) : consumeLine ('\r' :: '\n' :: text) = some ([], text) := rfl

private theorem consumeLine_cr (apart : text.head? ≠ some '\n') : consumeLine ('\r' :: text) = some ([], text) := by
  cases text with
  | nil => rfl
  | cons c text =>
    rw [consumeLine]
    rintro rest same
    exact apart (congrArg List.head? same)

private theorem consumeLine_other (notLf : c ≠ '\n') (notCr : c ≠ '\r') :
    consumeLine (c :: text) = (consumeLine text).map fun (line, rest) => (c :: line, rest) := by
  rw [consumeLine] <;> simp_all

private theorem consumeLine_cons_none (unended : consumeLine (c :: text) = none) :
    c ≠ '\n' ∧ c ≠ '\r' ∧ consumeLine text = none := by
  have notLf : c ≠ '\n' := by
    rintro rfl
    cases unended
  have notCr : c ≠ '\r' := by
    rintro rfl
    by_cases joined : text.head? = some '\n'
    · obtain ⟨rest, rfl⟩ := List.head?_eq_some_iff.mp joined
      cases unended
    · rw [consumeLine_cr joined] at unended
      cases unended
  refine ⟨notLf, notCr, ?_⟩
  rwa [consumeLine_other notLf notCr, Option.map_eq_none_iff] at unended

private theorem consumeLine_shortens : Shortens consumeLine where
  shorter {text line rest} taken := by
    induction text generalizing line with
    | nil => cases taken
    | cons c text ih =>
      by_cases lf : c = '\n'
      · subst lf
        cases taken
        exact Nat.lt_succ_self _
      by_cases cr : c = '\r'
      · subst cr
        by_cases joined : text.head? = some '\n'
        · obtain ⟨more, rfl⟩ := List.head?_eq_some_iff.mp joined
          cases taken
          exact Nat.lt_add_of_pos_right Nat.two_pos
        · rw [consumeLine_cr joined] at taken
          cases taken
          exact Nat.lt_succ_self _
      · rw [consumeLine_other lf cr] at taken
        obtain ⟨found, some_, same⟩ := Option.map_eq_some_iff.mp taken
        cases same
        exact Nat.lt_succ_of_lt (ih some_)

/-- A text without a line end in front makes the first line longer. -/
private theorem consumeLine_append (unended : consumeLine line = none) (text : Line) :
    consumeLine (line ++ text) = (consumeLine text).map fun (first, rest) => (line ++ first, rest) := by
  induction line with
  | nil => simp
  | cons c line ih =>
    obtain ⟨notLf, notCr, others⟩ := consumeLine_cons_none unended
    rw [List.cons_append, consumeLine_other notLf notCr, ih others, Option.map_map]
    rfl

private theorem consumeLine_concat (unended : consumeLine line = none) (notLf : c ≠ '\n') (notCr : c ≠ '\r') :
    consumeLine (line ++ [c]) = none := by
  rw [consumeLine_append unended, consumeLine_other notLf notCr]
  rfl

private theorem cutLines_lf (line : Line) (cut : Bool) (flagged : List (Char × Bool)) :
    cutLines line (('\n', cut) :: flagged) = ((line, false) :: (cutLines [] flagged).1, (cutLines [] flagged).2) := rfl

private theorem cutLines_crlf (line : Line) (cut next : Bool) (flagged : List (Char × Bool)) :
    cutLines line (('\r', cut) :: ('\n', next) :: flagged) =
      ((line, cut) :: (cutLines [] flagged).1, (cutLines [] flagged).2) := rfl

private theorem cutLines_cr (apart : (flagged.map (·.1)).head? ≠ some '\n') (line : Line) (cut : Bool) :
    cutLines line (('\r', cut) :: flagged) = ((line, false) :: (cutLines [] flagged).1, (cutLines [] flagged).2) := by
  rw [cutLines]
  rintro next more rfl
  exact apart rfl

private theorem cutLines_other (notLf : c ≠ '\n') (notCr : c ≠ '\r') (line : Line) (cut : Bool) :
    cutLines line ((c, cut) :: flagged) = cutLines (line ++ [c]) flagged := by
  rw [cutLines] <;> simp_all

private theorem frames_line (taken : consumeLine text = some (line, rest)) : frames consumeLine text =
    (line :: (frames consumeLine rest).1, (frames consumeLine rest).2) :=
  frames_of_some consumeLine_shortens taken

private theorem consumeLine_append_some (unended : consumeLine line = none) (taken : consumeLine text = some ([], rest)) :
    consumeLine (line ++ text) = some (line, rest) := by
  rw [consumeLine_append unended, taken, Option.map_some]
  dsimp only
  rw [List.append_nil]

/-- The lines of a text do not depend on its pieces. -/
private theorem cutLines_eq (unended : consumeLine line = none) :
    ((cutLines line flagged).1.map (·.1), (cutLines line flagged).2) =
      frames consumeLine (line ++ flagged.map (·.1)) := by
  induction size : flagged.length using Nat.strongRecOn generalizing line flagged with
  | _ size ih =>
    cases flagged with
    | nil => rw [List.map_nil, List.append_nil, frames_of_none unended]; rfl
    | cons first flagged =>
      obtain ⟨c, cut⟩ := first
      have next {front : Line} (unended : consumeLine front = none) :=
        @ih flagged.length (by simp [← size]) front flagged unended rfl
      have fresh : _ = frames consumeLine (flagged.map (·.1)) := @next [] rfl
      rw [List.map_cons]
      by_cases lf : c = '\n'
      · subst lf
        rw [cutLines_lf, frames_line (consumeLine_append_some unended (consumeLine_lf _)), ← fresh]
        rfl
      by_cases cr : c = '\r'
      · subst cr
        by_cases joined : (flagged.map (·.1)).head? = some '\n'
        · obtain ⟨⟨c', cut'⟩, more, rfl⟩ : ∃ first more, flagged = first :: more := by
            cases flagged with
            | nil => cases joined
            | cons first more => exact ⟨first, more, rfl⟩
          obtain rfl : c' = '\n' := Option.some.inj joined
          have after : _ = frames consumeLine (more.map (·.1)) := @ih more.length (by simp only [← size, List.length_cons]; omega) [] more rfl rfl
          show _ = frames consumeLine (line ++ '\r' :: '\n' :: more.map (·.1))
          rw [cutLines_crlf, frames_line (consumeLine_append_some unended (consumeLine_crlf _)), ← after]
          rfl
        · rw [cutLines_cr joined, frames_line (consumeLine_append_some unended (consumeLine_cr joined)), ← fresh]
          rfl
      · rw [cutLines_other lf cr, next (consumeLine_concat unended lf cr), List.append_assoc]
        rfl

private theorem cutLines_congr {line : Line} (unended : consumeLine line = none)
    (same : flagged.map (·.1) = other.map (·.1)) :
    (cutLines line flagged).1.map (·.1) = (cutLines line other).1.map (·.1) ∧
      (cutLines line flagged).2 = (cutLines line other).2 := by
  have whole := @cutLines_eq line flagged unended
  rw [same, ← @cutLines_eq line other unended] at whole
  exact Prod.mk.inj whole

/-- The lines as the reader takes them: a line end that a piece ends inside of is two. -/
def takenLines (lines : List (Line × Bool)) : List Line :=
  lines.flatMap fun (line, cut) => if cut then [line, []] else [line]

/-- A reader that has a text without a line end in its buffer and reads a piece. -/
private theorem takenLines_piece (unended : consumeLine line = none) (text : Line) (flagged : List (Char × Bool)) :
    takenLines (cutLines line (flagPiece text ++ flagged)).1 = (frames consumeLine (line ++ text)).1 ++
        takenLines (cutLines (frames consumeLine (line ++ text)).2 flagged).1 ∧
      (cutLines line (flagPiece text ++ flagged)).2 =
        (cutLines (frames consumeLine (line ++ text)).2 flagged).2 := by
  induction size : text.length using Nat.strongRecOn generalizing line text with
  | _ size ih =>
    cases text with
    | nil =>
      rw [List.append_nil, frames_of_none unended]
      exact ⟨rfl, rfl⟩
    | cons c text =>
      have next {front : Line} (unended : consumeLine front = none) :=
        @ih text.length (by simp [← size]) front unended text rfl
      rw [flagPiece, List.cons_append]
      by_cases lf : c = '\n'
      · subst lf
        obtain ⟨lines, tails⟩ := @next [] rfl
        rw [cutLines_lf, frames_line (consumeLine_append_some unended (consumeLine_lf _))]
        exact ⟨congrArg (line :: ·) lines, tails⟩
      by_cases cr : c = '\r'
      · subst cr
        cases text with
        | nil =>
          have ended : consumeLine ['\r'] = some ([], []) := rfl
          rw [frames_line (consumeLine_append_some unended ended), frames_of_none rfl]
          show takenLines (cutLines line (('\r', true) :: flagged)).1 = line :: takenLines (cutLines [] flagged).1 ∧
            (cutLines line (('\r', true) :: flagged)).2 = (cutLines [] flagged).2
          by_cases joined : (flagged.map (·.1)).head? = some '\n'
          · -- The piece ends inside of the line end: the LF is the line that the reader takes next.
            obtain ⟨⟨c', cut⟩, more, rfl⟩ : ∃ first more, flagged = first :: more := by
              cases flagged with
              | nil => cases joined
              | cons first more => exact ⟨first, more, rfl⟩
            obtain rfl : c' = '\n' := Option.some.inj joined
            exact ⟨rfl, rfl⟩
          · rw [cutLines_cr joined]
            exact ⟨rfl, rfl⟩
        | cons c' more =>
          by_cases joined : c' = '\n'
          · subst joined
            obtain ⟨lines, tails⟩ := @ih more.length (by simp only [← size, List.length_cons]; omega) [] rfl more rfl
            rw [flagPiece, List.cons_append, cutLines_crlf,
              frames_line (consumeLine_append_some unended (consumeLine_crlf _))]
            exact ⟨congrArg (line :: ·) lines, tails⟩
          · obtain ⟨lines, tails⟩ := @next [] rfl
            have apart : (c' :: more).head? ≠ some '\n' := fun same => joined (Option.some.inj same)
            have apart' : ((flagPiece (c' :: more) ++ flagged).map (·.1)).head? ≠ some '\n' := apart
            rw [cutLines_cr apart', frames_line (consumeLine_append_some unended (consumeLine_cr apart))]
            exact ⟨congrArg (line :: ·) lines, tails⟩
      · obtain ⟨lines, tails⟩ := next (consumeLine_concat unended lf cr)
        rw [cutLines_other lf cr, lines, tails, List.append_assoc]
        exact ⟨rfl, rfl⟩

end Lines

section Events

variable {state : SseDecoderState} {line tail : Line} {lines : List (Line × Bool)}

/-- The events of some lines, of what stands behind them, and of the end of the body. -/
def readLines : SseDecoderState → List Line → Line → List ServerSentEvent
  | state, [], tail =>
    if tail = [] then (flushSseEvent state).1.toList
    else (decodeSseLine tail state).1.toList ++ (flushSseEvent (decodeSseLine tail state).2).1.toList
  | state, line :: lines, tail =>
    (decodeSseLine line state).1.toList ++ readLines (decodeSseLine line state).2 lines tail

private theorem readLines_cons (state : SseDecoderState) (line : Line) (lines : List Line) (tail : Line) :
    readLines state (line :: lines) tail =
      (decodeSseLine line state).1.toList ++ readLines (decodeSseLine line state).2 lines tail := rfl

private theorem readLines_nil (state : SseDecoderState) (tail : Line) : readLines state [] tail =
    if tail = [] then (flushSseEvent state).1.toList
    else (decodeSseLine tail state).1.toList ++ (flushSseEvent (decodeSseLine tail state).2).1.toList := rfl

private theorem consumeLines_eq (fuel : ℕ) (reader : SseReader) (enough : reader.buffer.length ≤ fuel)
    (more : List Line) (tail : Line) :
    (reader.consumeLines fuel).2.buffer = (frames consumeLine reader.buffer).2 ∧
      (reader.consumeLines fuel).2.decoder = reader.decoder ∧
      readLines reader.state ((frames consumeLine reader.buffer).1 ++ more) tail =
        (reader.consumeLines fuel).1 ++ readLines (reader.consumeLines fuel).2.state more tail := by
  induction fuel generalizing reader with
  | zero =>
    have empty : reader.buffer = [] := List.length_eq_zero_iff.mp (Nat.le_zero.mp enough)
    rw [empty, frames_of_none rfl]
    exact ⟨empty, rfl, rfl⟩
  | succ fuel ih =>
    rw [SseReader.consumeLines]
    split
    next none_ =>
      rw [frames_of_none none_]
      exact ⟨rfl, rfl, rfl⟩
    next line rest taken =>
      have less := (consumeLine_shortens).shorter taken
      rw [frames_line taken]
      obtain ⟨buffer, decoder, events⟩ :=
        ih { reader with buffer := rest, state := (decodeSseLine line reader.state).2 } (by dsimp only; omega)
      refine ⟨buffer, decoder, ?_⟩
      rw [List.cons_append, readLines_cons, events, List.append_assoc]

/-- A text joins the buffer: the reader takes the lines that end in it. -/
private theorem readText_eq (reader : SseReader) (unended : consumeLine reader.buffer = none) (text : Line)
    (flagged : List (Char × Bool)) :
    consumeLine (reader.readText text).2.buffer = none ∧ (reader.readText text).2.decoder = reader.decoder ∧
      readLines reader.state (takenLines (cutLines reader.buffer (flagPiece text ++ flagged)).1)
          (cutLines reader.buffer (flagPiece text ++ flagged)).2 =
        (reader.readText text).1 ++ readLines (reader.readText text).2.state
          (takenLines (cutLines (reader.readText text).2.buffer flagged).1)
          (cutLines (reader.readText text).2.buffer flagged).2 := by
  obtain ⟨lines, tails⟩ := takenLines_piece unended text flagged
  obtain ⟨buffer, decoder, events⟩ := consumeLines_eq (reader.buffer ++ text).length
    { reader with buffer := reader.buffer ++ text } (Nat.le_refl _)
    (takenLines (cutLines (frames consumeLine (reader.buffer ++ text)).2 flagged).1)
    (cutLines (frames consumeLine (reader.buffer ++ text)).2 flagged).2
  refine ⟨?_, decoder, ?_⟩
  · rw [SseReader.readText, buffer]
    exact take?_frames consumeLine_shortens _
  · rw [lines, tails, SseReader.readText, buffer]
    exact events

/-- The reader gives the events of the lines that it takes. -/
private theorem readBody_eq (reader : SseReader) (unended : consumeLine reader.buffer = none)
    (chunks : List (List UInt8)) :
    reader.readBody .done chunks =
      (readLines reader.state
        (takenLines (cutLines reader.buffer ((reader.decoder.pieces chunks).flatMap flagPiece)).1)
        (cutLines reader.buffer ((reader.decoder.pieces chunks).flatMap flagPiece)).2, none) := by
  induction chunks generalizing reader with
  | nil =>
    obtain ⟨_, _, events⟩ := readText_eq reader unended reader.decoder.flush []
    rw [SseReader.readBody, TextDecoder.pieces, List.flatMap_cons, List.flatMap_nil, events]
    refine congrArg (·, none) ?_
    show reader.finish = _ ++ readLines _ [] (reader.readText reader.decoder.flush).2.buffer
    by_cases empty : (reader.readText reader.decoder.flush).2.buffer = []
    · simp [SseReader.finish, readLines_nil, empty]
    · simp [SseReader.finish, readLines_nil, empty]
  | cons chunk chunks ih =>
    obtain ⟨rested, decoder, events⟩ := readText_eq
      { reader with decoder := (reader.decoder.decode chunk).2 } unended (reader.decoder.decode chunk).1
      (((reader.decoder.decode chunk).2.pieces chunks).flatMap flagPiece)
    rw [TextDecoder.pieces, List.flatMap_cons, events, SseReader.readBody]
    have rest := ih (reader.readChunk chunk).2 rested
    rw [show (reader.readChunk chunk).2.decoder = (reader.decoder.decode chunk).2 from decoder] at rest
    show (_ ++ ((reader.readChunk chunk).2.readBody .done chunks).1, ((reader.readChunk chunk).2.readBody .done chunks).2) = _
    rw [rest]
    rfl

end Events

section Cuts

variable {state : SseDecoderState} {line tail : Line} {lines other : List (Line × Bool)}

private theorem not_pending_flushed (state : SseDecoderState) : (flushSseEvent state).2.pending = false := by
  unfold flushSseEvent
  split
  · rfl
  next quiet => exact Bool.eq_false_iff.mpr quiet

private theorem flush_quiet (quiet : state.pending = false) : flushSseEvent state = (none, state) := by
  rw [flushSseEvent, if_neg (by simp [quiet])]

private theorem flush_flushed (state : SseDecoderState) :
    flushSseEvent (flushSseEvent state).2 = (none, (flushSseEvent state).2) :=
  flush_quiet (not_pending_flushed state)

/-- An empty line behind a line where no event goes on makes no difference. -/
private theorem readLines_empty (closed : ¬GoesOn state lines tail) :
    readLines state ([] :: takenLines lines) tail = readLines state (takenLines lines) tail := by
  have flushes : decodeSseLine [] state = flushSseEvent state := rfl
  cases pending : state.pending with
  | false => rw [readLines_cons, flushes, flush_quiet pending]; rfl
  | true =>
    have empty : (lines.head?.map (·.1)).getD tail = [] := by
      by_contra nonempty
      exact closed ⟨pending, nonempty⟩
    cases lines with
    | nil =>
      obtain rfl : tail = [] := empty
      rw [readLines_cons, flushes]
      show _ ++ (flushSseEvent (flushSseEvent state).2).1.toList = (flushSseEvent state).1.toList
      rw [flush_flushed, Option.toList_none, List.append_nil]
    | cons first lines =>
      obtain ⟨line, cut⟩ := first
      obtain rfl : line = [] := empty
      have split : takenLines (([], cut) :: lines) = [] :: ((if cut then [[]] else []) ++ takenLines lines) := by
        cases cut <;> rfl
      rw [split, readLines_cons, readLines_cons, readLines_cons, flushes]
      have again : decodeSseLine [] (flushSseEvent state).2 = (none, (flushSseEvent state).2) := flush_flushed state
      rw [again]
      rfl

private theorem raw_flush {event : ServerSentEvent} (given : (flushSseEvent state).1 = some event) :
    event.raw = state.raw := by
  unfold flushSseEvent at given
  split at given <;> cases given
  rfl

/-- A line that is not empty gives no event, and joins the raw lines of the event to come. -/
private theorem decode_line (nonempty : line ≠ []) (state : SseDecoderState) :
    (decodeSseLine line state).1 = none ∧ (decodeSseLine line state).2.raw = state.raw ++ [line] := by
  unfold decodeSseLine
  rw [if_neg nonempty]
  dsimp only
  split
  · exact ⟨rfl, rfl⟩
  · split
    · exact ⟨rfl, rfl⟩
    · split <;> exact ⟨rfl, rfl⟩

/-- The raw lines that have been read are in front of those of the next event. -/
private theorem raw_head {taken : List Line} {event : ServerSentEvent}
    (given : (readLines state taken tail).head? = some event) : state.raw <+: event.raw := by
  have ofTail {state : SseDecoderState} {event : ServerSentEvent}
      (given : (readLines state [] tail).head? = some event) : state.raw <+: event.raw := by
    rw [readLines_nil] at given
    by_cases empty : tail = []
    · rw [if_pos empty] at given
      have flushed : (flushSseEvent state).1 = some event := by simpa using given
      exact raw_flush flushed ▸ List.prefix_rfl
    · obtain ⟨none_, raw⟩ := decode_line empty state
      rw [if_neg empty] at given
      have flushed : (flushSseEvent (decodeSseLine tail state).2).1 = some event := by simpa [none_] using given
      rw [raw_flush flushed, raw]
      exact List.prefix_append _ _
  induction taken generalizing state with
  | nil => exact ofTail given
  | cons line taken ih =>
    rw [readLines_cons] at given
    by_cases empty : line = []
    · have flushes : decodeSseLine line state = flushSseEvent state := if_pos empty
      rw [flushes] at given
      cases flushed : (flushSseEvent state).1 with
      | some first =>
        rw [flushed] at given
        obtain rfl : first = event := Option.some.inj given
        exact raw_flush flushed ▸ List.prefix_rfl
      | none =>
        have quiet : state.pending = false := by
          by_contra pending
          rw [flushSseEvent, if_pos (by simpa using pending)] at flushed
          cases flushed
        rw [flush_quiet quiet] at given
        exact ih given
    · obtain ⟨none_, raw⟩ := decode_line empty state
      rw [none_] at given
      exact (List.prefix_append _ _).trans (raw ▸ ih given)

/-- Where an event goes on, the next event has further raw lines. -/
private theorem raw_next {event : ServerSentEvent} (goesOn : GoesOn state lines tail)
    (given : (readLines state (takenLines lines) tail).head? = some event) : event.raw ≠ state.raw := by
  have longer {line : Line} {taken : List Line} (nonempty : line ≠ [])
      (given : (readLines (decodeSseLine line state).2 taken tail).head? = some event) : event.raw ≠ state.raw := by
    have front := (raw_head given).length_le
    rw [(decode_line nonempty state).2, List.length_append] at front
    exact fun same => absurd (congrArg List.length same) (by simp at front; omega)
  obtain ⟨_, nonempty⟩ := goesOn
  cases lines with
  | nil =>
    have nonempty : tail ≠ [] := nonempty
    obtain ⟨none_, raw⟩ := decode_line nonempty state
    change (readLines state [] tail).head? = some event at given
    rw [readLines_nil, if_neg nonempty] at given
    have flushed : (flushSseEvent (decodeSseLine tail state).2).1 = some event := by simpa [none_] using given
    rw [raw_flush flushed, raw]
    exact fun same => absurd (congrArg List.length same) (by simp)
  | cons first lines =>
    obtain ⟨line, cut⟩ := first
    have nonempty : line ≠ [] := nonempty
    have split : takenLines ((line, cut) :: lines) = line :: ((if cut then [[]] else []) ++ takenLines lines) := by
      cases cut <;> rfl
    rw [split, readLines_cons, (decode_line nonempty state).1] at given
    exact longer nonempty given

private theorem goesOn_congr (same : lines.map (·.1) = other.map (·.1)) :
    GoesOn state lines tail ↔ GoesOn state other tail := by
  unfold GoesOn
  rw [← List.head?_map, ← List.head?_map, same]

/-- The cuts where an event goes on decide which events the lines give. -/
private theorem readLines_eq_iff (same : lines.map (·.1) = other.map (·.1)) :
    readLines state (takenLines lines) tail = readLines state (takenLines other) tail ↔
      openCuts state lines tail = openCuts state other tail := by
  induction lines generalizing state other with
  | nil =>
    obtain rfl := List.map_eq_nil_iff.mp same.symm
    exact iff_of_true rfl rfl
  | cons first lines ih =>
    obtain ⟨line, cut⟩ := first
    obtain ⟨⟨line', cut'⟩, others, rfl⟩ : ∃ first others, other = first :: others := by
      cases other with
      | nil => cases same
      | cons first others => exact ⟨first, others, rfl⟩
    obtain ⟨equal, rest⟩ := List.cons.inj same
    obtain rfl : line = line' := equal
    have split (cut : Bool) (lines : List (Line × Bool)) :
        takenLines ((line, cut) :: lines) = line :: ((if cut then [[]] else []) ++ takenLines lines) := by
      cases cut <;> rfl
    obtain ⟨next, made⟩ : ∃ next, next = (decodeSseLine line state).2 := ⟨_, rfl⟩
    have cleared (lines : List (Line × Bool)) (pending : next.pending) : ∃ event,
        readLines next ([] :: takenLines lines) tail = event :: readLines (flushSseEvent next).2 (takenLines lines) tail ∧
          event.raw = next.raw :=
      ⟨_, by rw [readLines_cons, show decodeSseLine [] next = flushSseEvent next from rfl, flushSseEvent, if_pos pending]; rfl,
        rfl⟩
    rw [split, split, readLines_cons, readLines_cons, List.append_cancel_left_eq, openCuts, openCuts, ← made]
    by_cases goesOn : GoesOn next lines tail
    · have goesOn' := (goesOn_congr rest).mp goesOn
      rw [if_pos goesOn, if_pos goesOn']
      cases cut with
      | false =>
        cases cut' with
        | false => exact (ih rest).trans (by simp)
        | true =>
          obtain ⟨event, first, raw⟩ := cleared others goesOn.1
          refine iff_of_false (fun equal => ?_) (by simp)
          have equal : readLines next (takenLines lines) tail = readLines next ([] :: takenLines others) tail := equal
          exact raw_next goesOn (by rw [equal, first]; rfl) raw
      | true =>
        cases cut' with
        | false =>
          obtain ⟨event, first, raw⟩ := cleared lines goesOn.1
          refine iff_of_false (fun equal => ?_) (by simp)
          have equal : readLines next ([] :: takenLines lines) tail = readLines next (takenLines others) tail := equal
          exact raw_next goesOn' (by rw [← equal, first]; rfl) raw
        | true =>
          have flushes : decodeSseLine [] next = flushSseEvent next := rfl
          show readLines next ([] :: takenLines lines) tail = readLines next ([] :: takenLines others) tail ↔ _
          rw [readLines_cons, readLines_cons, flushes, List.append_cancel_left_eq]
          exact (ih rest).trans (by simp)
    · have goesOn' := (goesOn_congr rest).not.mp goesOn
      have unchanged (cut : Bool) {lines : List (Line × Bool)} (closed : ¬GoesOn next lines tail) :
          readLines next ((if cut then [[]] else []) ++ takenLines lines) tail =
            readLines next (takenLines lines) tail := by
        cases cut with
        | false => rfl
        | true => exact readLines_empty closed
      rw [if_neg goesOn, if_neg goesOn', ← ih rest, unchanged cut goesOn, unchanged cut' goesOn']

end Cuts

/-- For every body and any two ways to cut it into chunks: the events are the same exactly when, among the line ends
behind which an event goes on, both end a chunk between the CR and the LF of the same ones. -/
theorem anthropic_events_eq_iff {chunks other : List (List UInt8)} (body : chunks.flatten = other.flatten) :
    iterateSseMessages chunks .done = iterateSseMessages other .done ↔ chunkCuts chunks = chunkCuts other := by
  have text : ((({} : TextDecoder).pieces chunks).flatMap flagPiece).map (·.1) =
      ((({} : TextDecoder).pieces other).flatMap flagPiece).map (·.1) := by
    have chars (text : Line) : (flagPiece text).map (·.1) = text := by
      induction text with
      | nil => rfl
      | cons c text ih => rw [flagPiece, List.map_cons, ih]
    rw [List.map_flatMap, List.map_flatMap]
    simp only [chars, List.flatMap_id']
    rw [TextDecoder.flatten_pieces, TextDecoder.flatten_pieces, body]
  obtain ⟨lines, tails⟩ := cutLines_congr (show consumeLine [] = none from rfl) text
  rw [iterateSseMessages, iterateSseMessages, readBody_eq _ rfl, readBody_eq _ rfl, Prod.mk.injEq, and_iff_left rfl]
  show readLines {} (takenLines (bodyLines chunks).1) (bodyLines chunks).2 =
    readLines {} (takenLines (bodyLines other).1) (bodyLines other).2 ↔ _
  unfold chunkCuts
  rw [show (bodyLines chunks).2 = (bodyLines other).2 from tails]
  exact readLines_eq_iff lines

/-- Two lines of data in one chunk, and in two with the first line end between them. -/
private def twoLines : List (List UInt8) × List (List UInt8) :=
  ([encodeUtf8 "data: a\r\ndata: b\r\n\r\n".toList],
    [encodeUtf8 "data: a\r".toList, encodeUtf8 "\ndata: b\r\n\r\n".toList])

theorem twoLines_event : iterateSseMessages twoLines.1 .done =
    iterateSseMessages [encodeUtf8 "data: a\r\ndata: b".toList, encodeUtf8 "\r\n\r".toList, [10]] .done :=
  (anthropic_events_eq_iff (by decide)).mpr (by decide)

theorem twoLines_events : twoLines.1.flatten = twoLines.2.flatten ∧
    (iterateSseMessages twoLines.1 .done).1.map (·.data) = ["a\nb".toList] ∧
    (iterateSseMessages twoLines.2 .done).1.map (·.data) = ["a".toList, "b".toList] := by
  decide

end PieAgent.Soundness
