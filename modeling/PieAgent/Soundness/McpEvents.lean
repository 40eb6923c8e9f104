import PieAgent.Model.Mcp.SseParser

/-! # Events of a response that arrives in chunks

The parser ends an event at two line feeds in a row, so what it gives for a text does not depend on the
chunks. It depends on them through what it does to each chunk alone: a chunk is decoded on its own, where
a character that is cut makes it throw and a byte order mark at its start is dropped, and it is weighed
whole, with the events that end in it. And a blank line that ends in CR LF ends no event.
-/

namespace PieAgent.Soundness

open JavaScript Framing Model.Mcp

/-- The lines of each event of a stream, and none for the one that has not ended: a blank line ends an event. -/
def closedGroups : List Line → List Line → List (List Line)
  | _, [] => []
  | group, line :: lines => if line = [] then group :: closedGroups [] lines else closedGroups (group ++ [line]) lines

/-- The events of a whole stream with LF or CR LF line ends. -/
def streamEvents (text : Line) : List SseEvent :=
  (closedGroups [] ((text.splitOn '\n').dropLast.map dropReturn)).filterMap readEvent?

/-- No two events stand between two places where the parser ends one, and none ends behind the last. -/
def Separated (text : Line) : Prop :=
  (∀ raw ∈ (frames takeEvent? text).1, (streamEvents (raw ++ ['\n', '\n'])).length ≤ 1) ∧
    streamEvents (frames takeEvent? text).2 = []

/-- The text of some chunks as the parser decodes them, each on its own. -/
def decodedText (chunks : List (List UInt8)) : Line := chunks.flatMap fun chunk => dropMark (decodeUtf8 chunk)

/-- The chunks that start with a byte order mark. -/
def marks (chunks : List (List UInt8)) : ℕ := chunks.countP fun chunk => (decodeUtf8 chunk).head? = some byteOrderMark

/-- Every chunk fits in the cap with what is left of the event before it, and three bytes for every mark dropped. -/
def WithinCap (capBytes : ℤ) (chunks : List (List UInt8)) : Prop :=
  ∀ before (chunk : List UInt8) after, chunks = before ++ chunk :: after →
    (3 * marks before + utf8ByteLength (frames takeEvent? (decodedText before)).2 + chunk.length : ℤ) ≤ capBytes

section Fields

variable {lines more group : List Line} {fields : Option Line × List Line} {line raw rest : Line}

private theorem readField_split (fields : Option Line × List Line) (line : Line) :
    readField fields line = ((readField (none, []) line).1.or fields.1, fields.2 ++ (readField (none, []) line).2) := by
  unfold readField
  split
  · simp
  · split
    · simp
    · split <;> simp

private theorem foldl_readField (fields : Option Line × List Line) (lines : List Line) :
    lines.foldl readField fields =
      ((lines.foldl readField (none, [])).1.or fields.1, fields.2 ++ (lines.foldl readField (none, [])).2) := by
  induction lines generalizing fields with
  | nil => simp
  | cons line lines ih =>
    rw [List.foldl_cons, List.foldl_cons, ih, ih (readField (none, []) line), readField_split fields line]
    simp [Option.or_assoc]

private theorem readEvent?_eq_none : readEvent? lines = none ↔ lines.foldl readField (none, []) = (none, []) := by
  unfold readEvent?
  generalize lines.foldl readField (none, []) = fields
  obtain ⟨id, dataLines⟩ := fields
  simp

/-- Lines without a field in front of others make no difference. -/
private theorem readEvent?_append_left (nothing : readEvent? group = none) :
    readEvent? (group ++ lines) = readEvent? lines := by
  unfold readEvent?
  rw [List.foldl_append, (readEvent?_eq_none).mp nothing]

private theorem readEvent?_append_right (nothing : readEvent? lines = none) :
    readEvent? (group ++ lines) = readEvent? group := by
  unfold readEvent?
  rw [List.foldl_append, foldl_readField, (readEvent?_eq_none).mp nothing]
  simp

private theorem readEvent?_blank : readEvent? (group ++ [] :: lines) = readEvent? (group ++ lines) := by
  unfold readEvent?
  rw [List.foldl_append, List.foldl_append, List.foldl_cons]
  rfl

end Fields

section Groups

variable {lines more group : List Line} {raw rest text : Line}

private theorem closedGroups_append (group lines more : List Line) : closedGroups group (lines ++ [] :: more) =
    closedGroups group (lines ++ [[]]) ++ closedGroups [] more := by
  induction lines generalizing group with
  | nil => rfl
  | cons line lines ih =>
    rw [List.cons_append, List.cons_append, closedGroups, closedGroups]
    split
    · rw [ih, List.cons_append]
    · rw [ih]

/-- The events of the groups in some lines, against the one event that the lines give when they are read together. -/
private theorem readEvent?_groups (group lines : List Line) :
    (readEvent? (group ++ lines)).toList.length ≤ ((closedGroups group (lines ++ [[]])).filterMap readEvent?).length ∧
      (((closedGroups group (lines ++ [[]])).filterMap readEvent?).length ≤ 1 →
        (closedGroups group (lines ++ [[]])).filterMap readEvent? = (readEvent? (group ++ lines)).toList) := by
  induction lines generalizing group with
  | nil =>
    have one : closedGroups group ([] ++ [[]]) = [group] := rfl
    rw [one, List.append_nil]
    cases event : readEvent? group <;> simp [event]
  | cons line lines ih =>
    rw [List.cons_append, closedGroups]
    split
    next blank =>
      obtain ⟨least, same⟩ := ih []
      rw [blank, readEvent?_blank]
      rw [List.nil_append] at least same
      cases first : readEvent? group with
      | none =>
        rw [readEvent?_append_left first, List.filterMap_cons_none first]
        exact ⟨least, same⟩
      | some event =>
        rw [List.filterMap_cons_some first]
        refine ⟨?_, fun most => ?_⟩
        · have one : (readEvent? (group ++ lines)).toList.length ≤ 1 := by
            cases readEvent? (group ++ lines) <;> simp
          exact one.trans (by simp)
        · have none_ : (closedGroups [] (lines ++ [[]])).filterMap readEvent? = [] :=
            List.length_eq_zero_iff.mp (by simpa using most)
          rw [none_] at same ⊢
          have later : readEvent? lines = none := by simpa using (same (by simp)).symm
          rw [readEvent?_append_right later, first]
          rfl
    · simpa using ih (group ++ [line])

private theorem splitOn_event (raw rest : Line) :
    (raw ++ '\n' :: '\n' :: rest).splitOn '\n' = raw.splitOn '\n' ++ [] :: rest.splitOn '\n' := by
  rw [List.splitOn_append_cons_self, show '\n' :: rest = [] ++ '\n' :: rest from rfl, List.splitOn_append_cons_self]
  rfl

/-- What stands behind two line feeds is read on its own. -/
private theorem streamEvents_append (raw rest : Line) :
    streamEvents (raw ++ '\n' :: '\n' :: rest) = streamEvents (raw ++ ['\n', '\n']) ++ streamEvents rest := by
  have ends (more : Line) : ((raw ++ '\n' :: '\n' :: more).splitOn '\n').dropLast.map dropReturn =
      (raw.splitOn '\n').map dropReturn ++ [] :: ((more.splitOn '\n').dropLast.map dropReturn) := by
    rw [splitOn_event, List.dropLast_append_of_ne_nil (List.cons_ne_nil _ _),
      List.dropLast_cons_of_ne_nil (List.splitOn_ne_nil _ _), List.map_append, List.map_cons]
    rfl
  unfold streamEvents
  rw [ends, ends []]
  have alone : (([] : Line).splitOn '\n').dropLast.map dropReturn = [] := rfl
  rw [alone, closedGroups_append, List.filterMap_append]

/-- The parser reads the lines between two places where it ends an event together. -/
private theorem parseSseEvent_events (raw : Line) :
    (parseSseEvent raw).toList.length ≤ (streamEvents (raw ++ ['\n', '\n'])).length ∧
      ((streamEvents (raw ++ ['\n', '\n'])).length ≤ 1 →
        streamEvents (raw ++ ['\n', '\n']) = (parseSseEvent raw).toList) := by
  have lines : streamEvents (raw ++ ['\n', '\n']) =
      (closedGroups [] ((raw.splitOn '\n').map dropReturn ++ [[]])).filterMap readEvent? := by
    unfold streamEvents
    rw [splitOn_event, List.dropLast_append_of_ne_nil (List.cons_ne_nil _ _), List.map_append]
    rfl
  rw [lines]
  exact readEvent?_groups [] _

private theorem takeEvent?_spec (taken : takeEvent? text = some (raw, rest)) :
    text = raw ++ '\n' :: '\n' :: rest ∧ ∀ more, takeEvent? (text ++ more) = some (raw, rest ++ more) := by
  induction text using takeEvent?.induct generalizing raw with
  | case1 rest' =>
    cases taken
    exact ⟨rfl, fun _ => rfl⟩
  | case2 c rest' notBoth ih =>
    rw [takeEvent?] at taken
    · obtain ⟨⟨raw', rest''⟩, found, same⟩ := Option.map_eq_some_iff.mp taken
      cases same
      obtain ⟨shape, extended⟩ := ih found
      refine ⟨by rw [shape]; rfl, fun more => ?_⟩
      rw [List.cons_append, takeEvent?, extended]
      · rfl
      · intro rest'' newline same
        cases rest' with
        | nil => cases found
        | cons c' tail =>
          cases same
          exact notBoth tail newline rfl
    · exact notBoth
  | case3 => cases taken

theorem takeEvent?_stable : PrefixStable takeEvent? where
  shorter {text raw rest} taken := by
    rw [(takeEvent?_spec taken).1, List.length_append, List.length_cons, List.length_cons]
    omega
  append more taken := (takeEvent?_spec taken).2 more

/-- The events of a stream, by the places where the parser ends one. -/
private theorem streamEvents_frames (text : Line) : streamEvents text =
    ((frames takeEvent? text).1.flatMap fun raw => streamEvents (raw ++ ['\n', '\n'])) ++
      streamEvents (frames takeEvent? text).2 := by
  induction size : text.length using Nat.strongRecOn generalizing text with
  | _ size ih =>
    cases taken : takeEvent? text with
    | none => rw [frames_of_none taken, List.flatMap_nil, List.nil_append]
    | some found =>
      obtain ⟨raw, rest⟩ := found
      rw [frames_of_some (takeEvent?_stable).toShortens taken, List.flatMap_cons, List.append_assoc,
        ← ih rest.length (size ▸ (takeEvent?_stable).shorter taken) rest rfl, ← streamEvents_append,
        ← (takeEvent?_spec taken).1]

private theorem filterMap_cons_toList (raw : Line) (raws : List Line) :
    (raw :: raws).filterMap parseSseEvent = (parseSseEvent raw).toList ++ raws.filterMap parseSseEvent := by
  cases event : parseSseEvent raw <;> simp [event]

private theorem length_events_le (raws : List Line) : (raws.filterMap parseSseEvent).length ≤
    (raws.flatMap fun raw => streamEvents (raw ++ ['\n', '\n'])).length := by
  induction raws with
  | nil => exact Nat.le_refl _
  | cons raw raws ih =>
    rw [filterMap_cons_toList, List.flatMap_cons, List.length_append, List.length_append]
    exact Nat.add_le_add (parseSseEvent_events raw).1 ih

/-- The parser gives the events of the stream when it never reads two of them together. -/
private theorem filterMap_events (raws : List Line) (tail : List SseEvent) :
    raws.filterMap parseSseEvent = (raws.flatMap fun raw => streamEvents (raw ++ ['\n', '\n'])) ++ tail ↔
      (∀ raw ∈ raws, (streamEvents (raw ++ ['\n', '\n'])).length ≤ 1) ∧ tail = [] := by
  constructor
  · intro same
    have sizes := congrArg List.length same
    rw [List.length_append] at sizes
    clear same
    induction raws with
    | nil => exact ⟨nofun, List.length_eq_zero_iff.mp (by simpa using sizes.symm)⟩
    | cons raw raws ih =>
      have least := (parseSseEvent_events raw).1
      have others := length_events_le raws
      have one : (parseSseEvent raw).toList.length ≤ 1 := by cases parseSseEvent raw <;> simp
      rw [filterMap_cons_toList, List.flatMap_cons, List.length_append, List.length_append] at sizes
      obtain ⟨single, none_⟩ := ih (by omega)
      exact ⟨List.forall_mem_cons.mpr ⟨by omega, single⟩, none_⟩
  · rintro ⟨single, rfl⟩
    rw [List.append_nil]
    induction raws with
    | nil => rfl
    | cons raw raws ih =>
      obtain ⟨first, others⟩ := List.forall_mem_cons.mp single
      rw [filterMap_cons_toList, List.flatMap_cons, (parseSseEvent_events raw).2 first, ih others]

private theorem separated_iff (text : Line) :
    (frames takeEvent? text).1.filterMap parseSseEvent = streamEvents text ↔ Separated text := by
  rw [streamEvents_frames text]
  exact filterMap_events _ _

end Groups

section Chunks

variable {parser after : SseParser} {events : List SseEvent} {chunk : List UInt8} {chunks : List (List UInt8)}
  {dropped : ℕ}

/-- What the loop of `push` takes is what it gives and no longer counts. -/
private theorem takeEvents_eq (fuel : ℕ) (parser : SseParser) (out : List SseEvent) (enough : parser.buffer.length ≤ fuel) :
    parser.takeEvents fuel out =
      ({ parser with
          buffer := (frames takeEvent? parser.buffer).2
          bufferBytes := parser.bufferBytes - utf8ByteLength parser.buffer +
            utf8ByteLength (frames takeEvent? parser.buffer).2 },
        out ++ (frames takeEvent? parser.buffer).1.filterMap parseSseEvent) := by
  induction fuel generalizing parser out with
  | zero =>
    have empty : parser.buffer = [] := List.length_eq_zero_iff.mp (Nat.le_zero.mp enough)
    obtain ⟨capBytes, buffer, bufferBytes⟩ := parser
    cases empty
    simp [SseParser.takeEvents, frames, drain]
  | succ fuel ih =>
    unfold SseParser.takeEvents
    split
    next none_ => simp [frames_of_none none_]
    next raw buffer taken =>
      have less := (takeEvent?_stable).shorter taken
      have bytes : (utf8ByteLength parser.buffer : ℤ) = utf8ByteLength (raw ++ ['\n', '\n']) + utf8ByteLength buffer := by
        rw [(takeEvent?_spec taken).1, show raw ++ '\n' :: '\n' :: buffer = (raw ++ ['\n', '\n']) ++ buffer by simp]
        unfold utf8ByteLength
        rw [encodeUtf8_append, List.length_append]
        omega
      rw [ih _ _ (by dsimp only; omega), frames_of_some (takeEvent?_stable).toShortens taken, filterMap_cons_toList, bytes]
      simp only [List.append_assoc, Prod.mk.injEq, SseParser.mk.injEq, true_and, and_true]
      omega

/-- The count of the parser: the bytes of what it keeps, and three for every mark that it has dropped. -/
private def Counts (parser : SseParser) (dropped : ℕ) : Prop :=
  parser.bufferBytes = 3 * dropped + utf8ByteLength parser.buffer

private theorem length_chunk (valid : IsUtf8 chunk) :
    chunk.length = utf8ByteLength (dropMark (decodeUtf8 chunk)) + 3 * marks [chunk] := by
  have bytes : chunk.length = utf8ByteLength (decodeUtf8 chunk) := congrArg List.length valid.symm
  rw [bytes, marks, List.countP_singleton]
  cases decoded : decodeUtf8 chunk with
  | nil => rfl
  | cons c text =>
    by_cases mark : c = byteOrderMark
    · have three : (encodeChar byteOrderMark).length = 3 := by decide
      simp [mark, dropMark, utf8ByteLength, three, Nat.add_comm]
    · simp [mark, dropMark]

private theorem push_ok (counts : Counts parser dropped) : parser.push chunk = .ok (after, events) ↔
    (3 * dropped + utf8ByteLength parser.buffer + chunk.length : ℤ) ≤ parser.capBytes ∧ IsUtf8 chunk ∧
      after.capBytes = parser.capBytes ∧
      after.buffer = (frames takeEvent? (parser.buffer ++ dropMark (decodeUtf8 chunk))).2 ∧
      Counts after (dropped + marks [chunk]) ∧
      events = (frames takeEvent? (parser.buffer ++ dropMark (decodeUtf8 chunk))).1.filterMap parseSseEvent := by
  unfold SseParser.push
  rw [counts]
  split
  next exceeds => exact iff_of_false nofun fun ok => absurd ok.1 (Int.not_le.mpr exceeds)
  next fits =>
    rw [and_iff_right (Int.not_lt.mp fits)]
    unfold decodeUtf8Strict decodeFatal?
    by_cases valid : IsUtf8 chunk
    · rw [if_pos valid, and_iff_right valid]
      have size := length_chunk valid
      have bytes : utf8ByteLength (parser.buffer ++ dropMark (decodeUtf8 chunk)) =
          utf8ByteLength parser.buffer + utf8ByteLength (dropMark (decodeUtf8 chunk)) := by
        unfold utf8ByteLength
        rw [encodeUtf8_append, List.length_append]
      have ran := takeEvents_eq (parser.buffer ++ dropMark (decodeUtf8 chunk)).length
        ⟨parser.capBytes, parser.buffer ++ dropMark (decodeUtf8 chunk),
          3 * dropped + utf8ByteLength parser.buffer + chunk.length⟩ [] (Nat.le_refl _)
      dsimp only at ran
      change (Except.ok (SseParser.takeEvents _ _ _) : Except JsString _) = _ ↔ _
      rw [ran, Except.ok.injEq, Prod.mk.injEq, List.nil_append, bytes]
      obtain ⟨capBytes, buffer, bufferBytes⟩ := after
      simp only [SseParser.mk.injEq, Counts]
      constructor
      · rintro ⟨⟨rfl, rfl, rfl⟩, rfl⟩
        exact ⟨rfl, rfl, by omega, rfl⟩
      · rintro ⟨rfl, rfl, count, rfl⟩
        exact ⟨⟨rfl, rfl, by omega⟩, rfl⟩
    · rw [if_neg valid]
      exact iff_of_false nofun fun ok => valid ok.1

/-- The chunks that a parser takes without an error, and the events that it gives for them. -/
private theorem pushAll_ok (counts : Counts parser dropped) (rested : takeEvent? parser.buffer = none) :
    (∃ after, parser.pushAll chunks = .ok (after, events)) ↔
      (∀ chunk ∈ chunks, IsUtf8 chunk) ∧
      (∀ before (chunk : List UInt8) after, chunks = before ++ chunk :: after →
        (3 * (dropped + marks before) +
          utf8ByteLength (frames takeEvent? (parser.buffer ++ decodedText before)).2 + chunk.length : ℤ) ≤
            parser.capBytes) ∧
      events = (frames takeEvent? (parser.buffer ++ decodedText chunks)).1.filterMap parseSseEvent := by
  induction chunks generalizing parser dropped events with
  | nil =>
    have none_ : (frames takeEvent? (parser.buffer ++ decodedText [])).1 = [] := by
      rw [decodedText, List.flatMap_nil, List.append_nil, frames_of_none rested]
    rw [none_]
    simp [SseParser.pushAll, eq_comm]
  | cons chunk chunks ih =>
    have steps : (∃ after, parser.pushAll (chunk :: chunks) = .ok (after, events)) ↔
        ∃ next first more, parser.push chunk = .ok (next, first) ∧
          (∃ after, next.pushAll chunks = .ok (after, more)) ∧ events = first ++ more := by
      constructor
      · rintro ⟨after, ran⟩
        rw [SseParser.pushAll] at ran
        cases pushed : parser.push chunk with
        | error error =>
          rw [pushed] at ran
          cases ran
        | ok found =>
          rw [pushed] at ran
          change (found.1.pushAll chunks >>= fun step => pure (step.1, found.2 ++ step.2)) = _ at ran
          cases rest : found.1.pushAll chunks with
          | error error =>
            rw [rest] at ran
            cases ran
          | ok others =>
            rw [rest] at ran
            cases ran
            exact ⟨found.1, found.2, others.2, rfl, ⟨_, rest⟩, rfl⟩
      · rintro ⟨next, first, more, pushed, ⟨after, rest⟩, rfl⟩
        refine ⟨after, ?_⟩
        rw [SseParser.pushAll, pushed]
        show (next.pushAll chunks >>= _) = _
        rw [rest]
        rfl
    have whole (next : SseParser)
        (kept : next.buffer = (frames takeEvent? (parser.buffer ++ dropMark (decodeUtf8 chunk))).2)
        (before : List (List UInt8)) :
        frames takeEvent? (parser.buffer ++ decodedText (chunk :: before)) =
          ((frames takeEvent? (parser.buffer ++ dropMark (decodeUtf8 chunk))).1 ++
              (frames takeEvent? (next.buffer ++ decodedText before)).1,
            (frames takeEvent? (next.buffer ++ decodedText before)).2) := by
      rw [decodedText, List.flatMap_cons, ← List.append_assoc, frames_append takeEvent?_stable, kept]
      rfl
    have seen (before : List (List UInt8)) : marks (chunk :: before) = marks [chunk] + marks before := by
      unfold marks
      rw [← List.singleton_append, List.countP_append]
    have start : frames takeEvent? (parser.buffer ++ decodedText []) = ([], parser.buffer) := by
      rw [decodedText, List.flatMap_nil, List.append_nil, frames_of_none rested]
    rw [steps]
    constructor
    · rintro ⟨next, first, more, pushed, rest, rfl⟩
      obtain ⟨fits, valid, cap, kept, count, rfl⟩ := (push_ok counts).mp pushed
      have nextRested : takeEvent? next.buffer = none := kept ▸ take?_frames (takeEvent?_stable).toShortens _
      obtain ⟨valids, within, rfl⟩ := (ih count nextRested).mp rest
      refine ⟨List.forall_mem_cons.mpr ⟨valid, valids⟩, fun before other after split => ?_, ?_⟩
      · rcases List.cons_eq_append_iff.mp split with ⟨rfl, same⟩ | ⟨before', rfl, same⟩
        · cases same
          rw [start]
          simpa [marks] using fits
        · have here := within before' other after same
          rw [cap] at here
          rw [whole next kept, seen]
          push_cast at here ⊢
          omega
      · rw [whole next kept, List.filterMap_append]
    · rintro ⟨valids, within, rfl⟩
      obtain ⟨valid, others⟩ := List.forall_mem_cons.mp valids
      have fits := within [] chunk chunks rfl
      rw [start] at fits
      obtain ⟨next, made⟩ : ∃ next : SseParser, next = ⟨parser.capBytes,
        (frames takeEvent? (parser.buffer ++ dropMark (decodeUtf8 chunk))).2, 3 * (dropped + marks [chunk] : ℕ) +
          utf8ByteLength (frames takeEvent? (parser.buffer ++ dropMark (decodeUtf8 chunk))).2⟩ := ⟨_, rfl⟩
      have kept : next.buffer = (frames takeEvent? (parser.buffer ++ dropMark (decodeUtf8 chunk))).2 := by rw [made]
      have cap : next.capBytes = parser.capBytes := by rw [made]
      have count : Counts next (dropped + marks [chunk]) := by rw [made]; rfl
      have nextRested : takeEvent? next.buffer = none := kept ▸ take?_frames (takeEvent?_stable).toShortens _
      refine ⟨next, _, _, (push_ok counts).mpr ⟨by simpa [marks] using fits, valid, cap, kept, count, rfl⟩,
        (ih count nextRested).mpr ⟨others, fun before other after split => ?_, rfl⟩, ?_⟩
      · have here := within (chunk :: before) other after (by rw [split]; rfl)
        rw [whole next kept, seen] at here
        rw [cap]
        push_cast at here ⊢
        omega
      · rw [whole next kept, List.filterMap_append]

end Chunks

private theorem decodedText_eq {whole : Line} {chunks : List (List UInt8)} (stream : encodeUtf8 whole = chunks.flatten)
    (valid : ∀ chunk ∈ chunks, IsUtf8 chunk)
    (unmarked : ∀ chunk ∈ chunks.tail, (decodeUtf8 chunk).head? ≠ some byteOrderMark) :
    decodedText chunks = dropMark whole := by
  have decoded (parts : List (List UInt8)) (all : ∀ chunk ∈ parts, IsUtf8 chunk) :
      decodeUtf8 parts.flatten = parts.flatMap decodeUtf8 := by
    induction parts with
    | nil => rfl
    | cons part parts ih =>
      obtain ⟨first, others⟩ := List.forall_mem_cons.mp all
      rw [List.flatten_cons, first.decode_append, ih others, List.flatMap_cons]
  have text : whole = chunks.flatMap decodeUtf8 := by rw [← decoded chunks valid, ← stream, decodeUtf8_encodeUtf8]
  have kept {c : List UInt8} (none_ : (decodeUtf8 c).head? ≠ some byteOrderMark) :
      dropMark (decodeUtf8 c) = decodeUtf8 c := by
    cases found : decodeUtf8 c with
    | nil => rfl
    | cons first rest =>
      rw [found] at none_
      exact if_neg fun same => none_ (congrArg some same)
  have unchanged (parts : List (List UInt8)) (all : ∀ chunk ∈ parts, (decodeUtf8 chunk).head? ≠ some byteOrderMark) :
      decodedText parts = parts.flatMap decodeUtf8 ∧ dropMark (parts.flatMap decodeUtf8) = parts.flatMap decodeUtf8 := by
    induction parts with
    | nil => exact ⟨rfl, rfl⟩
    | cons part parts ih =>
      obtain ⟨first, others⟩ := List.forall_mem_cons.mp all
      obtain ⟨same, front⟩ := ih others
      rw [decodedText] at same ⊢
      rw [List.flatMap_cons, List.flatMap_cons, same, kept first]
      refine ⟨rfl, ?_⟩
      cases found : decodeUtf8 part with
      | nil => exact front
      | cons c rest =>
        rw [found] at first
        exact if_neg fun equal => first (congrArg some equal)
  cases chunks with
  | nil => rw [text]; rfl
  | cons chunk chunks =>
    obtain ⟨same, front⟩ := unchanged chunks unmarked
    rw [decodedText] at same ⊢
    rw [List.flatMap_cons, same, text, List.flatMap_cons]
    cases decodeUtf8 chunk with
    | nil => exact front.symm
    | cons c rest =>
      rw [List.cons_append, dropMark, dropMark]
      split <;> rfl

/-- The events of a stream with their ends, and what stands behind the last, each fit in the cap. -/
def FramesWithin (capBytes : ℤ) (text : Line) : Prop :=
  (∀ raw ∈ (frames takeEvent? text).1, (utf8ByteLength (raw ++ ['\n', '\n']) : ℤ) ≤ capBytes) ∧
    (utf8ByteLength (frames takeEvent? text).2 : ℤ) ≤ capBytes

/-- For every stream in UTF-8 and every way to cut it into chunks: the parser raises no error and gives the events of
the stream exactly when every chunk is UTF-8 on its own and fits in the cap with the event that has not ended, and the
parser ends the events of the text where they end. Where no mark is dropped behind the first chunk, the last means
that no CR LF blank line stands between two events of which the parser ends only one. -/
theorem mcp_events_iff {capBytes : ℤ} {whole : Line} {chunks : List (List UInt8)}
    (stream : encodeUtf8 whole = chunks.flatten) :
    ((∃ after, SseParser.pushAll { capBytes } chunks = .ok (after, streamEvents (dropMark whole))) ↔
      (∀ chunk ∈ chunks, IsUtf8 chunk) ∧ WithinCap capBytes chunks ∧
        (frames takeEvent? (decodedText chunks)).1.filterMap parseSseEvent = streamEvents (dropMark whole)) ∧
    ((∀ chunk ∈ chunks, IsUtf8 chunk) →
      (∀ chunk ∈ chunks.tail, (decodeUtf8 chunk).head? ≠ some byteOrderMark) →
      ((frames takeEvent? (decodedText chunks)).1.filterMap parseSseEvent = streamEvents (dropMark whole) ↔
        Separated (dropMark whole))) := by
  refine ⟨?_, fun valid unmarked => ?_⟩
  · have counts : Counts ({ capBytes } : SseParser) 0 := rfl
    refine (pushAll_ok counts rfl).trans (and_congr_right fun _ => and_congr ?_ eq_comm)
    refine forall_congr' fun before => forall_congr' fun chunk => forall_congr' fun after => imp_congr_right fun _ => ?_
    rw [show ({ capBytes } : SseParser).buffer ++ decodedText before = decodedText before from rfl]
    push_cast
    omega
  · rw [decodedText_eq stream valid unmarked]
    exact separated_iff _

/-- One event in two chunks, in a parser whose cap is its size. -/
private def oneEvent : List (List UInt8) := [encodeUtf8 "data: a".toList, encodeUtf8 "\n\n".toList]

theorem oneEvent_parsed : ∃ after, SseParser.pushAll { capBytes := 9 } oneEvent =
    .ok (after, streamEvents (dropMark "data: a\n\n".toList)) :=
  have stream : encodeUtf8 "data: a\n\n".toList = oneEvent.flatten := by decide
  have within : WithinCap 9 oneEvent := by
    intro before chunk after split
    match before, split with
    | [], split => cases split; decide
    | [_], split => cases split; decide
    | _ :: _ :: _ :: _, split => cases split
  (mcp_events_iff stream).1.mpr ⟨by decide, within, by decide⟩

/-- A character that is cut between two chunks, two events in one chunk that fit in the cap one by one, and a CR LF
blank line behind which nothing comes. -/
theorem mcp_events_lost :
    (FramesWithin 10 "data: é\n\n".toList ∧
      encodeUtf8 "data: é\n\n".toList = [[100, 97, 116, 97, 58, 32, 0xC3], [0xA9, 10, 10]].flatten ∧
      ¬∃ after, SseParser.pushAll { capBytes := 10 } [[100, 97, 116, 97, 58, 32, 0xC3], [0xA9, 10, 10]] =
        .ok (after, streamEvents "data: é\n\n".toList)) ∧
    (FramesWithin 9 "data: a\n\ndata: b\n\n".toList ∧
      ¬∃ after, SseParser.pushAll { capBytes := 9 } [encodeUtf8 "data: a\n\ndata: b\n\n".toList] =
        .ok (after, streamEvents "data: a\n\ndata: b\n\n".toList)) ∧
    ¬∃ after, SseParser.pushAll { capBytes := 1024 } [encodeUtf8 "data: a\r\n\r\n".toList] =
      .ok (after, streamEvents "data: a\r\n\r\n".toList) := by
  refine ⟨⟨?_, ?_, ?_⟩, ⟨?_, ?_⟩, ?_⟩
  · exact ⟨by decide, by decide⟩
  · decide
  · rintro ⟨after, ran⟩
    cases ran
  · exact ⟨by decide, by decide⟩
  · rintro ⟨after, ran⟩
    cases ran
  · rintro ⟨after, ran⟩
    cases ran

end PieAgent.Soundness
