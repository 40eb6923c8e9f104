import PieAgent.Machine.Core.Labeled
import PieAgent.Model.Lsp.ReadPump

/-! # Frames that arrive in chunks

The pump goes through a stream part by part: the header lines of a frame, the empty line behind them, its
body. When a chunk ends with a part, the buffer is empty and the pump waits for the next chunk. When it ends inside
of a part, the buffer holds the start of it, the wait returns at once, and the pump checks the same buffer again
forever.
-/

namespace PieAgent.Soundness

open JavaScript Machine Model.Lsp

/-- A header field that does not tell the length. -/
abbrev HeaderField :=
  { text : List Char // text ≠ [] ∧ '\r' ∉ text ∧ '\n' ∉ text ∧ contentLengthPrefix.isPrefixOf text = false }

/-- A well-formed frame: one field tells the length of the body, which is JSON. -/
structure LspFrame where
  before : List HeaderField
  after : List HeaderField
  body : List UInt8
  value : Json
  parses : parse? (decodeUtf8 body) = some value

/-- The lines of the header of a frame, and the empty one that ends it. -/
def LspFrame.header (frame : LspFrame) : List (List Char) :=
  frame.before.map (·.1) ++ (contentLengthPrefix ++ Nat.toDigits 10 frame.body.length) :: frame.after.map (·.1) ++ [[]]

/-- What the reader takes at once: a header line with its end, or a body. -/
def LspFrame.parts (frame : LspFrame) : List (List UInt8) :=
  frame.header.map (fun text => encodeUtf8 (text ++ ['\r', '\n'])) ++ [frame.body]

/-- Every chunk ends behind a header line, behind a header or behind a body. -/
def EndsWithParts (parts chunks : List (List UInt8)) : Prop :=
  ∀ before after, chunks = before ++ after → ∃ front back, parts = front ++ back ∧ before.flatten = front.flatten

/-- The pump where it takes the parts one by one and gives the values. -/
inductive Expects : ReadPoint → List (List UInt8) → List Json → Prop
  | done : Expects (.readLine none) [] []
  | header {contentLength line parts values} (oneLine : 10 ∉ line)
      (rest : Expects (readHeaderLine contentLength line) parts values) :
      Expects (.readLine contentLength) ((line ++ [10]) :: parts) values
  | body {body value parts values} (nonempty : body ≠ []) (parses : parse? (decodeUtf8 body) = some value)
      (rest : Expects (.readLine none) parts values) :
      Expects (.readExact body.length) (body :: parts) (value :: values)

section Frames

variable {frame : LspFrame} {parts : List (List UInt8)} {values : List Json}

private theorem newline_not_mem_encodeUtf8 {text : List Char} (oneLine : '\n' ∉ text) : 10 ∉ encodeUtf8 text := by
  intro found
  obtain ⟨c, listed, byte⟩ := List.mem_flatMap.mp found
  have ascii : c.toNat = 10 := by
    have value {n : ℕ} (small : n < 256) (same : (10 : UInt8) = UInt8.ofNat n) : n = 10 := by
      have := congrArg UInt8.toNat same
      rw [UInt8.toNat_ofNat_of_lt' small] at this
      exact this.symm
    have scalar : c.toNat < 0xD800 ∨ 0xDFFF < c.toNat ∧ c.toNat < 0x110000 := c.valid
    unfold encodeChar at byte
    dsimp only at byte
    split_ifs at byte with one two three
    · exact value (by omega) (List.mem_singleton.mp byte)
    · simp only [List.mem_cons, List.not_mem_nil, or_false] at byte
      rcases byte with lead | last
      · have := value (by omega) lead
        omega
      · have := value (by omega) last
        omega
    · simp only [List.mem_cons, List.not_mem_nil, or_false] at byte
      rcases byte with lead | middle | last
      · have := value (by omega) lead
        omega
      · have := value (by omega) middle
        omega
      · have := value (by omega) last
        omega
    · simp only [List.mem_cons, List.not_mem_nil, or_false] at byte
      rcases byte with lead | second | third | last
      · have := value (by omega) lead
        omega
      · have := value (by omega) second
        omega
      · have := value (by omega) third
        omega
      · have := value (by omega) last
        omega
  have newline : c = '\n' := Char.toNat_inj.mp ascii
  exact oneLine (newline ▸ listed)

private theorem trimLineEnd_line {text : List Char} (noReturn : '\r' ∉ text) (oneLine : '\n' ∉ text) :
    trimLineEnd (text ++ ['\r']) = text := by
  unfold trimLineEnd
  rw [List.rdropWhile_concat_pos _ _ _ (by decide)]
  rcases List.eq_nil_or_concat text with rfl | ⟨front, last, rfl⟩
  · rfl
  · rw [List.concat_eq_append] at noReturn oneLine ⊢
    refine List.rdropWhile_concat_neg _ _ _ fun ends => ?_
    rcases Bool.or_eq_true_iff.mp ends with isReturn | isNewline
    · exact noReturn (by simp [beq_iff_eq.mp isReturn])
    · exact oneLine (by simp [beq_iff_eq.mp isNewline])

private theorem expects_line {contentLength : Option ℕ} {text : List Char} (noReturn : '\r' ∉ text)
    (oneLine : '\n' ∉ text)
    (rest : Expects (if text = [] then (contentLength.map ReadPoint.readExact).getD .ended
      else if contentLengthPrefix.isPrefixOf text then .readLine (decimal? (text.drop contentLengthPrefix.length))
      else .readLine contentLength) parts values) :
    Expects (.readLine contentLength) (encodeUtf8 (text ++ ['\r', '\n']) :: parts) values := by
  have split : encodeUtf8 (text ++ ['\r', '\n']) = encodeUtf8 (text ++ ['\r']) ++ [10] := by
    rw [encodeUtf8_append, encodeUtf8_append, List.append_assoc]
    rfl
  rw [split]
  refine .header (newline_not_mem_encodeUtf8 (by simp [oneLine])) ?_
  unfold readHeaderLine
  rw [decodeUtf8_encodeUtf8, trimLineEnd_line noReturn oneLine]
  cases contentLength <;> exact rest

private theorem expects_fields {contentLength : Option ℕ} (fields : List HeaderField)
    (rest : Expects (.readLine contentLength) parts values) : Expects (.readLine contentLength)
      ((fields.map (·.1)).map (fun text => encodeUtf8 (text ++ ['\r', '\n'])) ++ parts) values := by
  induction fields with
  | nil => exact rest
  | cons field fields ih =>
    obtain ⟨text, nonempty, noReturn, oneLine, other⟩ := field
    refine expects_line noReturn oneLine ?_
    rw [if_neg nonempty, if_neg (by simp [other])]
    exact ih

private theorem decimal?_toDigits (n : ℕ) : decimal? (Nat.toDigits 10 n) = some n := by
  unfold decimal?
  rw [if_pos ⟨Nat.toDigits_ne_nil, List.all_eq_true.mpr fun c listed =>
    Nat.isDigit_of_mem_toDigits (by decide) (by decide) listed⟩, Nat.ofDigitChars_ten_toDigits]

/-- The pump takes the parts of well-formed frames one by one. -/
private theorem expects_frames (frames : List LspFrame) :
    Expects (.readLine none) (frames.flatMap LspFrame.parts) (frames.map LspFrame.value) := by
  induction frames with
  | nil => exact .done
  | cons frame frames ih =>
    have nonempty : frame.body ≠ [] := fun empty => by
      have parses := frame.parses
      rw [empty] at parses
      cases parses
    have body := Expects.body nonempty frame.parses ih
    have blank : Expects (.readLine (some frame.body.length))
        (encodeUtf8 ([] ++ ['\r', '\n']) :: frame.body :: frames.flatMap LspFrame.parts)
        (frame.value :: frames.map LspFrame.value) := expects_line nofun nofun body
    have digits (c : Char) (found : c ∈ contentLengthPrefix ++ Nat.toDigits 10 frame.body.length) :
        c ≠ '\r' ∧ c ≠ '\n' := by
      rcases List.mem_append.mp found with front | back
      · have others : ∀ c' ∈ contentLengthPrefix, c' ≠ '\r' ∧ c' ≠ '\n' := List.forall_iff_forall_mem.mp (by decide)
        exact others c front
      · have digit := Nat.isDigit_of_mem_toDigits (by decide) (by decide) back
        constructor <;> (rintro rfl; cases digit)
    have told : Expects (.readLine none)
        (encodeUtf8 ((contentLengthPrefix ++ Nat.toDigits 10 frame.body.length) ++ ['\r', '\n']) ::
          ((frame.after.map (·.1)).map (fun text => encodeUtf8 (text ++ ['\r', '\n'])) ++
            encodeUtf8 ([] ++ ['\r', '\n']) :: frame.body :: frames.flatMap LspFrame.parts))
        (frame.value :: frames.map LspFrame.value) := by
      refine expects_line (fun found => (digits _ found).1 rfl) (fun found => (digits _ found).2 rfl) ?_
      have prefixed : contentLengthPrefix ++ Nat.toDigits 10 frame.body.length ≠ [] :=
        List.append_ne_nil_of_left_ne_nil (show contentLengthPrefix ≠ [] by decide) _
      rw [if_neg prefixed, if_pos (List.isPrefixOf_iff_prefix.mpr (List.prefix_append _ _)),
        List.drop_left, decimal?_toDigits]
      exact expects_fields frame.after blank
    have whole := expects_fields frame.before told
    simpa [LspFrame.parts, LspFrame.header] using whole

end Frames

section Pump

variable {point : ReadPoint} {part bytes : List UInt8} {parts front back chunks : List (List UInt8)}
  {values : List Json}

private theorem takeLine?_line {line : List UInt8} (oneLine : 10 ∉ line) (more : List UInt8) :
    takeLine? (line ++ 10 :: more) = some (line, more) := by
  have front : ∀ byte ∈ line, (byte != 10) = true := fun byte found => by
    refine bne_iff_ne.mpr ?_
    rintro rfl
    exact oneLine found
  unfold takeLine?
  rw [if_pos (by simp), List.takeWhile_append_of_pos front, List.dropWhile_append_of_pos front]
  simp

private theorem takeLine?_none (oneLine : 10 ∉ bytes) : takeLine? bytes = none := if_neg oneLine

theorem Expects.nonempty (expects : Expects point parts values) : ∀ part ∈ parts, part ≠ [] := by
  induction expects with
  | done => nofun
  | header oneLine rest ih => exact List.forall_mem_cons.mpr ⟨List.append_ne_nil_of_right_ne_nil _ (by simp), ih⟩
  | body nonempty parses rest ih => exact List.forall_mem_cons.mpr ⟨nonempty, ih⟩

/-- A part that is there whole is taken. -/
private theorem step?_part (expects : Expects point (part :: parts) values) (known : List Json) (more : List UInt8) :
    ∃ next taken left, Expects next parts left ∧ known ++ values = taken ++ left ∧
      ReadPump.step? { buffer := part ++ more, point, values := known } =
        some { buffer := more, point := next, values := taken } := by
  cases expects with
  | header oneLine rest =>
    refine ⟨_, known, values, rest, rfl, ?_⟩
    rw [ReadPump.step?, if_neg nofun]
    dsimp only
    rw [List.append_assoc, List.singleton_append, takeLine?_line oneLine]
  | body nonempty parses rest =>
    refine ⟨_, _, _, rest, (List.append_assoc _ [_] _).symm, ?_⟩
    rw [ReadPump.step?, if_neg nofun]
    dsimp only
    rw [if_neg (by simp), List.take_left, List.drop_left, parses]

/-- The start of a part is looked at again and again. -/
private theorem step?_inside (expects : Expects point (part :: parts) values) (known : List Json)
    (inside : bytes <+: part) (proper : bytes ≠ part) (nonempty : bytes ≠ []) :
    ReadPump.step? { buffer := bytes, point, values := known } = some { buffer := bytes, point, values := known } := by
  have buffered : bytes.isEmpty = false := by simp [nonempty]
  cases expects with
  | @header _ line _ _ oneLine rest =>
    have within : bytes <+: line := by
      rcases List.prefix_concat_iff.mp inside with whole | within
      · exact absurd whole proper
      · exact within
    rw [ReadPump.step?, if_neg nofun]
    dsimp only
    rw [takeLine?_none fun found => oneLine (within.subset found)]
    dsimp only
    rw [if_neg nofun, ReadPump.waitForData, buffered]
  | body =>
    have less : bytes.length < part.length :=
      lt_of_le_of_ne inside.length_le fun same => proper (inside.eq_of_length same)
    rw [ReadPump.step?, if_neg nofun]
    dsimp only
    rw [if_pos less, if_neg nofun, ReadPump.waitForData, buffered]

/-- Without anything to read the pump waits. -/
private theorem step?_empty (expects : Expects point parts values) (known : List Json) :
    ReadPump.step? { point, values := known } = some { point, values := known, waiting := true } := by
  cases expects with
  | done => rfl
  | header => rfl
  | @body body _ _ _ nonempty =>
    have less : ([] : List UInt8).length < body.length := List.length_pos_of_ne_nil nonempty
    rw [ReadPump.step?, if_neg nofun]
    dsimp only
    rw [if_pos less]
    rfl

private theorem step?_waiting (point : ReadPoint) (known : List Json) :
    ReadPump.step? { point, values := known, waiting := true } = none := rfl

/-- Whole parts: the pump takes them and waits. -/
private theorem settles_parts (expects : Expects point (front ++ back) values) (known : List Json) :
    ∃ next taken left, Expects next back left ∧ known ++ values = taken ++ left ∧
      Settles ReadPump.step? { buffer := front.flatten, point, values := known }
        { point := next, values := taken, waiting := true } := by
  induction front generalizing point values known with
  | nil =>
    exact ⟨point, known, values, expects, rfl,
      (settles_of_step (step?_empty expects known)).mpr ((settles_of_rest (step?_waiting _ _)).mpr rfl)⟩
  | cons part front ih =>
    obtain ⟨next, taken, left, rest, same, stepped⟩ := step?_part expects known front.flatten
    obtain ⟨last, all, further, rested, equal, settles⟩ := ih rest taken
    exact ⟨last, all, further, rested, same.trans equal, (settles_of_step stepped).mpr settles⟩

/-- The start of a part behind whole ones: the pump never rests. -/
private theorem not_settles_inside (expects : Expects point parts values) (known : List Json)
    (stream : bytes <+: parts.flatten) (inside : ¬∃ front back, parts = front ++ back ∧ bytes = front.flatten)
    (rested : ReadPump) : ¬Settles ReadPump.step? { buffer := bytes, point, values := known } rested := by
  induction parts generalizing point values known bytes with
  | nil => exact absurd ⟨[], [], rfl, List.prefix_nil.mp stream⟩ inside
  | cons part parts ih =>
    have nonempty : bytes ≠ [] := fun empty => inside ⟨[], part :: parts, rfl, empty⟩
    rw [List.flatten_cons] at stream
    rcases List.prefix_or_prefix_of_prefix stream (List.prefix_append part parts.flatten) with short | long
    · have proper : bytes ≠ part := fun whole => inside ⟨[part], parts, rfl, by simp [whole]⟩
      exact not_settles_of_loop (step?_inside expects known short proper nonempty)
    · obtain ⟨more, rfl⟩ := long
      obtain ⟨next, taken, left, rest, _, stepped⟩ := step?_part expects known more
      rw [settles_of_step stepped]
      refine ih rest taken ((List.prefix_append_right_inj part).mp stream) ?_
      rintro ⟨front, back, rfl, rfl⟩
      exact inside ⟨part :: front, back, rfl, rfl⟩

/-- Whole parts at the front of a stream are told by their length. -/
private theorem front_append {others : List (List UInt8)} (nonempty : ∀ part ∈ front ++ back, part ≠ [])
    (split : ∃ back', front ++ back = others ++ back') (stream : front.flatten <+: others.flatten) :
    ∃ more, others = front ++ more := by
  obtain ⟨back', split⟩ := split
  rcases List.prefix_or_prefix_of_prefix (List.prefix_append front back) (split ▸ List.prefix_append others back')
    with within | ⟨more, rfl⟩
  · obtain ⟨more, rfl⟩ := within
    exact ⟨more, rfl⟩
  · have none_ : more.flatten = [] := by
      have := stream.length_le
      rw [List.flatten_append, List.length_append] at this
      exact List.length_eq_zero_iff.mp (by omega)
    have empty : more = [] := List.eq_nil_iff_forall_not_mem.mpr fun part found =>
      nonempty part (by simp [found]) (List.flatten_eq_nil_iff.mp none_ part found)
    exact ⟨[], by simp [empty]⟩

/-- A waiting pump gives the values of what is to come exactly when the chunks end with parts. -/
private theorem fed_iff (expects : Expects point parts values) (known : List Json) (stream : chunks.flatten = parts.flatten) :
    (∃ final, Fed ReadPump.step? ReadPump.data { point, values := known, waiting := true } chunks final ∧
        final.values = known ++ values) ↔ EndsWithParts parts chunks := by
  induction chunks generalizing point parts values known with
  | nil =>
    have parts_ : parts = [] := List.eq_nil_iff_forall_not_mem.mpr fun part found =>
      expects.nonempty part found (List.flatten_eq_nil_iff.mp stream.symm part found)
    subst parts_
    cases expects
    refine iff_of_true ⟨_, (settles_of_rest (step?_waiting _ _)).mpr rfl, (List.append_nil known).symm⟩ ?_
    intro before after split
    obtain ⟨rfl, rfl⟩ := List.append_eq_nil_iff.mp split.symm
    exact ⟨[], [], rfl, rfl⟩
  | cons chunk chunks ih =>
    have arrives (final : ReadPump) :
        Fed ReadPump.step? ReadPump.data { point, values := known, waiting := true } (chunk :: chunks) final ↔
          Fed ReadPump.step? ReadPump.data { buffer := chunk, point, values := known } chunks final := by
      constructor
      · rintro ⟨rested, settles, rest⟩
        obtain rfl := (settles_of_rest (step?_waiting _ _)).mp settles
        exact rest
      · exact fun rest => ⟨_, (settles_of_rest (step?_waiting _ _)).mpr rfl, rest⟩
    simp only [arrives]
    by_cases whole : ∃ front back, parts = front ++ back ∧ chunk = front.flatten
    · obtain ⟨front, back, rfl, rfl⟩ := whole
      obtain ⟨next, taken, left, rest, same, settles⟩ := settles_parts expects known
      have later : chunks.flatten = back.flatten := by simpa using stream
      simp only [settles.fed_iff, same]
      refine (ih rest taken later).trans ⟨fun ends => ?_, fun ends => ?_⟩
      · intro before after split
        rcases List.cons_eq_append_iff.mp split with ⟨rfl, _⟩ | ⟨before', rfl, split'⟩
        · exact ⟨[], front ++ back, rfl, rfl⟩
        · obtain ⟨front', back', rfl, equal⟩ := ends before' after split'
          exact ⟨front ++ front', back', (List.append_assoc _ _ _).symm, by simp [equal]⟩
      · intro before after split
        obtain ⟨others, back', parts_, equal⟩ := ends (front.flatten :: before) after (congrArg (front.flatten :: ·) split)
        obtain ⟨more, rfl⟩ := front_append expects.nonempty ⟨back', parts_⟩ (equal ▸ List.prefix_append _ _)
        rw [List.append_assoc] at parts_
        exact ⟨more, back', List.append_cancel_left parts_, by simpa using equal⟩
    · refine iff_of_false (fun ⟨final, fed, _⟩ => ?_) fun ends => ?_
      · have front : chunk <+: parts.flatten := stream ▸ List.prefix_append chunk chunks.flatten
        exact not_fed_of_not_settles (not_settles_inside expects known front whole) fed
      · obtain ⟨front, back, parts_, equal⟩ := ends [chunk] chunks rfl
        exact whole ⟨front, back, parts_, by simpa using equal⟩

end Pump

/-- For every list of well-formed frames and every way to cut their bytes into chunks: the pump comes to rest before
every chunk and behind the last, and has then read the frames in order, exactly when every chunk ends behind a header
line, behind a header or behind a body. -/
theorem read_pump_iff (frames : List LspFrame) {chunks : List (List UInt8)}
    (stream : chunks.flatten = (frames.flatMap LspFrame.parts).flatten) :
    (∃ final, Fed ReadPump.step? ReadPump.data {} chunks final ∧ final.values = frames.map LspFrame.value) ↔
      EndsWithParts (frames.flatMap LspFrame.parts) chunks := by
  have expects := expects_frames frames
  have waits : Settles ReadPump.step? {} { waiting := true } :=
    (settles_of_step (step?_empty expects [])).mpr ((settles_of_rest (step?_waiting _ _)).mpr rfl)
  simp only [waits.fed_iff]
  exact fed_iff expects [] stream

/-- A frame whose body is `true`. -/
private def shortFrame : LspFrame where
  before := []
  after := []
  body := encodeUtf8 "true".toList
  value := .bool true
  parses := rfl

/-- The header in two chunks that end with its lines, and the body. -/
theorem shortFrame_read : ∃ final, Fed ReadPump.step? ReadPump.data {} shortFrame.parts final ∧
    final.values = [.bool true] := by
  have ends : EndsWithParts ([shortFrame].flatMap LspFrame.parts) shortFrame.parts := fun before after split =>
    ⟨before, after, by simpa using split, rfl⟩
  exact (read_pump_iff [shortFrame] (by simp)).mpr ends

/-- The frame in two chunks that end inside of its body: the pump never rests between them. -/
theorem shortFrame_spins :
    let chunks := [encodeUtf8 "Content-Length: 4\r\n\r\ntr".toList, encodeUtf8 "ue".toList]
    chunks.flatten = ([shortFrame].flatMap LspFrame.parts).flatten ∧
      ¬∃ final, Fed ReadPump.step? ReadPump.data {} chunks final ∧ final.values = [.bool true] := by
  refine ⟨by decide, ?_⟩
  rintro ⟨final, ⟨rested, settles, again, settles', _⟩, _⟩
  have waits : ReadPump.step? {} = some { waiting := true } := rfl
  obtain rfl := ((settles_of_step waits).trans (settles_of_rest rfl)).mp settles
  have line : ReadPump.step? { buffer := encodeUtf8 "Content-Length: 4\r\n\r\ntr".toList } =
    some { buffer := encodeUtf8 "\r\ntr".toList, point := .readLine (some 4) } := by decide
  have blank : ReadPump.step? { buffer := encodeUtf8 "\r\ntr".toList, point := .readLine (some 4) } =
    some { buffer := encodeUtf8 "tr".toList, point := .readExact 4 } := by decide
  have loops : ReadPump.step? { buffer := encodeUtf8 "tr".toList, point := .readExact 4 } =
    some { buffer := encodeUtf8 "tr".toList, point := .readExact 4 } := by decide
  exact not_settles_of_loop loops ((settles_of_step blank).mp ((settles_of_step line).mp settles'))

end PieAgent.Soundness
