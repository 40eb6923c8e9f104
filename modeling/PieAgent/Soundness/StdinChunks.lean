import PieAgent.Model.Tui.StdinBuffer

/-! # Chunks of terminal input

A reader that sees one code unit at a time says what an input means. Chunks of several code units are cut with a look
ahead that single code units do not allow: at two escapes before the start of a sequence, and at a paste marker whose
first code units end a sequence of their own. Inputs without such a place, and only these, give the same events however
they are cut.
-/

namespace PieAgent.Soundness.StdinChunks

open JavaScript Framing Model.Tui

variable {pending content text rest front back sequence : JsString} {unit : CodeUnit} {kitty : Option ℕ}

inductive Token where
  | sequence (sequence : JsString)
  | pasteStart
  | paste (content : JsString)

/-- What has been read of the next sequence, or of a paste. -/
inductive Reading where
  | keys (pending : JsString)
  | pasting (content : JsString)

/-- Nothing that follows the sequence changes it, if it is seen at once. -/
def Unsplit (sequence rest : JsString) : Prop :=
  (sequence = [esc, esc] → ∀ unit ∈ rest.head?, unit ∉ introducers) ∧
    ∀ front back, front ++ back = bracketedPasteStart → front ≠ [] → back ≠ [] → front <:+ sequence → ¬back <+: rest

namespace Reading

/-- Read one code unit. -/
def read : Reading → CodeUnit → Reading × Option Token
  | keys pending, unit =>
    if bracketedPasteStart <:+ pending ++ [unit] then (pasting [], some .pasteStart)
    else if isCompleteSequence (pending ++ [unit]) = .incomplete then (keys (pending ++ [unit]), none)
    else (keys [], some (.sequence (pending ++ [unit])))
  | pasting content, unit =>
    if bracketedPasteEnd <:+ content ++ [unit] then
      (keys [], some (.paste ((content ++ [unit]).take (content.length + 1 - bracketedPasteEnd.length))))
    else (pasting (content ++ [unit]), none)

def readAll : Reading → JsString → Reading × List Token
  | reading, [] => (reading, [])
  | reading, unit :: text =>
    (((reading.read unit).1.readAll text).1, (reading.read unit).2.toList ++ ((reading.read unit).1.readAll text).2)

/-- No sequence of the text changes with what follows it. -/
def ReadsAlike : Reading → JsString → Prop
  | _, [] => True
  | reading, unit :: text =>
    (∀ sequence, (reading.read unit).2 = some (.sequence sequence) → Unsplit sequence text) ∧
      (reading.read unit).1.ReadsAlike text

end Reading

section Sequences

theorem Unsplit.of_append {more : JsString} (unsplit : Unsplit sequence (rest ++ more)) : Unsplit sequence rest := by
  refine ⟨fun same unit first => unsplit.1 same unit ?_, fun front back whole some_ some' last => ?_⟩
  · rw [List.head?_append, Option.mem_def.mp first]
    rfl
  · exact fun first => unsplit.2 front back whole some_ some' last (first.trans (List.prefix_append _ _))

/-- All of it waits for more. -/
def Pending (pending : JsString) : Prop :=
  ∀ front, front <+: pending → front ≠ [] → isCompleteSequence front = .incomplete

theorem pending_nil : Pending [] := fun _ inside some_ => absurd (List.prefix_nil.mp inside) some_

theorem Pending.shorter (waits : Pending pending) (inside : front <+: pending) : Pending front :=
  fun _ inside' => waits _ (inside'.trans inside)

theorem Pending.concat (waits : Pending pending) (incomplete : isCompleteSequence (pending ++ [unit]) = .incomplete) :
    Pending (pending ++ [unit]) := by
  intro front inside some_
  rcases List.prefix_concat_iff.mp inside with rfl | inside
  · exact incomplete
  · exact waits front inside some_

theorem Pending.head? (waits : Pending (unit :: pending)) : unit = esc := by
  have first := waits [unit] ⟨pending, rfl⟩ (List.cons_ne_nil _ _)
  by_contra other
  rw [isCompleteSequence, if_pos] at first
  · cases first
  · exact fun same => other (Option.some.inj same)

theorem scanSequence_nil (incomplete : isCompleteSequence front = .incomplete) : scanSequence front [] = none := by
  rw [scanSequence, incomplete]

theorem scanSequence_cons (incomplete : isCompleteSequence front = .incomplete) :
    scanSequence front (unit :: rest) = scanSequence (front ++ [unit]) rest := by
  rw [scanSequence, incomplete]

theorem scanSequence_complete (complete : isCompleteSequence front ≠ .incomplete) (rest : JsString) :
    scanSequence front rest = some (front, rest) ∨ front = [esc, esc] ∧ scanSequence front rest = some ([esc], esc :: rest) ∧
      ∃ next ∈ rest.head?, next ∈ introducers := by
  rw [scanSequence.eq_def]
  cases status : isCompleteSequence front with
  | incomplete => exact absurd status complete
  | notEscape => exact .inl rfl
  | complete =>
    by_cases two : front = [esc, esc] ∧ ∃ next ∈ rest.head?, next ∈ introducers
    · exact .inr ⟨two.1, if_pos two, two.2⟩
    · exact .inl (if_neg two)

/-- What waits is looked at no further. -/
theorem scanSequence_append (waits : Pending (front ++ back)) (some_ : front ≠ []) :
    scanSequence front (back ++ rest) = scanSequence (front ++ back) rest := by
  induction back generalizing front with
  | nil => rw [List.append_nil, List.nil_append]
  | cons unit back ih =>
    have first := waits front (List.prefix_append _ _) some_
    have same : front ++ unit :: back = (front ++ [unit]) ++ back := List.append_cons ..
    rw [List.cons_append, scanSequence_cons first, same]
    exact ih (same ▸ waits) (List.append_ne_nil_of_right_ne_nil _ (List.cons_ne_nil _ _))

theorem takeSequence?_of_pending (waits : Pending pending) (some_ : pending ≠ []) (rest : JsString) :
    takeSequence? (pending ++ rest) = scanSequence pending rest := by
  cases pending with
  | nil => exact absurd rfl some_
  | cons unit pending =>
    obtain rfl := waits.head?
    rw [List.cons_append, takeSequence?, if_pos rfl]
    exact scanSequence_append waits (List.cons_ne_nil _ _)

theorem takeSequence?_pending (waits : Pending pending) : takeSequence? pending = none := by
  by_cases some_ : pending = []
  · rw [some_, takeSequence?]
  · have taken := takeSequence?_of_pending waits some_ []
    rw [List.append_nil, scanSequence_nil (waits pending (List.prefix_refl _) some_)] at taken
    exact taken

/-- A sequence is taken as soon as it is complete, unless what follows changes it. -/
theorem takeSequence?_complete (waits : Pending pending) (unsplit : Unsplit (pending ++ [unit]) rest)
    (complete : isCompleteSequence (pending ++ [unit]) ≠ .incomplete) :
    takeSequence? (pending ++ unit :: rest) = some (pending ++ [unit], rest) := by
  by_cases some_ : pending = []
  · rw [some_, List.nil_append] at complete ⊢
    have other : unit ≠ esc := by
      rintro rfl
      exact complete rfl
    rw [List.nil_append, takeSequence?, if_neg other]
  · rw [takeSequence?_of_pending waits some_, scanSequence_cons (waits pending (List.prefix_refl _) some_)]
    rcases scanSequence_complete complete rest with taken | ⟨same, -, next, first, starts⟩
    · exact taken
    · exact absurd starts (unsplit.1 same next first)

private theorem length_of_complete (complete : isCompleteSequence sequence ≠ .incomplete) (some_ : sequence ≠ [])
    (scanned : scanSequence sequence text = some (front, rest)) : rest.length < sequence.length + text.length := by
  have length := List.length_pos_of_ne_nil some_
  rcases scanSequence_complete complete text with taken | ⟨rfl, taken, -⟩
  · rw [taken] at scanned
    cases scanned
    omega
  · rw [taken] at scanned
    cases scanned
    rw [List.length_cons, List.length_cons, List.length_singleton]
    omega

private theorem length_scanSequence (some_ : sequence ≠ []) (scanned : scanSequence sequence text = some (front, rest)) :
    rest.length < sequence.length + text.length := by
  induction text generalizing sequence with
  | nil =>
    by_cases incomplete : isCompleteSequence sequence = .incomplete
    · rw [scanSequence_nil incomplete] at scanned
      cases scanned
    · exact length_of_complete incomplete some_ scanned
  | cons unit text ih =>
    by_cases incomplete : isCompleteSequence sequence = .incomplete
    · rw [scanSequence_cons incomplete] at scanned
      have less := ih (List.append_ne_nil_of_right_ne_nil _ (List.cons_ne_nil _ _)) scanned
      rw [List.length_append, List.length_singleton] at less
      rw [List.length_cons]
      omega
    · exact length_of_complete incomplete some_ scanned

theorem shortens_takeSequence? : Shortens takeSequence? where
  shorter {text sequence rest} taken := by
    cases text with
    | nil => cases taken
    | cons unit text =>
      rw [takeSequence?] at taken
      split_ifs at taken with escape
      · have less := length_scanSequence (List.cons_ne_nil _ _) taken
        rw [List.length_singleton] at less
        rw [List.length_cons]
        omega
      · cases taken
        exact Nat.lt_succ_self _

end Sequences

section Units

variable {reading : Reading}

open Reading

theorem readAll_append (reading : Reading) (front back : JsString) :
    reading.readAll (front ++ back) = (((reading.readAll front).1.readAll back).1,
      (reading.readAll front).2 ++ ((reading.readAll front).1.readAll back).2) := by
  induction front generalizing reading with
  | nil => rfl
  | cons unit front ih => rw [List.cons_append, readAll, readAll, ih, List.append_assoc]

theorem readsAlike_append (alike : reading.ReadsAlike (front ++ back)) :
    reading.ReadsAlike front ∧ (reading.readAll front).1.ReadsAlike back := by
  induction front generalizing reading with
  | nil => exact ⟨trivial, alike⟩
  | cons unit front ih =>
    have rest := ih alike.2
    exact ⟨⟨fun sequence same => (alike.1 sequence same).of_append, rest.1⟩, rest.2⟩

/-- What a reader keeps is neither a sequence nor a marker. -/
def Waits : Reading → Prop
  | keys pending => Pending pending ∧ ¬bracketedPasteStart <:+: pending
  | pasting content => ¬bracketedPasteEnd <:+: content

theorem pasteStart_ne : bracketedPasteStart ≠ [] := List.cons_ne_nil _ _

theorem pasteEnd_ne : bracketedPasteEnd ≠ [] := List.cons_ne_nil _ _

theorem waits_keys : Waits (keys []) := ⟨pending_nil, by decide⟩

theorem infix_concat {needle : JsString} (absent : ¬needle <:+: text) (absent' : ¬needle <:+ text ++ [unit]) :
    ¬needle <:+: text ++ [unit] := fun inside => (List.infix_concat_iff.mp inside).elim absent' absent

theorem waits_pasting : Waits (pasting []) := (by decide : ¬bracketedPasteEnd <:+: [])

theorem Waits.read (waits : Waits reading) (unit : CodeUnit) : Waits (reading.read unit).1 := by
  cases reading with
  | keys pending =>
    rw [Reading.read]
    split_ifs with starts incomplete
    · exact waits_pasting
    · exact ⟨waits.1.concat incomplete, infix_concat waits.2 starts⟩
    · exact waits_keys
  | pasting content =>
    rw [Reading.read]
    split_ifs with ends
    · exact waits_keys
    · exact infix_concat waits ends

theorem Waits.readAll (waits : Waits reading) (text : JsString) : Waits (reading.readAll text).1 := by
  induction text generalizing reading with
  | nil => exact waits
  | cons unit text ih => exact ih (waits.read unit)

/-- Without a paste marker the sequences are the ones that are read. -/
theorem readAll_keys (waits : Pending pending) (absent : ¬bracketedPasteStart <:+: pending ++ text)
    (alike : (keys pending).ReadsAlike text) :
    (keys pending).readAll text = (keys (extractCompleteSequences (pending ++ text)).2,
        (extractCompleteSequences (pending ++ text)).1.map .sequence) ∧
      Pending (extractCompleteSequences (pending ++ text)).2 ∧
      (extractCompleteSequences (pending ++ text)).2 <:+ pending ++ text := by
  induction text generalizing pending with
  | nil =>
    rw [List.append_nil, extractCompleteSequences, frames_of_none (takeSequence?_pending waits)]
    exact ⟨rfl, waits, List.suffix_refl _⟩
  | cons unit text ih =>
    have starts : ¬bracketedPasteStart <:+ pending ++ [unit] := by
      intro starts
      refine absent ?_
      rw [List.append_cons]
      exact List.infix_append_of_infix_left starts.isInfix
    by_cases incomplete : isCompleteSequence (pending ++ [unit]) = .incomplete
    · have read : (keys pending).read unit = (keys (pending ++ [unit]), none) := by
        rw [Reading.read, if_neg starts, if_pos incomplete]
      rw [List.append_cons] at absent ⊢
      rw [Reading.readAll, read]
      rw [ReadsAlike, read] at alike
      exact ih (waits.concat incomplete) absent alike.2
    · have read : (keys pending).read unit = (keys [], some (.sequence (pending ++ [unit]))) := by
        rw [Reading.read, if_neg starts, if_neg incomplete]
      rw [Reading.readAll, read]
      rw [ReadsAlike, read] at alike
      have rest : ¬bracketedPasteStart <:+: [] ++ text := by
        intro inside
        exact absent (inside.trans ⟨pending ++ [unit], [], by simp⟩)
      obtain ⟨same, waits', inside⟩ := ih pending_nil rest alike.2
      rw [List.nil_append] at same waits' inside
      rw [extractCompleteSequences, frames_of_some shortens_takeSequence?
        (takeSequence?_complete waits (alike.1 _ rfl) incomplete), same]
      refine ⟨rfl, waits', inside.trans ?_⟩
      rw [List.append_cons]
      exact List.suffix_append _ _

/-- A paste marker that no sequence cuts is read as one. -/
theorem readAll_pasteStart (first : ¬bracketedPasteStart <:+: (pending ++ bracketedPasteStart).dropLast)
    (whole : front ++ back = bracketedPasteStart) (some_ : back ≠ []) (waits : Pending (pending ++ front))
    (alike : (keys (pending ++ front)).ReadsAlike back) :
    (keys (pending ++ front)).readAll back = (pasting [], [.pasteStart]) := by
  induction back generalizing front with
  | nil => exact absurd rfl some_
  | cons unit back ih =>
    have whole' : (front ++ [unit]) ++ back = bracketedPasteStart :=
      (List.append_cons ..).symm.trans whole
    cases back with
    | nil =>
      have starts : bracketedPasteStart <:+ pending ++ front ++ [unit] := by
        rw [← whole, List.append_assoc]
        exact List.suffix_append _ _
      rw [Reading.readAll, Reading.read, if_pos starts]
      rfl
    | cons next back =>
      have inside : pending ++ front ++ [unit] <+: (pending ++ bracketedPasteStart).dropLast := by
        rw [← whole', ← List.append_assoc, ← List.append_assoc,
          List.dropLast_append_of_ne_nil (List.cons_ne_nil _ _)]
        exact List.prefix_append _ _
      have starts : ¬bracketedPasteStart <:+ pending ++ front ++ [unit] :=
        fun starts => first (starts.isInfix.trans inside.isInfix)
      by_cases incomplete : isCompleteSequence (pending ++ front ++ [unit]) = .incomplete
      · have read : (keys (pending ++ front)).read unit = (keys (pending ++ (front ++ [unit])), none) := by
          rw [Reading.read, if_neg starts, if_pos incomplete, List.append_assoc]
        rw [Reading.readAll, read]
        rw [ReadsAlike, read] at alike
        have waits' := waits.concat incomplete
        rw [List.append_assoc] at waits'
        exact ih whole' (List.cons_ne_nil _ _) waits' alike.2
      · have read : (keys (pending ++ front)).read unit = (keys [], some (.sequence (pending ++ front ++ [unit]))) := by
          rw [Reading.read, if_neg starts, if_neg incomplete]
        rw [ReadsAlike, read] at alike
        have unsplit := (alike.1 _ rfl).2 (front ++ [unit]) (next :: back) whole'
          (List.append_ne_nil_of_right_ne_nil _ (List.cons_ne_nil _ _)) (List.cons_ne_nil _ _)
        rw [List.append_assoc] at unsplit
        exact absurd (List.prefix_refl _) (unsplit (List.suffix_append _ _))

theorem readAll_pasting (absent : ¬bracketedPasteEnd <:+: content ++ text) :
    (pasting content).readAll text = (pasting (content ++ text), []) := by
  induction text generalizing content with
  | nil => rw [List.append_nil, Reading.readAll]
  | cons unit text ih =>
    rw [List.append_cons] at absent ⊢
    have ends : ¬bracketedPasteEnd <:+ content ++ [unit] :=
      fun ends => absent (List.infix_append_of_infix_left ends.isInfix)
    have read : (pasting content).read unit = (pasting (content ++ [unit]), none) := by
      rw [Reading.read, if_neg ends]
    rw [Reading.readAll, read, ih absent]
    rfl

/-- A paste is read to the first marker of its end. -/
theorem readAll_paste {paste : JsString} (waits : ¬bracketedPasteEnd <:+: content)
    (ended : cut? bracketedPasteEnd (content ++ text) = some (paste, rest)) :
    ∃ first, text = first ++ rest ∧ (pasting content).readAll first = (keys [], [.paste paste]) := by
  induction text generalizing content with
  | nil =>
    rw [List.append_nil] at ended
    have whole := eq_of_cut? ended
    exact absurd ⟨paste, rest, whole.symm⟩ waits
  | cons unit text ih =>
    by_cases ends : bracketedPasteEnd <:+ content ++ [unit]
    · obtain ⟨paste', whole⟩ := ends
      have cut : cut? bracketedPasteEnd (content ++ unit :: text) = some (paste', text) := by
        refine (cut?_eq_some pasteEnd_ne).mpr ⟨?_, ?_⟩
        · rw [whole, List.append_cons]
        · rw [whole, List.dropLast_concat]
          exact waits
      rw [cut] at ended
      cases ended
      refine ⟨[unit], rfl, ?_⟩
      have length : content.length + 1 - bracketedPasteEnd.length = paste.length := by
        have length := congrArg List.length whole
        rw [List.length_append, List.length_append, List.length_singleton] at length
        omega
      rw [Reading.readAll, Reading.read, if_pos ⟨paste, whole⟩, length, ← whole, List.take_left]
      rfl
    · rw [List.append_cons] at ended
      obtain ⟨first, rfl, read⟩ := ih (infix_concat waits ends) ended
      refine ⟨unit :: first, rfl, ?_⟩
      have step : (pasting content).read unit = (pasting (content ++ [unit]), none) := by
        rw [Reading.read, if_neg ends]
      rw [Reading.readAll, step, read]
      rfl

end Units

section Events

variable {reading : Reading} {fuel : ℕ}

open Reading

/-- A sequence may be left out as the second report of a key. -/
def Token.emit (kitty : Option ℕ) : Token → Option ℕ × List InputEvent
  | .sequence sequence =>
    let (stdin, events) := ({ pendingKittyPrintableCodepoint := kitty } : StdinBuffer).emitDataSequence sequence
    (stdin.pendingKittyPrintableCodepoint, events)
  | .pasteStart => (none, [])
  | .paste content => (none, [.paste content])

def emitAll (kitty : Option ℕ) : List Token → Option ℕ × List InputEvent
  | [] => (kitty, [])
  | token :: tokens =>
    ((emitAll (token.emit kitty).1 tokens).1, (token.emit kitty).2 ++ (emitAll (token.emit kitty).1 tokens).2)

theorem emitAll_append (kitty : Option ℕ) (front back : List Token) :
    emitAll kitty (front ++ back) = ((emitAll (emitAll kitty front).1 back).1,
      (emitAll kitty front).2 ++ (emitAll (emitAll kitty front).1 back).2) := by
  induction front generalizing kitty with
  | nil => rfl
  | cons token front ih => rw [List.cons_append, emitAll, emitAll, ih, List.append_assoc]

theorem emitDataSequence_eq (stdin : StdinBuffer) (sequence : JsString) :
    stdin.emitDataSequence sequence = ({ stdin with
      pendingKittyPrintableCodepoint := ((Token.sequence sequence).emit stdin.pendingKittyPrintableCodepoint).1 },
      ((Token.sequence sequence).emit stdin.pendingKittyPrintableCodepoint).2) := by
  simp only [Token.emit, StdinBuffer.emitDataSequence]
  split_ifs <;> rfl

theorem emitDataSequences_eq (stdin : StdinBuffer) (sequences : List JsString) :
    stdin.emitDataSequences sequences = ({ stdin with
      pendingKittyPrintableCodepoint := (emitAll stdin.pendingKittyPrintableCodepoint (sequences.map .sequence)).1 },
      (emitAll stdin.pendingKittyPrintableCodepoint (sequences.map .sequence)).2) := by
  induction sequences generalizing stdin with
  | nil => rfl
  | cons sequence sequences ih =>
    rw [StdinBuffer.emitDataSequences, emitDataSequence_eq]
    simp only [ih, List.map_cons, emitAll]

/-- The buffer of a reader. -/
def toStdin (kitty : Option ℕ) : Reading → StdinBuffer
  | keys pending => { buffer := pending, pendingKittyPrintableCodepoint := kitty }
  | pasting content => { pasteMode := true, pasteBuffer := content, pendingKittyPrintableCodepoint := kitty }

def size : Reading → ℕ
  | keys pending => pending.length
  | pasting content => content.length

/-- What a reader makes of a text, as the buffer has it. -/
def readEvents (kitty : Option ℕ) (reading : Reading) (text : JsString) : StdinBuffer × List InputEvent :=
  (toStdin (emitAll kitty (reading.readAll text).2).1 (reading.readAll text).1,
    (emitAll kitty (reading.readAll text).2).2)

theorem readEvents_of_readAll {tokens : List Token} {final : Reading} (read : reading.readAll text = (final, tokens)) :
    readEvents kitty reading text = (toStdin (emitAll kitty tokens).1 final, (emitAll kitty tokens).2) := by
  rw [readEvents, read]

theorem readEvents_append (kitty : Option ℕ) (reading : Reading) (front back : JsString) :
    readEvents kitty reading (front ++ back) =
      ((readEvents (emitAll kitty (reading.readAll front).2).1 (reading.readAll front).1 back).1,
        (readEvents kitty reading front).2 ++
          (readEvents (emitAll kitty (reading.readAll front).2).1 (reading.readAll front).1 back).2) := by
  rw [readEvents, readAll_append, emitAll_append]
  rfl

/-- Chunks are processed as they are read, with this much fuel. -/
def Reads (fuel : ℕ) : Prop :=
  ∀ {reading kitty text}, Waits reading → text ≠ [] → reading.ReadsAlike text → size reading + text.length < fuel →
    StdinBuffer.processWith fuel (toStdin kitty reading) text = readEvents kitty reading text

theorem finishPaste_eq (reads : Reads fuel) (waits : Waits (pasting content)) (alike : (pasting content).ReadsAlike text)
    (enough : content.length + text.length ≤ fuel) :
    (toStdin kitty (pasting (content ++ text))).finishPaste (StdinBuffer.processWith fuel) =
      readEvents kitty (pasting content) text := by
  rw [StdinBuffer.finishPaste, toStdin]
  cases ended : cut? bracketedPasteEnd (content ++ text) with
  | none => exact (readEvents_of_readAll (readAll_pasting (cut?_eq_none.mp ended))).symm
  | some found =>
    obtain ⟨paste, rest⟩ := found
    obtain ⟨first, rfl, read⟩ := readAll_paste waits ended
    have rest_ := (readsAlike_append alike).2
    rw [read] at rest_
    rw [readEvents_append, readEvents_of_readAll read, read]
    by_cases more : rest = []
    · rw [more]
      rfl
    · have shorter := congrArg List.length (eq_of_cut? ended)
      simp only [List.length_append] at shorter enough
      have some_ := List.length_pos_of_ne_nil pasteEnd_ne
      have enough' : size (keys []) + rest.length < fuel := by
        rw [size, List.length_nil]
        omega
      have again : StdinBuffer.processWith fuel (toStdin none (keys [])) rest = readEvents none (keys []) rest :=
        reads waits_keys more rest_ enough'
      rw [toStdin] at again
      simp only [if_neg more, again]
      rfl

theorem emitAll_concat (kitty : Option ℕ) (tokens : List Token) (token : Token) :
    emitAll kitty (tokens ++ [token]) = ((token.emit (emitAll kitty tokens).1).1,
      (emitAll kitty tokens).2 ++ (token.emit (emitAll kitty tokens).1).2) := by
  rw [emitAll_append, emitAll, emitAll, List.append_nil]

private theorem dropLast_append_of_ne (some_ : back ≠ []) (front : JsString) :
    (front ++ back).dropLast = front ++ back.dropLast :=
  List.dropLast_append_of_ne_nil some_

/-- The sequences before a paste marker, and the marker. -/
theorem readAll_beforePaste (waits : Waits (keys pending)) (alike : (keys pending).ReadsAlike text)
    (cut : cut? bracketedPasteStart (pending ++ text) = some (front, back)) :
    ∃ first, text = first ++ back ∧ (keys pending).readAll first =
      (pasting [], (extractCompleteSequences front).1.map .sequence ++ [Token.pasteStart]) := by
  obtain ⟨whole, first⟩ := (cut?_eq_some pasteStart_ne).mp cut
  rw [dropLast_append_of_ne pasteStart_ne] at first
  rw [List.append_assoc] at whole
  rcases List.append_eq_append_iff.mp whole with ⟨more, rfl, rfl⟩ | ⟨marker, rfl, more_⟩
  · have absent : ¬bracketedPasteStart <:+: pending ++ more :=
      fun inside => first (List.infix_append_of_infix_left inside)
    have alike' := readsAlike_append alike
    obtain ⟨read, waits', inside⟩ := readAll_keys waits.1 absent alike'.1
    rw [read] at alike'
    rw [extractCompleteSequences] at *
    generalize (frames takeSequence? (pending ++ more)).2 = kept at *
    have first' : ¬bracketedPasteStart <:+: (kept ++ bracketedPasteStart).dropLast := by
      intro inside'
      rw [dropLast_append_of_ne pasteStart_ne] at inside'
      obtain ⟨before, same⟩ := inside
      refine first (inside'.trans ?_)
      rw [← same, List.append_assoc]
      exact (List.suffix_append _ _).isInfix
    have kept_ : kept ++ [] = kept := List.append_nil _
    have marker : (keys (kept ++ [])).readAll bracketedPasteStart = (pasting [], [.pasteStart]) :=
      readAll_pasteStart first' rfl pasteStart_ne (kept_.symm ▸ waits') (kept_.symm ▸ (readsAlike_append alike'.2).1)
    rw [kept_] at marker
    refine ⟨more ++ bracketedPasteStart, (List.append_assoc ..).symm, ?_⟩
    rw [readAll_append, read, marker]
  · rcases List.append_eq_append_iff.mp more_ with ⟨more, rfl, -⟩ | ⟨rest, marker_, rfl⟩
    · exact absurd ⟨front, more, List.append_assoc ..⟩ waits.2
    · have some_ : rest ≠ [] := by
        rintro rfl
        rw [List.append_nil] at marker_
        exact waits.2 (marker_ ▸ (List.suffix_append _ _).isInfix)
      rw [← dropLast_append_of_ne pasteStart_ne] at first
      refine ⟨rest, rfl, ?_⟩
      rw [readAll_pasteStart first marker_.symm some_ waits.1 (readsAlike_append alike).1, extractCompleteSequences,
        frames_of_none (takeSequence?_pending (waits.1.shorter (List.prefix_append _ _)))]
      rfl

/-- Chunks are processed as they are read. -/
theorem processWith_eq (fuel : ℕ) : Reads fuel := by
  induction fuel with
  | zero => exact fun _ _ _ none_ => absurd none_ (Nat.not_lt_zero _)
  | succ fuel ih =>
    intro reading kitty text waits some_ alike enough
    cases reading with
    | keys pending =>
      rw [toStdin, StdinBuffer.processWith, if_neg (fun none_ => some_ none_.1), if_neg Bool.false_ne_true]
      cases cut : cut? bracketedPasteStart (pending ++ text) with
      | none =>
        have read := (readAll_keys waits.1 (cut?_eq_none.mp cut) alike).1
        simp only [emitDataSequences_eq]
        exact (readEvents_of_readAll read).symm
      | some found =>
        obtain ⟨front, back⟩ := found
        obtain ⟨first, rfl, read⟩ := readAll_beforePaste waits alike cut
        have rest := (readsAlike_append alike).2
        rw [read] at rest
        rw [List.length_append, size] at enough
        have enough' : ([] : JsString).length + back.length ≤ fuel := by
          rw [List.length_nil]
          omega
        have finished : (toStdin none (pasting ([] ++ back))).finishPaste (StdinBuffer.processWith fuel) =
            readEvents none (pasting []) back := finishPaste_eq ih waits_pasting rest enough'
        rw [toStdin, List.nil_append] at finished
        simp only [emitDataSequences_eq, finished]
        rw [readEvents_append, readEvents_of_readAll read, read, emitAll_concat]
        simp only [Token.emit, List.append_nil]
    | pasting content =>
      rw [toStdin, StdinBuffer.processWith, if_neg (fun none_ => some_ none_.1), if_pos rfl]
      have enough' : content.length + text.length ≤ fuel := Nat.le_of_lt_succ enough
      exact finishPaste_eq ih waits alike enough'

end Events

section Splittings

variable {reading : Reading} {pieces pieces' : List JsString}

open Reading

/-- A way of cutting a text into chunks. -/
structure Splits (text : JsString) (pieces : List JsString) : Prop where
  whole : pieces.flatten = text
  nonempty : ∀ piece ∈ pieces, piece ≠ []

theorem Splits.cons (splits : Splits text pieces) (some_ : front ≠ []) : Splits (front ++ text) (front :: pieces) where
  whole := by rw [List.flatten_cons, splits.whole]
  nonempty := List.forall_mem_cons.mpr ⟨some_, splits.nonempty⟩

/-- Both ways of cutting the text give the same events and leave the same in the buffer. -/
def Agree (stdin : StdinBuffer) (pieces pieces' : List JsString) : Prop :=
  (stdin.processAll pieces).2 = (stdin.processAll pieces').2 ∧
    (stdin.processAll pieces).1.buffer = (stdin.processAll pieces').1.buffer ∧
    (stdin.processAll pieces).1.pasteBuffer = (stdin.processAll pieces').1.pasteBuffer

theorem process_eq (waits : Waits reading) (some_ : text ≠ []) (alike : reading.ReadsAlike text) :
    (toStdin kitty reading).process text = readEvents kitty reading text := by
  refine processWith_eq _ waits some_ alike ?_
  cases reading <;> simp [toStdin, size]

theorem processAll_cons (stdin : StdinBuffer) (piece : JsString) (pieces : List JsString) :
    stdin.processAll (piece :: pieces) = (((stdin.process piece).1.processAll pieces).1,
      (stdin.process piece).2 ++ ((stdin.process piece).1.processAll pieces).2) := rfl

theorem processAll_eq (waits : Waits reading) (nonempty : ∀ piece ∈ pieces, piece ≠ [])
    (alike : reading.ReadsAlike pieces.flatten) :
    (toStdin kitty reading).processAll pieces = readEvents kitty reading pieces.flatten := by
  induction pieces generalizing reading kitty with
  | nil => rfl
  | cons piece pieces ih =>
    rw [List.flatten_cons] at alike ⊢
    have alike' := readsAlike_append alike
    rw [processAll_cons, process_eq waits (nonempty piece List.mem_cons_self) alike'.1, readEvents_append, readEvents,
      ih (waits.readAll piece) (fun other member => nonempty other (List.mem_cons_of_mem _ member)) alike'.2]

theorem unsplit_nil : Unsplit sequence [] :=
  ⟨fun _ _ first => (nomatch first), fun _ _ _ _ some_ _ inside => some_ (List.prefix_nil.mp inside)⟩

theorem readsAlike_singleton (reading : Reading) (unit : CodeUnit) : reading.ReadsAlike [unit] :=
  ⟨fun _ _ => unsplit_nil, trivial⟩

def units (text : JsString) : List JsString := text.map fun unit => [unit]

theorem splits_units (text : JsString) : Splits text (units text) where
  whole := by
    induction text with
    | nil => rfl
    | cons unit text ih =>
      rw [units] at ih
      rw [units, List.map_cons, List.flatten_cons, ih, List.singleton_append]
  nonempty piece member := by
    obtain ⟨unit, -, rfl⟩ := List.mem_map.mp member
    exact List.cons_ne_nil _ _

/-- Single code units are processed as they are read. -/
theorem processAll_units (waits : Waits reading) (text : JsString) :
    (toStdin kitty reading).processAll (units text) = readEvents kitty reading text := by
  induction text generalizing reading kitty with
  | nil => rfl
  | cons unit text ih =>
    have step : (toStdin kitty reading).process [unit] = readEvents kitty reading [unit] :=
      process_eq waits (List.cons_ne_nil _ _) (readsAlike_singleton reading unit)
    have whole := readEvents_append kitty reading [unit] text
    rw [List.singleton_append] at whole
    rw [units, List.map_cons, processAll_cons, step, whole, ← units, readEvents, ih (waits.readAll [unit])]

/-- A key that has been reported is a printable one. -/
def Printable (kitty : Option ℕ) : Prop := ∀ codepoint ∈ kitty, 32 ≤ codepoint

theorem printable_parse (sequence : JsString) : Printable (parseUnmodifiedKittyPrintableCodepoint sequence) := by
  intro codepoint found
  simp only [parseUnmodifiedKittyPrintableCodepoint, Option.mem_def] at found
  split_ifs at found with _ matched
  exact Option.some.inj found ▸ matched.2

theorem printable_emit (kitty : Option ℕ) (token : Token) : Printable (token.emit kitty).1 := by
  cases token with
  | sequence sequence =>
    simp only [Token.emit, StdinBuffer.emitDataSequence]
    split_ifs
    · nofun
    · exact printable_parse sequence
  | pasteStart => nofun
  | paste content => nofun

theorem Printable.emitAll (printable : Printable kitty) (tokens : List Token) : Printable (emitAll kitty tokens).1 := by
  induction tokens generalizing kitty with
  | nil => exact printable
  | cons token tokens ih => exact ih (printable_emit kitty token)

/-- A sequence that is no single code unit is emitted. -/
theorem emit_of_length (kitty : Option ℕ) (sequence : JsString) (long : sequence.length ≠ 1) :
    ((Token.sequence sequence).emit kitty).2 = [.data sequence] := by
  match sequence, long with
  | [], _ => rfl
  | [_], long => exact absurd rfl long
  | _ :: _ :: _, _ => rfl

theorem emit_esc (printable : Printable kitty) : ((Token.sequence [esc]).emit kitty).2 = [.data [esc]] := by
  rw [Token.emit, StdinBuffer.emitDataSequence]
  have other : ¬(some esc.toNat : Option ℕ) = kitty := by
    rintro rfl
    exact absurd (printable _ rfl) (by decide)
  rw [if_neg (fun same => other same.2)]

/-- Nothing but the paste itself comes out of a paste first. -/
theorem head?_pasting (content text : JsString) (kitty : Option ℕ) (sequence : JsString) :
    (readEvents kitty (pasting content) text).2.head? ≠ some (.data sequence) := by
  induction text generalizing content with
  | nil => nofun
  | cons unit text ih =>
    rw [readEvents, Reading.readAll, Reading.read]
    split_ifs
    · nofun
    · exact ih _

/-- A sequence is emitted when it is complete. -/
theorem read_sequence (read : (reading.read unit).2 = some (.sequence sequence)) :
    ∃ pending, reading = keys pending ∧ sequence = pending ++ [unit] ∧ ¬bracketedPasteStart <:+ sequence ∧
      isCompleteSequence sequence ≠ .incomplete := by
  cases reading with
  | keys pending =>
    rw [Reading.read] at read
    split_ifs at read with starts incomplete
    · cases read
    · cases read
      exact ⟨pending, rfl, rfl, starts, incomplete⟩
  | pasting content =>
    rw [Reading.read] at read
    split_ifs at read
    cases read

/-- The events of single code units begin with the sequence that the first one completes. -/
theorem head?_units (kitty : Option ℕ) (waits : Waits reading) (read : (reading.read unit).2 = some (.sequence sequence))
    (long : sequence.length ≠ 1) (text : JsString) :
    ((toStdin kitty reading).processAll (units (unit :: text))).2.head? = some (.data sequence) := by
  rw [processAll_units waits, readEvents, Reading.readAll, read]
  rw [Option.toList_some, List.singleton_append, emitAll, emit_of_length kitty sequence long]
  rfl

theorem Unsplit.intro (first : sequence = [esc, esc] → ∀ next more, rest = next :: more → next ∉ introducers)
    (second : ∀ front back more, front ++ back = bracketedPasteStart → front ≠ [] → back ≠ [] → front <:+ sequence →
      rest ≠ back ++ more) : Unsplit sequence rest := by
  refine ⟨fun same next head => ?_, fun front back whole some_ some' last inside => ?_⟩
  · obtain ⟨more, rest_⟩ := List.head?_eq_some_iff.mp head
    exact first same next more rest_
  · obtain ⟨more, rest_⟩ := inside
    exact second front back more whole some_ some' last rest_.symm

private theorem introducer_waits : ∀ next ∈ introducers, isCompleteSequence ([esc] ++ [next]) = .incomplete ∧
    ¬bracketedPasteStart <:+: [esc] ++ [esc, next] ∧
    takeSequence? ([esc] ++ [esc, next]) = some ([esc], [esc] ++ [next]) := by
  have same : introducers = [0x5B, 0x5D, 0x4F, 0x50, 0x5F] := by decide
  simp only [same, List.forall_mem_cons]
  refine ⟨?_, ?_, ?_, ?_, ?_, nofun⟩ <;> decide

private theorem pending_esc : Pending [esc] := pending_nil.concat rfl

/-- In one chunk, the first of two escapes before the start of a sequence is a key of its own. -/
theorem process_escapes (printable : Printable kitty) {next : CodeUnit} (starts : next ∈ introducers) :
    ((toStdin kitty (keys [esc])).process [esc, next]).2 = [.data [esc]] := by
  obtain ⟨incomplete, absent, escapes⟩ := introducer_waits next starts
  have none_ : cut? bracketedPasteStart ([esc] ++ [esc, next]) = none := cut?_eq_none.mpr absent
  have sequences : extractCompleteSequences ([esc] ++ [esc, next]) = ([[esc]], [esc] ++ [next]) := by
    rw [extractCompleteSequences, frames_of_some shortens_takeSequence? escapes,
      frames_of_none (takeSequence?_pending (pending_esc.concat incomplete))]
  rw [toStdin, StdinBuffer.process, StdinBuffer.processWith, if_neg (fun none_ => (nomatch none_.1)),
    if_neg Bool.false_ne_true]
  simp only [none_, sequences, emitDataSequences_eq, List.map_cons, List.map_nil, emitAll, emit_esc printable]
  rfl

/-- In one chunk, a paste marker is found also behind the sequence that its first code units end. -/
theorem head?_marker (waits : Waits (keys pending)) (some_ : front ≠ [])
    (whole : front ++ back = bracketedPasteStart) (last : front <:+ pending ++ [unit]) (text key : JsString) :
    ((toStdin kitty (keys pending)).processAll ((unit :: back) :: units text)).2.head? ≠ some (.data key) := by
  obtain ⟨before, before_⟩ := last
  have contains : pending ++ unit :: back = before ++ bracketedPasteStart ++ [] := by
    rw [List.append_cons, ← before_, ← whole, List.append_assoc, List.append_nil]
  have inside : before <+: pending := by
    have length := congrArg List.length before_
    have some' := List.length_pos_of_ne_nil some_
    rw [List.length_append, List.length_append, List.length_singleton] at length
    have read : before <+: pending ++ [unit] := ⟨front, before_⟩
    refine List.prefix_of_prefix_length_le read (List.prefix_append _ _) ?_
    omega
  cases cut : cut? bracketedPasteStart (pending ++ unit :: back) with
  | none => exact absurd cut (contains ▸ cut?_ne_none before [])
  | some found =>
    obtain ⟨first, pasted⟩ := found
    have shorter : first <+: before := by
      have same := contains.symm.trans (eq_of_cut? cut)
      have length := congrArg List.length same
      simp only [List.length_append, List.length_nil] at length
      rw [List.append_assoc, List.append_assoc] at same
      refine List.prefix_of_prefix_length_le ⟨_, same.symm⟩ (List.prefix_append before _) ?_
      omega
    have none_ : extractCompleteSequences first = ([], first) := by
      rw [extractCompleteSequences, frames_of_none (takeSequence?_pending (waits.1.shorter (shorter.trans inside)))]
    rw [processAll_cons, toStdin, StdinBuffer.process, StdinBuffer.processWith,
      if_neg (fun none_ => (nomatch none_.1)), if_neg Bool.false_ne_true]
    simp only [cut, none_, emitDataSequences_eq, StdinBuffer.finishPaste]
    cases ended : cut? bracketedPasteEnd pasted with
    | none =>
      have waits' : Waits (pasting pasted) := cut?_eq_none.mp ended
      have rest : (toStdin none (pasting pasted)).processAll (units text) = readEvents none (pasting pasted) text :=
        processAll_units waits' text
      rw [toStdin] at rest
      simp only [List.map_nil, emitAll, List.nil_append, rest]
      exact head?_pasting pasted text none key
    | some found =>
      simp only [List.map_nil, emitAll, List.nil_append]
      split_ifs
      · nofun
      · nofun

/-- What ends with a part of a paste marker is no single code unit. -/
theorem length_of_suffix (some_ : front ≠ []) (whole : front ++ back = bracketedPasteStart)
    (last : front <:+ pending ++ [unit]) (complete : isCompleteSequence (pending ++ [unit]) ≠ .incomplete) :
    (pending ++ [unit]).length ≠ 1 := by
  intro length
  rw [List.length_append, List.length_singleton, Nat.add_eq_right, List.length_eq_zero_iff] at length
  rw [length, List.nil_append] at last complete
  cases front with
  | nil => exact some_ rfl
  | cons first front =>
    obtain rfl := (List.cons.inj whole).1
    obtain ⟨before, before_⟩ := last
    rcases List.append_eq_singleton_iff.mp before_ with ⟨-, same⟩ | ⟨-, none_⟩
    · obtain rfl := (List.cons.inj same).1
      exact complete rfl
    · cases none_

/-- If all ways of cutting a text agree, nothing in it changes with what follows it. -/
theorem readsAlike_of_agree (waits : Waits reading) (printable : Printable kitty)
    (agree : ∀ pieces pieces', Splits text pieces → Splits text pieces' → Agree (toStdin kitty reading) pieces pieces') :
    reading.ReadsAlike text := by
  induction text generalizing reading kitty with
  | nil => trivial
  | cons unit text ih =>
    have step : (toStdin kitty reading).process [unit] = readEvents kitty reading [unit] :=
      process_eq waits (List.cons_ne_nil _ _) (readsAlike_singleton reading unit)
    refine ⟨fun sequence read => ?_, ih (waits.read unit) (printable.emitAll (reading.readAll [unit]).2) ?_⟩
    · obtain ⟨pending, rfl, rfl, starts, complete⟩ := read_sequence read
      refine .intro (fun same next more rest_ opens => ?_) (fun front back more whole some_ some' last rest_ => ?_)
      · have parts : pending ++ [unit] = [esc] ++ [esc] := same
        obtain ⟨rfl, last⟩ := List.append_inj' parts rfl
        cases last
        have splits := (splits_units more).cons (List.cons_ne_nil esc [next])
        rw [List.cons_append, List.singleton_append, ← rest_] at splits
        have same := (agree _ _ (splits_units (esc :: text)) splits).1
        have first := head?_units kitty waits read (by decide) text
        rw [same, processAll_cons, process_escapes printable opens] at first
        cases first
      · have long := length_of_suffix some_ whole last complete
        have splits := (splits_units more).cons (List.cons_ne_nil unit back)
        rw [List.cons_append, ← rest_] at splits
        have same := (agree _ _ (splits_units (unit :: text)) splits).1
        have first := head?_units kitty waits read long text
        rw [same] at first
        exact head?_marker waits some_ whole last more _ first
    · intro pieces pieces' splits splits'
      have same := agree _ _ (splits.cons (List.cons_ne_nil unit [])) (splits'.cons (List.cons_ne_nil unit []))
      simp only [Agree, processAll_cons, step] at same
      exact ⟨List.append_cancel_left same.1, same.2⟩

/-- All ways of cutting a text agree if and only if nothing in it changes with what follows it. -/
theorem chunks_agree_iff (text : JsString) :
    (∀ pieces pieces', Splits text pieces → Splits text pieces' → Agree {} pieces pieces') ↔
      (keys []).ReadsAlike text := by
  have fresh : ({} : StdinBuffer) = toStdin none (keys []) := rfl
  rw [fresh]
  constructor
  · exact readsAlike_of_agree waits_keys nofun
  · rintro alike pieces pieces' ⟨rfl, nonempty⟩ ⟨whole, nonempty'⟩
    rw [Agree, processAll_eq waits_keys nonempty alike, processAll_eq waits_keys nonempty' (whole ▸ alike), whole]
    exact ⟨rfl, rfl, rfl⟩

/-- The release of the Escape key behind its press, cut behind the second escape. -/
theorem chunks_disagree :
    ∃ text pieces pieces', Splits text pieces ∧ Splits text pieces' ∧ ¬Agree {} pieces pieces' := by
  refine ⟨esc :: esc :: js "[27u", [esc :: esc :: js "[27u"], [[esc, esc], js "[27u"], ⟨rfl, ?_⟩, ⟨rfl, ?_⟩, ?_⟩
  · exact fun piece member => List.mem_singleton.mp member ▸ List.cons_ne_nil _ _
  · decide
  · exact fun same => absurd same.1 (by decide)

end Splittings

end PieAgent.Soundness.StdinChunks
