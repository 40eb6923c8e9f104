import PieAgent.Soundness.StdinChunks

/-! # No terminal input is lost

What has been emitted and what is pending should make up the input, except for keys that are suppressed because a report
has just said the same. A paste marker behind an escape sequence that is not complete breaks this: what has been read of
the sequence is dropped. Where no marker comes at such a place, and only there, nothing is lost.
-/

namespace PieAgent.Soundness.ConservedInput

open JavaScript Framing Model.Tui StdinChunks

variable {stdin next : StdinBuffer} {str text more total front back : JsString} {events others : List InputEvent}
  {kitty kitty' kitty'' : Option ℕ} {intact : Prop} {sequences : List JsString}

section Calls

/-- A call of the buffer. -/
inductive Call where
  | process (chunk : JsString)
  | processBytes (chunk : List UInt8)
  | flush
  | expire

def Call.input : Call → JsString
  | .process chunk => chunk
  | .processBytes chunk => StdinBuffer.ofBytes chunk
  | .flush | .expire => []

/-- A call, with what it emits or returns. -/
def Call.perform (stdin : StdinBuffer) : Call → StdinBuffer × List InputEvent
  | .process chunk => stdin.process chunk
  | .processBytes chunk => stdin.process (StdinBuffer.ofBytes chunk)
  | .flush => (stdin.flush.1, stdin.flush.2.map .data)
  | .expire => stdin.expire

def run : StdinBuffer → List Call → StdinBuffer × List InputEvent
  | stdin, [] => (stdin, [])
  | stdin, call :: calls =>
    ((run (call.perform stdin).1 calls).1, (call.perform stdin).2 ++ (run (call.perform stdin).1 calls).2)

end Calls

section Accounts

/-- The input that an event stands for. -/
def textOf : InputEvent → JsString
  | .data sequence => sequence
  | .paste content => bracketedPasteStart ++ content ++ bracketedPasteEnd

/-- The key that an event reports. -/
def reportOf : InputEvent → Option ℕ
  | .data sequence => parseUnmodifiedKittyPrintableCodepoint sequence
  | .paste _ => none

/-- The events account for the text. A character is left out only if it has been reported immediately before. -/
inductive Accounts : Option ℕ → List InputEvent → JsString → Option ℕ → Prop
  | nil {kitty : Option ℕ} : Accounts kitty [] [] kitty
  | emit {kitty kitty' : Option ℕ} {events : List InputEvent} {text : JsString} (event : InputEvent)
      (rest : Accounts (reportOf event) events text kitty') :
      Accounts kitty (event :: events) (textOf event ++ text) kitty'
  | duplicate {kitty' : Option ℕ} {events : List InputEvent} {text : JsString} (unit : CodeUnit)
      (rest : Accounts none events text kitty') : Accounts (some unit.toNat) events (unit :: text) kitty'
  | forget {kitty kitty' : Option ℕ} {events : List InputEvent} {text : JsString}
      (rest : Accounts none events text kitty') : Accounts kitty events text kitty'

/-- What has been read and is kept for later. -/
def pendingText (stdin : StdinBuffer) : JsString :=
  (if stdin.pasteMode then bracketedPasteStart ++ stdin.pasteBuffer else []) ++ stdin.buffer

/-- The events of the calls account for the input, together with what is pending. -/
def Conserved (calls : List Call) : Prop :=
  ∃ text kitty, Accounts none (run {} calls).2 text kitty ∧
    text ++ pendingText (run {} calls).1 = (calls.map Call.input).flatten

/-- Nothing is read of a sequence when a paste begins. -/
inductive Intact : Bool → JsString → Prop
  | keys {text : JsString} (absent : cut? bracketedPasteStart text = none) : Intact false text
  | start {text beforePaste pasted : JsString} (found : cut? bracketedPasteStart text = some (beforePaste, pasted))
      (whole : (extractCompleteSequences beforePaste).2 = []) (rest : Intact true pasted) : Intact false text
  | pasting {text : JsString} (absent : cut? bracketedPasteEnd text = none) : Intact true text
  | finish {text content remaining : JsString} (found : cut? bracketedPasteEnd text = some (content, remaining))
      (rest : Intact false remaining) : Intact true text

/-- Nothing is read of a sequence when a paste begins in the call. -/
def Call.Keeps (stdin : StdinBuffer) : Call → Prop
  | .process chunk => Intact stdin.pasteMode (stdin.pasteBuffer ++ (stdin.buffer ++ chunk))
  | .processBytes chunk => Intact stdin.pasteMode (stdin.pasteBuffer ++ (stdin.buffer ++ StdinBuffer.ofBytes chunk))
  | .flush | .expire => True

def KeepsAll : StdinBuffer → List Call → Prop
  | _, [] => True
  | stdin, call :: calls => call.Keeps stdin ∧ KeepsAll (call.perform stdin).1 calls

theorem Accounts.append (first : Accounts kitty events text kitty') (second : Accounts kitty' others more kitty'') :
    Accounts kitty (events ++ others) (text ++ more) kitty'' := by
  induction first with
  | nil => exact second
  | emit event rest ih =>
    rw [List.cons_append, List.append_assoc]
    exact .emit event (ih second)
  | duplicate unit rest ih => exact .duplicate unit (ih second)
  | forget rest ih => exact .forget (ih second)

/-- No suppressed character is an escape. -/
theorem Accounts.count (accounts : Accounts kitty events text kitty') (printable : Printable kitty) :
    text.count esc = ((events.map textOf).flatten).count esc := by
  induction accounts with
  | nil => rfl
  | emit event rest ih =>
    have reported : Printable (reportOf event) := by
      cases event with
      | data sequence => exact printable_parse sequence
      | paste content => nofun
    rw [List.count_append, ih reported, List.map_cons, List.flatten_cons, List.count_append]
  | duplicate unit rest ih =>
    have other : unit ≠ esc := by
      rintro rfl
      exact absurd (printable _ rfl) (by decide)
    rw [List.count_cons_of_ne other, ih nofun]
  | forget rest ih => exact ih nofun

end Accounts

section Emission

private theorem accounts_emitDataSequence (stdin : StdinBuffer) (sequence : JsString) :
    ∃ kitty, (stdin.emitDataSequence sequence).1 = { stdin with pendingKittyPrintableCodepoint := kitty } ∧
      Accounts stdin.pendingKittyPrintableCodepoint (stdin.emitDataSequence sequence).2 sequence kitty ∧
      Printable kitty := by
  simp only [StdinBuffer.emitDataSequence]
  split_ifs with reported
  · refine ⟨none, rfl, ?_, fun _ reported => by cases reported⟩
    rcases sequence with _ | ⟨unit, _ | ⟨second, rest⟩⟩
    · exact absurd reported.1 Bool.false_ne_true
    · rw [← reported.2]
      exact .duplicate unit .nil
    · exact absurd reported.1 Bool.false_ne_true
  · refine ⟨_, rfl, ?_, printable_parse sequence⟩
    have emitted := @Accounts.emit stdin.pendingKittyPrintableCodepoint _ [] [] (.data sequence) .nil
    rwa [List.append_nil] at emitted

private theorem accounts_emitDataSequences (stdin : StdinBuffer)
    (printable : Printable stdin.pendingKittyPrintableCodepoint)
    (sequences : List JsString) :
    ∃ kitty, (stdin.emitDataSequences sequences).1 = { stdin with pendingKittyPrintableCodepoint := kitty } ∧
      Accounts stdin.pendingKittyPrintableCodepoint (stdin.emitDataSequences sequences).2 sequences.flatten kitty ∧
      Printable kitty := by
  induction sequences generalizing stdin with
  | nil => exact ⟨_, rfl, .nil, printable⟩
  | cons sequence sequences ih =>
    obtain ⟨kitty, same, accounts, printable'⟩ := accounts_emitDataSequence stdin sequence
    rw [StdinBuffer.emitDataSequences]
    dsimp only
    rw [same]
    obtain ⟨kitty', same', accounts', printable''⟩ := ih { stdin with pendingKittyPrintableCodepoint := kitty } printable'
    exact ⟨kitty', same', accounts.append accounts', printable''⟩

private theorem scanSequence_cuts {candidate rest sequence left : JsString}
    (scanned : scanSequence candidate rest = some (sequence, left)) : sequence ++ left = candidate ++ rest := by
  induction rest generalizing candidate with
  | nil =>
    rw [scanSequence.eq_def] at scanned
    split at scanned
    · split at scanned
      next two =>
        cases scanned
        rw [two.1]
        rfl
      · cases scanned
        rfl
    · cases scanned
      rfl
    · cases scanned
  | cons unit rest ih =>
    rw [scanSequence.eq_def] at scanned
    split at scanned
    · split at scanned
      next two =>
        cases scanned
        rw [two.1]
        rfl
      · cases scanned
        rfl
    · cases scanned
      rfl
    · rw [ih scanned, List.append_assoc]
      rfl

private theorem takeSequence?_cuts {text frame rest : JsString} (taken : takeSequence? text = some (frame, rest)) :
    frame ++ rest = text := by
  cases text with
  | nil => cases taken
  | cons unit text =>
    rw [takeSequence?] at taken
    split at taken
    next starts => rw [scanSequence_cuts taken, starts]; rfl
    · cases taken
      rfl

theorem flatten_extractCompleteSequences (buffer : JsString) :
    (extractCompleteSequences buffer).1.flatten ++ (extractCompleteSequences buffer).2 = buffer :=
  flatten_frames shortens_takeSequence? takeSequence?_cuts buffer

/-- What is left of a text begins with an escape. -/
theorem count_remainder {buffer : JsString} (left : (extractCompleteSequences buffer).2 ≠ []) :
    0 < ((extractCompleteSequences buffer).2).count esc := by
  have none_ : takeSequence? (extractCompleteSequences buffer).2 = none := take?_frames shortens_takeSequence? buffer
  cases same : (extractCompleteSequences buffer).2 with
  | nil => exact absurd same left
  | cons unit rest =>
    rw [same, takeSequence?] at none_
    split at none_
    next starts => rw [starts, List.count_cons_self]; omega
    · cases none_

end Emission

section Process

structure Ready (stdin : StdinBuffer) : Prop where
  pasting : stdin.pasteMode = true → stdin.buffer = [] ∧ cut? bracketedPasteEnd stdin.pasteBuffer = none
  keys : stdin.pasteMode = false → stdin.pasteBuffer = []
  printable : Printable stdin.pendingKittyPrintableCodepoint

def escapes (events : List InputEvent) : ℕ := ((events.map textOf).flatten).count esc

/-- What a part of the run comes to: its events account for the total, or an escape is lost. -/
structure Outcome (kitty : Option ℕ) (intact : Prop) (total : JsString) (result : StdinBuffer × List InputEvent) :
    Prop where
  ready : Ready result.1
  conserves : intact → ∃ text, Accounts kitty result.2 text result.1.pendingKittyPrintableCodepoint ∧
    text ++ pendingText result.1 = total
  loses : ¬intact → escapes result.2 + (pendingText result.1).count esc < total.count esc

variable {result : StdinBuffer × List InputEvent} {intact' : Prop}

private theorem escapes_append (events others : List InputEvent) :
    escapes (events ++ others) = escapes events + escapes others := by
  rw [escapes, List.map_append, List.flatten_append, List.count_append]
  rfl

/-- Events that account for a text come before. -/
private theorem Outcome.prepend (outcome : Outcome kitty' intact total result) (printable : Printable kitty)
    (accounts : Accounts kitty events text kitty') :
    Outcome kitty intact (text ++ total) (result.1, events ++ result.2) where
  ready := outcome.ready
  conserves whole := by
    obtain ⟨rest, accounts', same⟩ := outcome.conserves whole
    exact ⟨text ++ rest, accounts.append accounts', by rw [List.append_assoc, same]⟩
  loses broken := by
    have less := outcome.loses broken
    have same := accounts.count printable
    dsimp only
    rw [escapes_append, List.count_append, same, escapes]
    omega

/-- No outcome has more escapes than the input. -/
private theorem Outcome.count_le (outcome : Outcome kitty intact total result) (printable : Printable kitty) :
    escapes result.2 + (pendingText result.1).count esc ≤ total.count esc := by
  by_cases whole : intact
  · obtain ⟨text, accounts, same⟩ := outcome.conserves whole
    rw [← same, List.count_append, accounts.count printable]
    exact Nat.le_refl _
  · exact Nat.le_of_lt (outcome.loses whole)

/-- A text with an escape is lost. -/
private theorem Outcome.lose (outcome : Outcome kitty intact total result) (printable : Printable kitty)
    (lost : 0 < text.count esc) (broken : ¬intact') : Outcome kitty intact' (text ++ total) result where
  ready := outcome.ready
  conserves whole := absurd whole broken
  loses _ := by
    have less := outcome.count_le printable
    rw [List.count_append]
    omega

private theorem Outcome.congr (outcome : Outcome kitty intact total result) (same : intact' ↔ intact) :
    Outcome kitty intact' total result where
  ready := outcome.ready
  conserves whole := outcome.conserves (same.mp whole)
  loses broken := outcome.loses fun whole => broken (same.mpr whole)

private theorem Outcome.forget (outcome : Outcome none intact total result) : Outcome kitty intact total result where
  ready := outcome.ready
  conserves whole := by
    obtain ⟨text, accounts, same⟩ := outcome.conserves whole
    exact ⟨text, .forget accounts, same⟩
  loses := outcome.loses

/-- What a fuel is enough for is processed without a loss, or loses an escape. -/
def Processes (fuel : ℕ) : Prop :=
  ∀ stdin str, Ready stdin → stdin.buffer.length + stdin.pasteBuffer.length + str.length < fuel →
    Outcome stdin.pendingKittyPrintableCodepoint
      (Intact stdin.pasteMode (stdin.pasteBuffer ++ (stdin.buffer ++ str))) (pendingText stdin ++ str)
      (stdin.processWith fuel str)

private theorem ready_keys (printable : Printable kitty) (buffer : JsString) :
    Ready { buffer, pendingKittyPrintableCodepoint := kitty } := ⟨nofun, fun _ => rfl, printable⟩

private theorem intact_true_iff {content remaining : JsString}
    (found : cut? bracketedPasteEnd text = some (content, remaining)) : Intact true text ↔ Intact false remaining := by
  refine ⟨fun intact => ?_, .finish found⟩
  cases intact with
  | pasting absent => cases absent.symm.trans found
  | finish found' rest =>
    cases found.symm.trans found'
    exact rest

/-- The end of a paste. -/
private theorem outcome_finishPaste {fuel : ℕ} (processes : Processes fuel) (printable : Printable kitty)
    (pasted : JsString) (enough : pasted.length < fuel + bracketedPasteEnd.length) :
    Outcome kitty (Intact true pasted) (bracketedPasteStart ++ pasted)
      (StdinBuffer.finishPaste
        { pasteMode := true, pasteBuffer := pasted, pendingKittyPrintableCodepoint := kitty }
        (StdinBuffer.processWith fuel)) := by
  rw [StdinBuffer.finishPaste]
  dsimp only
  cases found : cut? bracketedPasteEnd pasted with
  | none =>
    refine ⟨⟨fun _ => ⟨rfl, found⟩, fun keys => (by cases keys), printable⟩, fun _ => ⟨[], .nil, ?_⟩,
      fun broken => absurd (.pasting found) broken⟩
    exact List.append_nil _
  | some parts =>
    obtain ⟨content, remaining⟩ := parts
    have whole := eq_of_cut? found
    have paste : bracketedPasteStart ++ pasted = textOf (.paste content) ++ remaining := by
      rw [whole, textOf]
      simp only [List.append_assoc]
    have emitted : Accounts kitty [.paste content] (textOf (.paste content)) none := by
      have emitted := @Accounts.emit kitty none [] [] (.paste content) .nil
      rwa [List.append_nil] at emitted
    rw [paste]
    dsimp only
    refine Outcome.congr ?_ (intact_true_iff found)
    have unreported : Printable none := fun _ reported => by cases reported
    by_cases none_ : remaining = []
    · rw [if_pos none_, none_]
      have nothing : Outcome none (Intact false []) [] ({}, []) :=
        ⟨ready_keys unreported [], fun _ => ⟨[], .nil, rfl⟩, fun broken => absurd (.keys rfl) broken⟩
      exact nothing.prepend printable emitted
    · rw [if_neg none_]
      refine Outcome.prepend ?_ printable emitted
      have length := congrArg List.length whole
      rw [List.length_append, List.length_append] at length
      exact processes {} remaining (ready_keys unreported []) (by
        show 0 + 0 + remaining.length < fuel
        omega)

/-- A call without input emits an empty sequence. -/
private theorem outcome_idle (ready : Ready stdin) (none_ : str = []) (empty : stdin.buffer = []) :
    Outcome stdin.pendingKittyPrintableCodepoint
      (Intact stdin.pasteMode (stdin.pasteBuffer ++ (stdin.buffer ++ str))) (pendingText stdin ++ str)
      (stdin.emitDataSequence []) := by
  have intact : Intact stdin.pasteMode (stdin.pasteBuffer ++ (stdin.buffer ++ str)) := by
    rw [none_, empty, List.append_nil, List.append_nil]
    cases mode : stdin.pasteMode with
    | true => exact .pasting (ready.pasting mode).2
    | false => rw [ready.keys mode]; exact .keys rfl
  have emitted : Accounts stdin.pendingKittyPrintableCodepoint [.data []] [] none := .emit (.data []) .nil
  refine ⟨⟨ready.pasting, ready.keys, nofun⟩, fun _ => ⟨[], emitted, ?_⟩, fun broken => absurd intact broken⟩
  rw [none_, List.append_nil]
  rfl

/-- No paste begins. -/
private theorem outcome_keys (printable : Printable kitty)
    (absent : cut? bracketedPasteStart text = none) :
    Outcome kitty (Intact false text) text
      (StdinBuffer.emitDataSequences
        { buffer := (extractCompleteSequences text).2, pendingKittyPrintableCodepoint := kitty }
        (extractCompleteSequences text).1) := by
  obtain ⟨kitty', same, accounts, printable'⟩ :=
    accounts_emitDataSequences
      { buffer := (extractCompleteSequences text).2, pendingKittyPrintableCodepoint := kitty } printable
      (extractCompleteSequences text).1
  refine ⟨?_, fun _ => ⟨(extractCompleteSequences text).1.flatten, ?_, ?_⟩, fun broken => absurd (.keys absent) broken⟩
  · rw [same]
    exact ready_keys printable' _
  · rw [same]
    exact accounts
  · rw [same]
    exact flatten_extractCompleteSequences text

private theorem intact_false_iff {beforePaste pasted : JsString}
    (found : cut? bracketedPasteStart text = some (beforePaste, pasted)) :
    Intact false text ↔ (extractCompleteSequences beforePaste).2 = [] ∧ Intact true pasted := by
  refine ⟨fun intact => ?_, fun ⟨whole, rest⟩ => .start found whole rest⟩
  cases intact with
  | keys absent => cases absent.symm.trans found
  | start found' whole rest =>
    cases found.symm.trans found'
    exact ⟨whole, rest⟩

/-- A paste begins. -/
private theorem outcome_start {fuel : ℕ} (processes : Processes fuel) (printable : Printable kitty)
    {buffer beforePaste pasted : JsString} (found : cut? bracketedPasteStart text = some (beforePaste, pasted))
    (enough : text.length < fuel + 1) :
    Outcome kitty (Intact false text) text
      ((StdinBuffer.finishPaste { pasteMode := true, pasteBuffer := pasted } (StdinBuffer.processWith fuel)).1,
        (StdinBuffer.emitDataSequences { buffer, pendingKittyPrintableCodepoint := kitty }
          (extractCompleteSequences beforePaste).1).2 ++
          (StdinBuffer.finishPaste { pasteMode := true, pasteBuffer := pasted } (StdinBuffer.processWith fuel)).2) := by
  have whole := eq_of_cut? found
  have length := congrArg List.length whole
  rw [List.length_append, List.length_append] at length
  have some_ : 0 < bracketedPasteEnd.length := by decide
  have unreported : Printable none := nofun
  obtain ⟨kitty', -, accounts, printable'⟩ :=
    accounts_emitDataSequences { buffer, pendingKittyPrintableCodepoint := kitty } printable
      (extractCompleteSequences beforePaste).1
  have finished : Outcome kitty' _ _ _ := (outcome_finishPaste processes unreported pasted (by omega)).forget
  have parts : text = (extractCompleteSequences beforePaste).1.flatten ++
      ((extractCompleteSequences beforePaste).2 ++ (bracketedPasteStart ++ pasted)) := by
    rw [← List.append_assoc, flatten_extractCompleteSequences, ← List.append_assoc]
    exact whole
  rw [intact_false_iff found]
  nth_rewrite 1 [parts]
  refine Outcome.prepend ?_ printable accounts
  by_cases left : (extractCompleteSequences beforePaste).2 = []
  · rw [left, List.nil_append]
    exact finished.congr (and_iff_right rfl)
  · exact finished.lose printable' (count_remainder left) fun intact => left intact.1

private theorem processes (fuel : ℕ) : Processes fuel := by
  induction fuel with
  | zero => exact fun _ _ _ enough => absurd enough (Nat.not_lt_zero _)
  | succ fuel ih =>
    intro stdin str ready enough
    rw [StdinBuffer.processWith]
    by_cases idle : str = [] ∧ stdin.buffer = []
    · rw [if_pos idle]
      exact outcome_idle ready idle.1 idle.2
    rw [if_neg idle]
    obtain ⟨buffer, mode, pasteBuffer, kitty⟩ := stdin
    cases mode with
    | true =>
      have some_ : 0 < bracketedPasteEnd.length := by decide
      have finished := outcome_finishPaste ih ready.printable (pasteBuffer ++ (buffer ++ str)) (by
        rw [List.length_append, List.length_append]
        dsimp only at enough
        omega)
      have before : pendingText ⟨buffer, true, pasteBuffer, kitty⟩ ++ str =
          bracketedPasteStart ++ (pasteBuffer ++ (buffer ++ str)) := by
        rw [pendingText]
        simp only [if_true, List.append_assoc]
      rw [if_pos rfl, before]
      exact finished
    | false =>
      obtain rfl : pasteBuffer = [] := ready.keys rfl
      rw [if_neg Bool.false_ne_true]
      show Outcome kitty (Intact false (buffer ++ str)) (buffer ++ str) _
      cases found : cut? bracketedPasteStart (buffer ++ str) with
      | none => exact outcome_keys ready.printable found
      | some parts =>
        refine outcome_start ih ready.printable found ?_
        rw [List.length_append]
        dsimp only [List.length_nil] at enough
        omega

end Process

section Runs

private theorem outcome_process (ready : Ready stdin) (chunk : JsString) :
    Outcome stdin.pendingKittyPrintableCodepoint
      (Intact stdin.pasteMode (stdin.pasteBuffer ++ (stdin.buffer ++ chunk))) (pendingText stdin ++ chunk)
      (stdin.process chunk) :=
  processes _ stdin chunk ready (Nat.lt_succ_self _)

private theorem outcome_flush (ready : Ready stdin) :
    Outcome stdin.pendingKittyPrintableCodepoint True (pendingText stdin)
      (stdin.flush.1, stdin.flush.2.map .data) := by
  rw [StdinBuffer.flush]
  split
  · exact ⟨ready, fun _ => ⟨[], .nil, rfl⟩, fun broken => absurd trivial broken⟩
  next some_ =>
    have mode : stdin.pasteMode = false := Bool.eq_false_iff.mpr fun pasting => some_ (ready.pasting pasting).1
    have pending : pendingText stdin = stdin.buffer := by
      rw [pendingText, mode, if_neg Bool.false_ne_true, List.nil_append]
    refine ⟨⟨fun pasting => ?_, ready.keys, nofun⟩,
      fun _ => ⟨stdin.buffer ++ [], .emit (.data stdin.buffer) (.forget .nil), ?_⟩, fun broken => absurd trivial broken⟩
    · cases mode.symm.trans pasting
    · rw [pending, pendingText]
      show _ ++ ((if stdin.pasteMode = true then _ else _) ++ []) = _
      rw [mode, if_neg Bool.false_ne_true, List.append_nil, List.append_nil, List.append_nil]

private theorem outcome_expire (ready : Ready stdin) :
    Outcome stdin.pendingKittyPrintableCodepoint True (pendingText stdin) stdin.expire := by
  have flushed := outcome_flush ready
  rw [StdinBuffer.expire]
  rw [StdinBuffer.flush] at flushed ⊢
  split
  · exact ⟨ready, fun _ => ⟨[], .nil, rfl⟩, fun broken => absurd trivial broken⟩
  next some_ =>
    rw [if_neg some_] at flushed
    obtain ⟨kitty, same, accounts, printable⟩ := accounts_emitDataSequences
      { stdin with buffer := [], pendingKittyPrintableCodepoint := none } nofun [stdin.buffer]
    have mode : stdin.pasteMode = false := Bool.eq_false_iff.mpr fun pasting => some_ (ready.pasting pasting).1
    refine ⟨?_, fun _ => ⟨[stdin.buffer].flatten, .forget ?_, ?_⟩, fun broken => absurd trivial broken⟩
    · rw [same]
      exact ⟨flushed.ready.pasting, flushed.ready.keys, printable⟩
    · rw [same]
      exact accounts
    · rw [same, pendingText, pendingText]
      show _ ++ ((if stdin.pasteMode = true then _ else _) ++ []) = _
      rw [mode, if_neg Bool.false_ne_true, List.append_nil, List.append_nil, List.nil_append, List.flatten_singleton]

/-- A call accounts for what has been pending and its own input, or it loses an escape. -/
theorem outcome_call (ready : Ready stdin) (call : Call) :
    Outcome stdin.pendingKittyPrintableCodepoint (call.Keeps stdin) (pendingText stdin ++ call.input)
      (call.perform stdin) := by
  cases call with
  | process chunk => exact outcome_process ready chunk
  | processBytes chunk => exact outcome_process ready _
  | flush =>
    rw [Call.input, List.append_nil]
    exact outcome_flush ready
  | expire =>
    rw [Call.input, List.append_nil]
    exact outcome_expire ready

/-- So do all calls of a run together. -/
theorem outcome_run (ready : Ready stdin) (calls : List Call) :
    Outcome stdin.pendingKittyPrintableCodepoint (KeepsAll stdin calls)
      (pendingText stdin ++ (calls.map Call.input).flatten) (run stdin calls) := by
  induction calls generalizing stdin with
  | nil =>
    rw [List.map_nil, List.flatten_nil, List.append_nil]
    exact ⟨ready, fun _ => ⟨[], .nil, rfl⟩, fun broken => absurd trivial broken⟩
  | cons call calls ih =>
    have first := outcome_call ready call
    have rest := ih first.ready
    rw [List.map_cons, List.flatten_cons, ← List.append_assoc]
    refine ⟨rest.ready, fun keeps => ?_, fun broken => ?_⟩
    · obtain ⟨text, accounts, same⟩ := first.conserves keeps.1
      obtain ⟨text', accounts', same'⟩ := rest.conserves keeps.2
      refine ⟨text ++ text', accounts.append accounts', ?_⟩
      show (text ++ text') ++ pendingText (run _ calls).1 = _
      rw [List.append_assoc, same', ← List.append_assoc, same]
    · have le := first.count_le ready.printable
      have le' := rest.count_le first.ready.printable
      show escapes (_ ++ _) + (pendingText (run _ calls).1).count esc < _
      rw [escapes_append, List.count_append, List.count_append]
      rw [List.count_append] at le le'
      rcases not_and_or.mp broken with broken | broken
      · have less := first.loses broken
        rw [List.count_append] at less
        omega
      · have less := rest.loses broken
        rw [List.count_append] at less
        omega

end Runs

/-- The input is conserved exactly if no paste begins behind an escape sequence that is not complete. -/
theorem input_conserved_iff (calls : List Call) : Conserved calls ↔ KeepsAll {} calls := by
  have outcome := @outcome_run {} ⟨nofun, fun _ => rfl, nofun⟩ calls
  constructor
  · rintro ⟨text, kitty, accounts, same⟩
    by_contra broken
    have less := outcome.loses broken
    have count := accounts.count nofun
    have total := congrArg (List.count esc) same
    rw [List.count_append] at total
    rw [List.count_append, escapes] at less
    have none_ : (pendingText {}).count esc = 0 := by decide
    omega
  · intro keeps
    obtain ⟨text, accounts, same⟩ := outcome.conserves keeps
    exact ⟨text, _, accounts, same⟩

/-- Two code units of a sequence arrive before a paste, and are lost. -/
theorem paste_loses_input :
    ¬Conserved [.process (esc :: js "["), .process (bracketedPasteStart ++ bracketedPasteEnd)] := by
  rintro ⟨text, kitty, accounts, same⟩
  have count := accounts.count nofun
  have total := congrArg (List.count esc) same
  rw [List.count_append, count] at total
  revert total
  decide

end PieAgent.Soundness.ConservedInput
