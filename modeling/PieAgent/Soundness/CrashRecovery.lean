import PieAgent.Proofs.Session.JsonlFile

/-! # Recovery of a session file after a crash

A crash while an entry is appended leaves the first bytes of its line. Opening the file drops a line that
is torn inside its text, and keeps one whose text is complete. It does not supply the line feed of the
latter, so the next append continues that line, and both entries are lost when the file is opened again.
-/

namespace PieAgent.Soundness

open JavaScript Model Proofs

section Property

variable (filePath : JsString) (options : CreateOptions) (now : NonemptyText) (done : List StoredEntry)
  (torn : StoredEntry) (written : ℕ) (more : List StoredEntry)

/-- A session is created and gets entries, dies while it appends one more, is opened again, gets further
entries, and is opened once more. -/
def recoveredEntries : Except StorageFailure (List StoredEntry) := do
  let created ← SessionFile.create filePath options now (.ok ())
  let session ← created.appendAll done
  let opened ← SessionFile.openSession filePath (.ok (session.interruptedAppend torn written)) (.ok ())
  let extended ← opened.appendAll more
  let reopened ← SessionFile.openSession filePath (.ok extended.file) (.ok ())
  return reopened.storage.entries

/-- The bytes of the text of an entry. -/
def textLength (entry : StoredEntry) : ℕ := (encodeUtf8 (stringify entry.value)).length

/-- The entries whose text was written completely. -/
def completeEntries : List StoredEntry := if textLength torn ≤ written then done ++ [torn] else done

end Property

variable {filePath : JsString} {header : SessionHeader} {done entries more : List StoredEntry} {torn : StoredEntry}
  {written : ℕ} {session : SessionFile}

/-- Bytes cut off inside the text of an entry are no JSON. -/
private theorem cut_text (typed : torn.Typed) (short : written < textLength torn) :
    ∃ tail, decodeUtf8 ((encodeLine torn.value).take written) = tail ∧ '\n' ∉ tail ∧
      (written = 0 ∧ tail = [] ∨ isBlank tail = false ∧ parse? tail = none) := by
  refine ⟨_, rfl, ?_⟩
  have cut : (encodeLine torn.value).take written = (encodeUtf8 (text torn)).take written := by
    rw [encodeLine, encodeUtf8_append, List.take_append_of_le_length short.le]
  rw [cut]
  obtain ⟨members, shape⟩ := exists_members torn
  have reads : ReadsValue (text torn) (.obj members) := by
    rw [← shape]
    exact readsValue_stringify torn.value typed.ordinary
  rcases Nat.eq_zero_or_pos written with rfl | started
  · exact ⟨List.not_mem_nil, .inl ⟨rfl, rfl⟩⟩
  · obtain ⟨back, bytes, unparsed, known⟩ := decodeUtf8_cut_object reads started short
    have decoded : decodeUtf8 (encodeChar '\x7b' ++ back) = '\x7b' :: decodeUtf8 back :=
      decodeUtf8_encodeUtf8_append ['\x7b'] back
    rw [bytes, decoded]
    refine ⟨fun member => ?_, .inr ⟨isBlank_cons (by decide) (by decide) _, unparsed⟩⟩
    rcases List.mem_cons.mp member with brace | inside
    · exact absurd brace (by decide)
    · rcases known _ inside with own | replaced
      · exact (singleLine_stringify torn.value).notMem own
      · exact absurd replaced (by decide)

/-- After a session with a sound file is opened, further entries are appended to it and read back. -/
private theorem extension_recovers (filePath : JsString) (readable : Readable header)
    (typed : ∀ entry ∈ entries ++ more, entry.Typed) (file : session.file = encodeUtf8 (sessionText header entries)) :
    ∃ extended, session.appendAll more = .ok extended ∧
      ∃ reopened, SessionFile.openSession filePath (.ok extended.file) (.ok ()) = .ok reopened ∧
        reopened.storage.entries = entries ++ more := by
  obtain ⟨extended, appended, written⟩ := appendAll_typed (List.forall_mem_append.mp typed).2 session
  have content : decodeUtf8 extended.file = sessionText header (entries ++ more) := by
    rw [written, file, ← encodeUtf8_append, decodeUtf8_encodeUtf8, sessionText_append]
  obtain ⟨reopened, success, same, _⟩ := openSession_text filePath readable typed content
  exact ⟨extended, appended, reopened, success, same⟩

/-- Two texts of entries without a line feed between them are no JSON. -/
private theorem glued_text (typed : torn.Typed) (next : StoredEntry) :
    '\n' ∉ text torn ++ text next ∧ isBlank (text torn ++ text next) = false ∧ parse? (text torn ++ text next) = none := by
  obtain ⟨body, opens⟩ := text_opens torn
  obtain ⟨body', opens'⟩ := text_opens next
  obtain ⟨members, shape⟩ := exists_members torn
  have reads : ReadsValue (text torn) (.obj members) := by
    rw [← shape]
    exact readsValue_stringify torn.value typed.ordinary
  refine ⟨((singleLine_stringify _).append (singleLine_stringify _)).notMem, ?_, ?_⟩
  · rw [opens]
    exact isBlank_cons (by decide) (by decide) _
  · rw [opens']
    exact parse?_glued reads (by decide) opens body'

private theorem decode_interruptedAppend (torn : StoredEntry) (written : ℕ)
    (file : session.file = encodeUtf8 (sessionText header done)) :
    decodeUtf8 (session.interruptedAppend torn written) =
      sessionText header done ++ decodeUtf8 ((encodeLine torn.value).take written) := by
  rw [SessionFile.interruptedAppend, file, decodeUtf8_encodeUtf8_append]

/-- After a crash inside the text of an entry, opening the file leaves the complete lines. -/
private theorem opened_of_cut (filePath : JsString) (readable : Readable header)
    (doneTyped : ∀ entry ∈ done, entry.Typed) (typed : torn.Typed) (short : written < textLength torn)
    (file : session.file = encodeUtf8 (sessionText header done)) :
    ∃ opened, SessionFile.openSession filePath (.ok (session.interruptedAppend torn written)) (.ok ()) = .ok opened ∧
      opened.file = encodeUtf8 (sessionText header done) := by
  have content := decode_interruptedAppend torn written file
  obtain ⟨tail, decoded, single, cases_⟩ := cut_text typed short
  rw [decoded] at content
  rcases cases_ with ⟨rfl, rfl⟩ | ⟨solid, unparsed⟩
  · rw [List.append_nil] at content
    obtain ⟨opened, success, _, same⟩ := openSession_text filePath readable doneTyped content
    refine ⟨opened, success, ?_⟩
    rw [same, SessionFile.interruptedAppend, List.take_zero, List.append_nil, file]
  · obtain ⟨opened, success, _, repaired⟩ := openSession_torn filePath readable doneTyped content single solid unparsed
    exact ⟨opened, success, repaired⟩

private theorem take_textLength (torn : StoredEntry) :
    (encodeLine torn.value).take (textLength torn) = encodeUtf8 (text torn) := by
  rw [encodeLine, encodeUtf8_append]
  exact List.take_left

/-- Right behind a complete text without its line feed, nothing can be appended. -/
private theorem unterminated_recovers_iff (filePath : JsString) (readable : Readable header)
    (doneTyped : ∀ entry ∈ done, entry.Typed) (tornTyped : torn.Typed) (moreTyped : ∀ entry ∈ more, entry.Typed)
    (file : session.file = encodeUtf8 (sessionText header done)) :
    (∃ opened, SessionFile.openSession filePath (.ok (session.interruptedAppend torn (textLength torn))) (.ok ()) =
        .ok opened ∧ ∃ extended, opened.appendAll more = .ok extended ∧
          ∃ reopened, SessionFile.openSession filePath (.ok extended.file) (.ok ()) = .ok reopened ∧
            reopened.storage.entries = done ++ [torn] ++ more) ↔ more = [] := by
  have content := decode_interruptedAppend torn (textLength torn) file
  rw [take_textLength, decodeUtf8_encodeUtf8] at content
  obtain ⟨opened, success, entries, same⟩ := openSession_unterminated filePath readable doneTyped tornTyped content
  constructor
  · rintro ⟨_, again, extended, appends, reopened, reopens, result⟩
    cases success.symm.trans again
    cases more with
    | nil => rfl
    | cons next more =>
      obtain ⟨extended', appends', written⟩ := appendAll_typed moreTyped opened.toSessionFile
      cases appends.symm.trans appends'
      obtain ⟨single, solid, unparsed⟩ := glued_text tornTyped next
      have glued : decodeUtf8 extended.file =
          sessionText header done ++ unlines ((text torn ++ text next) :: more.map text) := by
        have bytes : extended.file = encodeUtf8 (sessionText header done ++ unlines ((text torn ++ text next) :: more.map text)) := by
          rw [written, same, SessionFile.interruptedAppend, take_textLength, file, ← encodeUtf8_append, ← encodeUtf8_append]
          simp [unlines]
        rw [bytes, decodeUtf8_encodeUtf8]
      have lost := openSession_glued filePath readable doneTyped glued single solid unparsed reopens
      rw [lost] at result
      have lengths := congrArg List.length result
      simp only [List.length_append, List.length_cons] at lengths
      omega
  · rintro rfl
    refine ⟨opened, success, opened.toSessionFile, rfl, opened, ?_, by rw [entries, List.append_nil]⟩
    rw [same, success]

section Crash

variable {options : CreateOptions} {now : NonemptyText}

/-- The file of a session that is created and gets entries holds their lines. -/
private theorem created_session (filePath : JsString) (options : CreateOptions) (now : NonemptyText)
    (typed : ∀ entry ∈ done, entry.Typed) :
    ∃ created session, SessionFile.create filePath options now (.ok ()) = .ok created ∧
      created.appendAll done = .ok session ∧ session.file = encodeUtf8 (sessionText (options.header now) done) := by
  obtain ⟨session, appended, file⟩ := appendAll_typed typed ⟨encodeLine (options.header now).value, .empty⟩
  refine ⟨_, session, rfl, appended, ?_⟩
  rw [file, encodeLine, ← encodeUtf8_append]
  rfl

private theorem bind_eq_ok {α β ε : Type} {action : Except ε α} {next : α → Except ε β} {result : β} :
    action >>= next = .ok result ↔ ∃ value, action = .ok value ∧ next value = .ok result := by
  cases action with
  | error => exact ⟨nofun, fun ⟨_, success, _⟩ => nomatch success⟩
  | ok value => exact ⟨fun same => ⟨value, rfl, same⟩, fun ⟨_, success, same⟩ => by cases success; exact same⟩

/-- What is left to show once the session before the crash is known. -/
private theorem recoveredEntries_eq {created : SessionFile}
    (creates : SessionFile.create filePath options now (.ok ()) = .ok created)
    (appended : created.appendAll done = .ok session) {complete : List StoredEntry} :
    recoveredEntries filePath options now done torn written more = .ok complete ↔
      ∃ opened, SessionFile.openSession filePath (.ok (session.interruptedAppend torn written)) (.ok ()) = .ok opened ∧
        ∃ extended, opened.appendAll more = .ok extended ∧
          ∃ reopened, SessionFile.openSession filePath (.ok extended.file) (.ok ()) = .ok reopened ∧
            reopened.storage.entries = complete := by
  simp only [recoveredEntries, bind_eq_ok, creates, appended, Except.ok.injEq, exists_eq_left', pure, Except.pure]

variable (typed : ∀ entry ∈ done ++ torn :: more, entry.Typed)
include typed

/-- A readable session recovers unless it is extended right behind a complete text. -/
private theorem recovers_of_readable (readable : Readable (options.header now)) :
    recoveredEntries filePath options now done torn written more = .ok (completeEntries done torn written ++ more) ↔
      (written = textLength torn → more = []) := by
  obtain ⟨doneTyped, tornMoreTyped⟩ := List.forall_mem_append.mp typed
  obtain ⟨tornTyped, moreTyped⟩ := List.forall_mem_cons.mp tornMoreTyped
  obtain ⟨created, session, creates, appended, file⟩ :=
    created_session filePath options now doneTyped
  rw [recoveredEntries_eq creates appended]
  rcases lt_trichotomy written (textLength torn) with short | exactly | whole
  · obtain ⟨opened, success, sound⟩ := opened_of_cut filePath readable doneTyped tornTyped short file
    have complete : completeEntries done torn written = done := if_neg (by omega)
    obtain ⟨extended, appends, reopened, result⟩ := extension_recovers filePath readable
      (List.forall_mem_append.mpr ⟨doneTyped, moreTyped⟩) sound
    rw [complete]
    exact iff_of_true ⟨opened, success, extended, appends, reopened, result⟩ fun exactly => absurd exactly short.ne
  · have complete : completeEntries done torn written = done ++ [torn] := if_pos (by omega)
    rw [complete, exactly, unterminated_recovers_iff filePath readable doneTyped tornTyped moreTyped file]
    exact ⟨fun none_ _ => none_, fun none_ => none_ rfl⟩
  · have complete : completeEntries done torn written = done ++ [torn] := if_pos (by omega)
    have sound : session.interruptedAppend torn written = encodeUtf8 (sessionText (options.header now) (done ++ [torn])) := by
      have all : (encodeLine torn.value).length ≤ written := by
        rw [encodeLine, encodeUtf8_append, List.length_append]
        exact whole
      rw [SessionFile.interruptedAppend, List.take_of_length_le all, file, encodeLine_eq, ← encodeUtf8_append,
        sessionText_append]
      rfl
    have doneTornTyped : ∀ entry ∈ done ++ [torn], entry.Typed :=
      List.forall_mem_append.mpr ⟨doneTyped, by simpa using tornTyped⟩
    have content : decodeUtf8 (session.interruptedAppend torn written) = sessionText (options.header now) (done ++ [torn]) := by
      rw [sound, decodeUtf8_encodeUtf8]
    obtain ⟨opened, success, _, same⟩ := openSession_text filePath readable doneTornTyped content
    obtain ⟨extended, appends, reopened, result⟩ := extension_recovers filePath readable
      (List.forall_mem_append.mpr ⟨doneTornTyped, moreTyped⟩) (same.trans sound)
    rw [complete]
    exact iff_of_true ⟨opened, success, extended, appends, reopened, result⟩ fun exactly => absurd exactly whole.ne'

/-- After a crash within the last append a session recovers exactly when its header can be read and nothing is
appended right behind a text that lacks only its line feed. -/
theorem recoveredEntries_iff (filePath : JsString) (options : CreateOptions) (now : NonemptyText) (written : ℕ) :
    recoveredEntries filePath options now done torn written more = .ok (completeEntries done torn written ++ more) ↔
      (options.sessionId ≠ [] ∧ options.cwd ≠ []) ∧ (written = textLength torn → more = []) := by
  by_cases readable : options.sessionId ≠ [] ∧ options.cwd ≠ []
  · rw [recovers_of_readable typed ⟨readable.1, now.property, readable.2⟩]
    simp only [readable, true_and, ne_eq, not_false_eq_true, and_self]
  · obtain ⟨created, session, creates, appended, file⟩ :=
      created_session filePath options now (List.forall_mem_append.mp typed).1
    rw [recoveredEntries_eq creates appended]
    refine iff_of_false ?_ (fun both => readable both.1)
    rintro ⟨opened, success, _⟩
    have empty : (options.header now).id = [] ∨ (options.header now).cwd = [] :=
      (not_and_or.mp readable).imp not_not.mp not_not.mp
    have content : decodeUtf8 (session.interruptedAppend torn written) = stringify (options.header now).value ++
        '\n' :: (unlines (done.map text) ++ decodeUtf8 ((encodeLine torn.value).take written)) := by
      rw [decode_interruptedAppend torn written file]
      simp [sessionText, sessionLines, unlines]
    exact openSession_unreadable filePath empty content opened success

end Crash

private def crashOptions : CreateOptions := { cwd := js "/w", sessionId := js "s" }

private def crashTime : NonemptyText := ⟨js "t", by decide⟩

private def firstEntry : StoredEntry where
  value := .obj [(js "type", .str (js "custom")), (js "id", .str (js "a")), (js "parentId", .null),
    (js "timestamp", .str (js "t"))]
  accepted := by decide

private def secondEntry : StoredEntry where
  value := .obj [(js "type", .str (js "custom")), (js "id", .str (js "b")), (js "parentId", .str (js "a")),
    (js "timestamp", .str (js "t"))]
  accepted := by decide

private theorem entries_read : firstEntry.value.ordinary = true ∧ secondEntry.value.ordinary = true ∧
    recoveredEntries (js "/s") crashOptions crashTime [] firstEntry (textLength firstEntry) [secondEntry] = .ok [] := by
  decide +kernel

private theorem firstEntry_typed : firstEntry.Typed := ⟨entries_read.1, fun label => absurd label (by decide),
  fun label => absurd label (by decide)⟩

private theorem secondEntry_typed : secondEntry.Typed := ⟨entries_read.2.1, fun label => absurd label (by decide),
  fun label => absurd label (by decide)⟩

private theorem crash_typed : ∀ entry ∈ ([] : List StoredEntry) ++ firstEntry :: [secondEntry], entry.Typed := by
  simp [firstEntry_typed, secondEntry_typed]

/-- The law applied to a crash in the middle of the first entry. -/
theorem recoveredEntries_iff_firstEntry :
    recoveredEntries (js "/s") crashOptions crashTime [] firstEntry 9 [secondEntry] =
        .ok (completeEntries [] firstEntry 9 ++ [secondEntry]) ↔
      (crashOptions.sessionId ≠ [] ∧ crashOptions.cwd ≠ []) ∧ (9 = textLength firstEntry → [secondEntry] = []) :=
  recoveredEntries_iff crash_typed (js "/s") crashOptions crashTime 9

/-- A crash just before the line feed of the first entry, and both entries are lost. -/
theorem unterminatedEntry_is_lost :
    ¬ ∀ options now done torn written more, options.sessionId ≠ [] → options.cwd ≠ [] → (∀ entry ∈ done ++ torn :: more, StoredEntry.Typed entry) →
      recoveredEntries (js "/s") options now done torn written more = .ok (completeEntries done torn written ++ more) := by
  intro always
  have recovers := always crashOptions crashTime [] firstEntry (textLength firstEntry) [secondEntry]
    (by decide) (by decide) crash_typed
  rw [(entries_read).2.2] at recovers
  cases congrArg List.length (Except.ok.inj recovers)

end PieAgent.Soundness
