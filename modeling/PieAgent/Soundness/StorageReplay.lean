import PieAgent.Proofs.Session.FileLines

/-! # Opening a session file again

The storage of a live session and the one that is loaded from its file agree in entries, leaf, labels and paths,
after any changes. The exceptions are a session whose header line cannot be read back, and one that was opened
from a file whose last line lacks its line feed: what is written next continues that line.
-/

namespace PieAgent.Soundness

open JavaScript Model Proofs

section Property

variable (filePath : JsString)

/-- Where a live session comes from. -/
inductive SessionOrigin where
  | created (options : CreateOptions) (now : NonemptyText)
  | opened (file : Except FileError (List UInt8)) (repair : Except FileError Unit)

/-- The session, if it is created or opened at all. -/
def SessionOrigin.start : SessionOrigin → Except StorageFailure SessionFile
  | created options now => SessionFile.create filePath options now (.ok ())
  | opened file repair => (SessionFile.openSession filePath file repair).map SessionFile.Opened.toSessionFile

/-- An opened session has a header that can be read; a created one has it if it has an id and a directory. -/
def SessionOrigin.Readable : SessionOrigin → Prop
  | created options _ => options.sessionId ≠ [] ∧ options.cwd ≠ []
  | opened _ _ => True

/-- Opening the file of a session again gives the same entries, leaf, labels and paths to the root. -/
def Replays (session : SessionFile) : Prop :=
  ∃ reopened, SessionFile.openSession filePath (.ok session.file) (.ok ()) = .ok reopened ∧
    reopened.storage.entries = session.storage.entries ∧
    reopened.storage.currentLeafId = session.storage.currentLeafId ∧
    reopened.storage.labelsById = session.storage.labelsById ∧
    ∀ leafId, reopened.storage.getPathToRoot leafId = session.storage.getPathToRoot leafId

/-- What stands behind the last line feed of a file. -/
def lastLine (file : List UInt8) : List Char := ((decodeUtf8 file).splitOn '\n').getLast?.getD []

/-- The operation throws, because its write fails or the leaf is not known. -/
def Refused (storage : JsonlSessionStorage) : StorageOperation → Prop
  | .appendEntry _ write => ∃ error, write = .error error
  | .setLeafId leafId _ _ write =>
    (∃ unknown, leafId = some unknown ∧ storage.byId unknown = none) ∨ ∃ error, write = .error error

/-- The entries handed over are values of their types. -/
def TypedOperation : StorageOperation → Prop
  | .appendEntry entry _ => entry.Typed
  | .setLeafId .. => True

end Property

variable {filePath : JsString} {session : SessionFile} {header : SessionHeader} {entries written : List StoredEntry}
  {entry : StoredEntry} {operation : StorageOperation} {operations : List StorageOperation}
  {storage : JsonlSessionStorage}

/-- The storage is the one that its entries are loaded to. -/
private def Consistent (storage : JsonlSessionStorage) : Prop :=
  constructStorage storage.entries (leafAfter none storage.entries) = .ok storage

private theorem ordinary_leafEntry (id : NonemptyText) (parentId : Option JsString) (timestamp : NonemptyText)
    (targetId : Option JsString) : (leafEntry id parentId timestamp targetId).value.ordinary = true := by
  have keys : ∀ parent target : Json, parent.ordinary = true → target.ordinary = true →
      (Json.obj [(js "type", .str (js "leaf")), (js "id", .str id.val), (js "parentId", parent),
        (js "timestamp", .str timestamp.val), (js "targetId", target)]).ordinary = true := by
    intro parent target first second
    refine ordinary_obj_of_plain ?_ ?_ ?_
    · show ([js "type", js "id", js "parentId", js "timestamp", js "targetId"] : List JsString).Nodup
      decide
    · show ∀ key ∈ ([js "type", js "id", js "parentId", js "timestamp", js "targetId"] : List JsString),
        arrayIndex? key = none
      decide
    · simp [ordinaryMembers, Json.ordinary, first, second]
  cases parentId <;> cases targetId <;> exact keys _ _ rfl rfl

private theorem typed_leafEntry (id : NonemptyText) (parentId : Option JsString) (timestamp : NonemptyText)
    (targetId : Option JsString) : (leafEntry id parentId timestamp targetId).Typed :=
  ⟨ordinary_leafEntry id parentId timestamp targetId, fun labels => absurd labels (by rw [type_leafEntry]; decide),
    fun labels => absurd labels (by rw [type_leafEntry]; decide)⟩

private theorem consistent_append {labelsById : LabelCache} (consistent : Consistent storage)
    (labels : updateLabelCache storage.labelsById entry = .ok labelsById) :
    Consistent ⟨storage.entries ++ [entry], labelsById, leafIdAfterEntry entry⟩ := by
  unfold Consistent constructStorage at *
  cases built : buildLabelsById storage.entries with
  | error error =>
    rw [built] at consistent
    cases consistent
  | ok known =>
    rw [built] at consistent
    have same : known = storage.labelsById := congrArg JsonlSessionStorage.labelsById (Except.ok.inj consistent)
    have extended : buildLabelsById (storage.entries ++ [entry]) = .ok labelsById := by
      unfold buildLabelsById at *
      rw [List.foldlM_append, built]
      change [entry].foldlM updateLabelCache known = _
      rw [same, List.foldlM_cons, labels]
      rfl
    dsimp only
    rw [extended, leafAfter, List.foldl_append]
    rfl

/-- An operation leaves the session alone, or writes the line of one entry and adds it to the storage. -/
private theorem perform_cases (typed : TypedOperation operation) (consistent : Consistent session.storage) :
    (Refused session.storage operation ∧ session.perform operation = session) ∨
      ¬ Refused session.storage operation ∧ ∃ entry : StoredEntry, entry.Typed ∧
        (session.perform operation).file = session.file ++ encodeLine entry.value ∧
        (session.perform operation).storage.entries = session.storage.entries ++ [entry] ∧
        Consistent (session.perform operation).storage := by
  cases operation with
  | appendEntry entry write =>
    cases write with
    | error error => exact .inl ⟨⟨error, rfl⟩, rfl⟩
    | ok written =>
      obtain ⟨labelsById, labels⟩ := @updateLabelCache_typed entry typed session.storage.labelsById
      refine .inr ⟨nofun, entry, typed, rfl, ?_, ?_⟩
      · simp only [SessionFile.perform, SessionFile.appendEntry, JsonlSessionStorage.push, labels]
      · simp only [SessionFile.perform, SessionFile.appendEntry, JsonlSessionStorage.push, labels]
        exact consistent_append consistent labels
  | setLeafId leafId id timestamp write =>
    cases unknown : leafId.filter fun leafId => (session.storage.byId leafId).isNone with
    | some missing =>
      obtain ⟨rfl, absent⟩ := Option.filter_eq_some_iff.mp unknown
      refine .inl ⟨.inl ⟨missing, rfl, by simpa using absent⟩, ?_⟩
      simp only [SessionFile.perform, SessionFile.setLeafId, unknown]
    | none =>
      cases write with
      | error error =>
        refine .inl ⟨.inr ⟨error, rfl⟩, ?_⟩
        simp only [SessionFile.perform, SessionFile.setLeafId, unknown]
      | ok _ =>
        refine .inr ⟨?_, leafEntry id session.storage.currentLeafId timestamp leafId, typed_leafEntry .., ?_, ?_, ?_⟩
        · rintro (⟨missing, rfl, absent⟩ | ⟨error, failed⟩)
          · rw [Option.filter_eq_none_iff] at unknown
            exact unknown missing rfl (by simpa using absent)
          · cases failed
        · simp only [SessionFile.perform, SessionFile.setLeafId, unknown]
        · simp only [SessionFile.perform, SessionFile.setLeafId, unknown]
        · simp only [SessionFile.perform, SessionFile.setLeafId, unknown]
          have kept : updateLabelCache session.storage.labelsById
              (leafEntry id session.storage.currentLeafId timestamp leafId) = .ok session.storage.labelsById :=
            if_pos (by rw [type_leafEntry]; decide)
          simpa using consistent_append consistent kept

/-- A run of operations writes the lines of some entries, none exactly if every operation is refused. -/
private theorem performAll_written (typed : ∀ operation ∈ operations, TypedOperation operation)
    (consistent : Consistent session.storage) :
    ∃ written : List StoredEntry, (∀ entry ∈ written, entry.Typed) ∧
      (written = [] ↔ ∀ operation ∈ operations, Refused session.storage operation) ∧
      (session.performAll operations).file = session.file ++ encodeUtf8 (unlines (written.map text)) ∧
      (session.performAll operations).storage.entries = session.storage.entries ++ written ∧
      Consistent (session.performAll operations).storage := by
  induction operations generalizing session with
  | nil => exact ⟨[], nofun, by simp, by simp [SessionFile.performAll, unlines], by simp [SessionFile.performAll], consistent⟩
  | cons operation operations ih =>
    obtain ⟨first, others⟩ := List.forall_mem_cons.mp typed
    rcases perform_cases first consistent with ⟨refused, same⟩ | ⟨accepted, entry, entryTyped, file, entries, kept⟩
    · obtain ⟨written, writtenTyped, none_, rest⟩ := ih others consistent
      refine ⟨written, writtenTyped, ?_, ?_⟩
      · rw [none_, List.forall_mem_cons, and_iff_right refused]
      · rw [SessionFile.performAll, List.foldl_cons, same]
        exact rest
    · obtain ⟨written, writtenTyped, _, file', entries', kept'⟩ := ih others kept
      refine ⟨entry :: written, List.forall_mem_cons.mpr ⟨entryTyped, writtenTyped⟩, ?_, ?_, ?_, kept'⟩
      · exact iff_of_false (List.cons_ne_nil _ _) fun all => accepted (all operation List.mem_cons_self)
      · refine file'.trans ?_
        rw [file, encodeLine_eq, List.append_assoc, ← encodeUtf8_append, ← unlines_append]
        rfl
      · refine entries'.trans ?_
        rw [entries, List.append_assoc]
        rfl

section Lines

variable {lines : List (List Char)} {tail : List Char}

/-- The lines of a file after some entries have been written behind its last line. -/
private theorem lines_extended {file : List UInt8} (split : decodeUtf8 file = unlines lines ++ tail)
    (single : ∀ line ∈ lines, '\n' ∉ line) (last : '\n' ∉ tail) (entry : StoredEntry) (more : List StoredEntry) :
    (decodeUtf8 (file ++ encodeUtf8 (unlines ((entry :: more).map text)))).splitOn '\n' =
      lines ++ (tail ++ text entry) :: (more.map text ++ [[]]) := by
  obtain ⟨body, opens⟩ := text_opens entry
  have first : ∃ rest, unlines ((entry :: more).map text) = '\x7b' :: rest := by
    rw [List.map_cons, opens]
    exact ⟨_, rfl⟩
  obtain ⟨rest, starts⟩ := first
  have content : decodeUtf8 (file ++ encodeUtf8 (unlines ((entry :: more).map text))) =
      unlines (lines ++ (tail ++ text entry) :: more.map text) ++ [] := by
    rw [starts, decodeUtf8_append_ascii file (by decide), ← starts, split]
    simp [unlines]
  rw [content, splitOn_unlines _ List.not_mem_nil]
  · simp
  · have texts : ∀ entry : StoredEntry, '\n' ∉ text entry := fun entry => (singleLine_stringify entry.value).notMem
    refine List.forall_mem_append.mpr ⟨single, List.forall_mem_cons.mpr ⟨?_, ?_⟩⟩
    · exact fun member => (List.mem_append.mp member).elim last (texts entry)
    · intro line member
      obtain ⟨other, _, rfl⟩ := List.mem_map.mp member
      exact texts other

private theorem replays_of_holds (session : SessionFile)
    (holds : HoldsLines filePath ((decodeUtf8 session.file).splitOn '\n') header session.storage.entries)
    (consistent : Consistent session.storage) : Replays filePath session := by
  refine ⟨⟨⟨session.file, session.storage⟩, none⟩, ?_, rfl, rfl, rfl, fun _ => rfl⟩
  rw [openSession_holds holds, consistent]
  rfl

/-- Entries behind a last line of white space extend the lines of a file. -/
private theorem holds_extended (holds : HoldsLines filePath (lines ++ [tail]) header entries) (spaces : Spaces tail)
    (typed : ∀ other ∈ entry :: written, StoredEntry.Typed other) :
    HoldsLines filePath (lines ++ (tail ++ text entry) :: (written.map text ++ [[]])) header
      (entries ++ entry :: written) := by
  obtain ⟨blanks, first, rest, split, leads, solid, parsed, reads⟩ := holds
  obtain ⟨entryTyped, writtenTyped⟩ := List.forall_mem_cons.mp typed
  have blank := isBlank_of_spaces spaces
  rcases List.eq_nil_or_concat' rest with rfl | ⟨others, last, rfl⟩
  · have same := (List.append_inj' split rfl).2
    rw [← (List.cons.inj same).1, blank] at solid
    cases solid
  · have shape : lines ++ [tail] = (blanks ++ first :: others) ++ [last] := by rw [split]; simp
    obtain ⟨rfl, same⟩ := List.append_inj' shape rfl
    obtain rfl : tail = last := (List.cons.inj same).1
    refine ⟨blanks, first, others ++ ((tail ++ text entry) :: (written.map text ++ [[]])), by simp, leads, solid, parsed, ?_⟩
    refine LinesRead.append ((linesRead_append_blank (by simpa using blank)).mp reads) ?_
    refine (linesRead_solid ?_).mpr ⟨entry, written, rfl, ?_, ?_⟩
    · obtain ⟨body, opens⟩ := text_opens entry
      rw [opens]
      exact isBlank_of_mem (List.mem_append_right _ List.mem_cons_self) (by decide) (by decide)
    · exact parse?_spaces spaces (parse?_stringify entryTyped.ordinary)
    · exact (linesRead_append_blank (by simp [isBlank, trim])).mpr (linesRead_texts writtenTyped)

/-- A text behind a last line that is more than white space is no JSON together with it. -/
private theorem glued_unparsed (holds : HoldsLines filePath (lines ++ [tail]) header entries)
    (solid : ∃ c ∈ tail, isJsonSpace c = false) (entry : StoredEntry) : parse? (tail ++ text entry) = none := by
  obtain ⟨body, opens⟩ := text_opens entry
  cases blank : isBlank tail with
  | true =>
    by_contra parsed
    obtain ⟨value, parsed⟩ := Option.ne_none_iff_exists'.mp parsed
    obtain ⟨c, member, visible, small⟩ := exists_visible_of_parse? parsed solid
    rw [isBlank_of_mem member visible small] at blank
    cases blank
  | false =>
    have object : ∃ members, parse? tail = some (.obj members) := by
      obtain ⟨blanks, first, rest, split, leads, _, parsed, reads⟩ := holds
      have member : tail ∈ blanks ++ first :: rest := by
        rw [← split]
        exact List.mem_append_right _ List.mem_cons_self
      rcases List.mem_append.mp member with lead | member
      · rw [leads tail lead] at blank
        cases blank
      rcases List.mem_cons.mp member with rfl | member
      · exact parsed_of_parseHeaderLine parsed
      · obtain ⟨known, _, same⟩ := reads.parsed member blank
        obtain ⟨members, shape⟩ := exists_members known
        exact ⟨members, same.trans (congrArg some shape)⟩
    obtain ⟨members, parsed⟩ := object
    exact parse?_object_continued parsed ⟨'\x7b', by rw [opens]; exact List.mem_cons_self, by decide⟩

end Lines

/-- A session that stands on the lines of its file replays unless something is written behind a last line that is
more than white space. -/
private theorem replays_iff_of_holds (holds : HoldsLines filePath ((decodeUtf8 session.file).splitOn '\n') header
      session.storage.entries) (consistent : Consistent session.storage)
    (typed : ∀ operation ∈ operations, TypedOperation operation) :
    Replays filePath (session.performAll operations) ↔
      (∀ operation ∈ operations, Refused session.storage operation) ∨ Spaces (lastLine session.file) := by
  obtain ⟨written, writtenTyped, refused, file, entries, kept⟩ := performAll_written typed consistent
  rw [← refused]
  cases written with
  | nil =>
    refine iff_of_true ?_ (.inl rfl)
    refine @replays_of_holds _ header _ ?_ kept
    rw [file, entries]
    simpa [unlines] using holds
  | cons entry more =>
    obtain ⟨lines, tail, split, single, last⟩ := exists_unlines (decodeUtf8 session.file)
    have whole : (decodeUtf8 session.file).splitOn '\n' = lines ++ [tail] := by rw [split, splitOn_unlines single last]
    have isLast : lastLine session.file = tail := by rw [lastLine, whole]; simp
    have extended := lines_extended split single last entry more
    rw [whole] at holds
    rw [isLast]
    constructor
    · rintro ⟨reopened, success, same, _⟩
      by_contra other
      have solid : ∃ c ∈ tail, isJsonSpace c = false := by
        by_contra none_
        refine other (.inr fun c member => ?_)
        by_contra visible
        exact none_ ⟨c, member, by simpa using visible⟩
      have unparsed := glued_unparsed holds solid entry
      rw [file] at success
      have visible : isBlank (tail ++ text entry) = false := by
        obtain ⟨body, opens⟩ := text_opens entry
        rw [opens]
        exact isBlank_of_mem (List.mem_append_right _ List.mem_cons_self) (by decide) (by decide)
      obtain ⟨header', front⟩ := holds_front success extended visible unparsed
      have fewer := front.length
      have known := holds.length
      rw [same, entries, List.length_append, List.length_cons] at fewer
      rw [List.filter_append, List.length_append] at known
      omega
    · rintro (empty | spaces)
      · cases empty
      · refine @replays_of_holds _ header _ ?_ kept
        rw [file, extended, entries]
        exact holds_extended holds spaces writtenTyped

section Created

variable {options : CreateOptions} {now : NonemptyText}

private theorem content_created (options : CreateOptions) (now : NonemptyText) :
    decodeUtf8 (encodeLine (options.header now).value) = stringify (options.header now).value ++ ['\n'] := by
  rw [encodeLine, decodeUtf8_encodeUtf8]

private theorem lines_created (options : CreateOptions) (now : NonemptyText) :
    (decodeUtf8 (encodeLine (options.header now).value)).splitOn '\n' = [stringify (options.header now).value, []] := by
  have single : ∀ line ∈ [stringify (options.header now).value], '\n' ∉ line := by
    simpa using (singleLine_stringify _).notMem
  have lines := @splitOn_unlines _ [] single List.not_mem_nil
  rw [content_created]
  simpa [unlines] using lines

private theorem holds_created (readable : options.sessionId ≠ [] ∧ options.cwd ≠ []) :
    HoldsLines filePath ((decodeUtf8 (encodeLine (options.header now).value)).splitOn '\n') (options.header now) [] := by
  refine ⟨[], _, [[]], lines_created options now, nofun, isBlank_header _, ?_, ?_⟩
  · exact parseHeaderLine_text filePath readable.1 now.property readable.2
  · exact (linesRead_blank (by simp [isBlank, trim])).mpr linesRead_nil

private theorem consistent_empty : Consistent .empty := rfl

/-- A created session without an id or a directory is never opened again. -/
private theorem not_replays_created (unreadable : ¬ (options.sessionId ≠ [] ∧ options.cwd ≠ []))
    (typed : ∀ operation ∈ operations, TypedOperation operation) :
    ¬ Replays filePath (SessionFile.performAll ⟨encodeLine (options.header now).value, .empty⟩ operations) := by
  rintro ⟨reopened, success, _⟩
  obtain ⟨written, _, _, file, _⟩ :=
    @performAll_written ⟨encodeLine (options.header now).value, .empty⟩ _ typed consistent_empty
  have empty : (options.header now).id = [] ∨ (options.header now).cwd = [] :=
    (not_and_or.mp unreadable).imp not_not.mp not_not.mp
  refine @openSession_unreadable filePath _ _ empty (unlines (written.map text)) ?_ reopened success
  rw [file, encodeLine, ← encodeUtf8_append, decodeUtf8_encodeUtf8]
  simp

end Created

/-- After any operations the file of a session opens to the same storage, exactly if its header can be read and
nothing is written behind a last line that is more than white space. -/
theorem replays_iff (origin : SessionOrigin) (start : origin.start filePath = .ok session)
    (typed : ∀ operation ∈ operations, TypedOperation operation) :
    Replays filePath (session.performAll operations) ↔ origin.Readable ∧
      ((∀ operation ∈ operations, Refused session.storage operation) ∨ Spaces (lastLine session.file)) := by
  cases origin with
  | created options now =>
    cases start
    by_cases readable : options.sessionId ≠ [] ∧ options.cwd ≠ []
    · rw [replays_iff_of_holds (holds_created readable) consistent_empty typed]
      exact (and_iff_right readable).symm
    · exact iff_of_false (not_replays_created readable typed) fun both => readable both.1
  | opened file repair =>
    cases success : SessionFile.openSession filePath file repair with
    | error error =>
      rw [SessionOrigin.start, success] at start
      cases start
    | ok opened =>
      rw [SessionOrigin.start, success] at start
      cases start
      obtain ⟨header, holds, consistent⟩ := holds_of_openSession success
      rw [replays_iff_of_holds holds consistent typed]
      exact (and_iff_right trivial).symm

private def sampleOptions : CreateOptions := { cwd := js "/w", sessionId := js "s" }

private theorem sampleTime_nonempty : js "t" ≠ [] := by decide

private def sampleTime : NonemptyText := ⟨js "t", sampleTime_nonempty⟩

private def sampleLabel : StoredEntry where
  value := .obj [(js "type", .str (js "label")), (js "id", .str (js "a")), (js "parentId", .null),
    (js "timestamp", .str (js "t")), (js "targetId", .str (js "a")), (js "label", .str (js "x"))]
  accepted := by decide

private def unterminatedFile : List UInt8 :=
  encodeLine (sampleOptions.header sampleTime).value ++ encodeUtf8 (stringify sampleLabel.value)

private def opened : SessionFile := ⟨unterminatedFile, ⟨[sampleLabel], [(js "a", js "x")], some (js "a")⟩⟩

private def moved : List StorageOperation := [.setLeafId none ⟨js "b", by decide⟩ sampleTime (.ok ())]

private theorem sample_read : sampleLabel.value.ordinary = true ∧
    (SessionOrigin.opened (.ok unterminatedFile) (.ok ())).start (js "/s") = .ok opened ∧
    (SessionFile.openSession (js "/s") (.ok (opened.performAll moved).file) (.ok ())).map
      (fun reopened => reopened.storage.entries.length) = .ok 0 := by
  decide +kernel

private theorem typed_sampleLabel (write : Except FileError Unit) :
    ∀ operation ∈ [StorageOperation.appendEntry sampleLabel write], TypedOperation operation := by
  intro operation member
  rw [List.mem_singleton.mp member]
  exact ⟨sample_read.1, fun _ => by decide, fun _ => .inr (by decide)⟩

/-- The law for a created session that gets a label. -/
theorem replays_iff_labelEntry :
    Replays (js "/s") (SessionFile.performAll ⟨encodeLine (sampleOptions.header sampleTime).value, .empty⟩
        [.appendEntry sampleLabel (.ok ())]) ↔
      (SessionOrigin.created sampleOptions sampleTime).Readable ∧
        ((∀ operation ∈ [StorageOperation.appendEntry sampleLabel (.ok ())],
            Refused JsonlSessionStorage.empty operation) ∨
          Spaces (lastLine (encodeLine (sampleOptions.header sampleTime).value))) :=
  replays_iff (.created sampleOptions sampleTime) rfl (typed_sampleLabel _)

/-- A session is opened from a file whose last line lacks its line feed; its leaf is moved, and it has lost both
entries when it is opened again. -/
theorem unterminated_file_diverges :
    ¬ ∀ (origin : SessionOrigin) session operations, origin.start (js "/s") = .ok session →
      (∀ operation ∈ operations, TypedOperation operation) → Replays (js "/s") (session.performAll operations) := by
  intro always
  obtain ⟨-, start, lost⟩ := sample_read
  obtain ⟨reopened, success, same, _⟩ := always _ _ moved start
    fun operation member => by rw [List.mem_singleton.mp member]; trivial
  rw [success] at lost
  have none_ := (Except.ok.inj lost).symm.trans (congrArg List.length same)
  exact absurd none_ (by decide)

end PieAgent.Soundness
