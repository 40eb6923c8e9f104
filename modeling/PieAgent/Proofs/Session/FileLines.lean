import PieAgent.Proofs.Session.JsonlFile

/-! # The lines of any session file that opens

A file that can be opened holds a header line, maybe after blank lines, and then entries, maybe with blank
lines between them. The storage that is opened from it depends on these entries alone.
-/

namespace PieAgent.Proofs

open JavaScript PieAgent.Model

section Reads

variable {filePath sessionId : JsString} {i : ℕ} {known entries : List StoredEntry} {leafId : Option JsString}
  {lines rest : List (List Char)} {line : List Char}

/-- The lines that are not blank are entries. -/
def LinesRead (lines : List (List Char)) (entries : List StoredEntry) : Prop :=
  List.Forall₂ (fun line entry => parse? line = some entry.value) (lines.filter fun line => !isBlank line) entries

/-- The leaf after some entries. -/
def leafAfter (leafId : Option JsString) (entries : List StoredEntry) : Option JsString :=
  entries.foldl (fun _ entry => leafIdAfterEntry entry) leafId

theorem parseEntryLine_eq_ok {entry : StoredEntry} {lineNumber : ℕ} :
    parseEntryLine line filePath lineNumber = .ok entry ↔ parse? line = some entry.value := by
  unfold parseEntryLine
  split
  · next unparsed =>
    rw [unparsed]
    exact ⟨nofun, nofun⟩
  · next value parsed =>
    rw [parsed]
    split
    · next accepted =>
      constructor
      · intro same
        cases same
        rfl
      · intro same
        congr 1
        cases entry
        cases same
        rfl
    · next rejected =>
      refine ⟨nofun, fun same => absurd ?_ rejected⟩
      rw [Option.some.inj same]
      exact entry.accepted

theorem linesRead_nil : LinesRead [] [] := .nil

theorem linesRead_blank (blank : isBlank line = true) : LinesRead (line :: lines) entries ↔ LinesRead lines entries := by
  unfold LinesRead
  rw [List.filter_cons_of_neg (by simp [blank])]

theorem linesRead_solid (solid : isBlank line = false) : LinesRead (line :: lines) entries ↔
    ∃ entry others, entries = entry :: others ∧ parse? line = some entry.value ∧ LinesRead lines others := by
  unfold LinesRead
  rw [List.filter_cons_of_pos (by simp [solid]), List.forall₂_cons_left_iff]
  constructor
  · rintro ⟨entry, others, parsed, reads, rfl⟩
    exact ⟨entry, others, rfl, parsed, reads⟩
  · rintro ⟨entry, others, rfl, parsed, reads⟩
    exact ⟨entry, others, parsed, reads, rfl⟩

theorem LinesRead.append {more : List StoredEntry} (reads : LinesRead lines entries) (others : LinesRead rest more) :
    LinesRead (lines ++ rest) (entries ++ more) := by
  unfold LinesRead at *
  rw [List.filter_append]
  exact List.rel_append reads others

theorem linesRead_texts (typed : ∀ entry ∈ entries, entry.Typed) : LinesRead (entries.map text) entries := by
  induction entries with
  | nil => exact linesRead_nil
  | cons entry entries ih =>
    obtain ⟨first, others⟩ := List.forall_mem_cons.mp typed
    exact (linesRead_solid (isBlank_text entry)).mpr ⟨entry, entries, rfl, parse?_stringify first.ordinary, ih others⟩

/-- Lines of entries are loaded in order. -/
theorem loadEntries_reads (reads : LinesRead lines entries) :
    loadEntries filePath sessionId i (lines ++ rest) known leafId =
      loadEntries filePath sessionId (i + lines.length) rest (known ++ entries) (leafAfter leafId entries) := by
  induction lines generalizing i known leafId entries with
  | nil =>
    cases reads
    simp [leafAfter]
  | cons line lines ih =>
    rw [List.cons_append, loadEntries, List.length_cons]
    have index : i + (lines.length + 1) = i + 1 + lines.length := by omega
    cases blank : isBlank line with
    | true =>
      rw [if_pos rfl, ih ((linesRead_blank blank).mp reads), index]
    | false =>
      obtain ⟨entry, others, rfl, parsed, reads⟩ := (linesRead_solid blank).mp reads
      rw [if_neg (by decide), (parseEntryLine_eq_ok).mpr parsed]
      dsimp only
      rw [ih reads, index, List.append_assoc]
      rfl

/-- What a load of entries that succeeds has read, and which line it has dropped. -/
theorem loadEntries_ok {loaded : LoadedEntries}
    (success : loadEntries filePath sessionId i lines known leafId = .ok loaded) :
    ∃ entries, loaded.entries = known ++ entries ∧ loaded.leafId = leafAfter leafId entries ∧
      ((loaded.salvagedTail = none ∧ LinesRead lines entries) ∨
        (loaded.salvagedTail.isSome ∧ lines ≠ [] ∧ LinesRead lines.dropLast entries)) := by
  induction lines generalizing i known leafId with
  | nil =>
    cases success
    exact ⟨[], by simp, rfl, .inl ⟨rfl, linesRead_nil⟩⟩
  | cons line lines ih =>
    rw [loadEntries] at success
    cases blank : isBlank line with
    | true =>
      rw [blank, if_pos rfl] at success
      obtain ⟨entries, same, leaf, read⟩ := ih success
      refine ⟨entries, same, leaf, read.imp (And.imp_right (linesRead_blank blank).mpr) ?_⟩
      rintro ⟨salvaged, nonempty, reads⟩
      refine ⟨salvaged, List.cons_ne_nil _ _, ?_⟩
      rw [List.dropLast_cons_of_ne_nil nonempty]
      exact (linesRead_blank blank).mpr reads
    | false =>
      rw [blank, if_neg (by decide)] at success
      cases parsed : parseEntryLine line filePath (i + 1) with
      | ok entry =>
        rw [parsed] at success
        obtain ⟨entries, same, leaf, read⟩ := ih success
        have value := (parseEntryLine_eq_ok).mp parsed
        refine ⟨entry :: entries, by simp [same], leaf, read.imp (And.imp_right fun reads => ?_) ?_⟩
        · exact (linesRead_solid blank).mpr ⟨entry, entries, rfl, value, reads⟩
        · rintro ⟨salvaged, nonempty, reads⟩
          refine ⟨salvaged, List.cons_ne_nil _ _, ?_⟩
          rw [List.dropLast_cons_of_ne_nil nonempty]
          exact (linesRead_solid blank).mpr ⟨entry, entries, rfl, value, reads⟩
      | error error =>
        rw [parsed] at success
        dsimp only at success
        split at success
        · cases success
        · next last =>
          rw [not_not] at last
          cases success
          exact ⟨[], by simp, rfl, .inr ⟨rfl, List.cons_ne_nil _ _, by rw [last]; exact linesRead_nil⟩⟩

end Reads

section Holds

variable {filePath : JsString} {bytes : List UInt8} {file : Except FileError (List UInt8)} {repair : Except FileError Unit}
  {lines : List (List Char)} {header : SessionHeader} {entries more : List StoredEntry} {opened : SessionFile.Opened}

/-- The lines of a file are a header line, maybe after blank ones, and the lines of entries. -/
def HoldsLines (filePath : JsString) (lines : List (List Char)) (header : SessionHeader) (entries : List StoredEntry) :
    Prop :=
  ∃ blanks first rest, lines = blanks ++ first :: rest ∧ (∀ line ∈ blanks, isBlank line = true) ∧
    isBlank first = false ∧ parseHeaderLine first filePath = .ok header ∧ LinesRead rest entries

theorem linesRead_append_blank {trail : List (List Char)} (blank : ∀ line ∈ trail, isBlank line = true) :
    LinesRead (lines ++ trail) entries ↔ LinesRead lines entries := by
  have none_ : trail.filter (fun line => !isBlank line) = [] :=
    List.filter_eq_nil_iff.mpr fun line member => by simp [blank line member]
  rw [LinesRead, LinesRead, List.filter_append, none_, List.append_nil]

/-- A file of lines opens to the storage of their entries. -/
theorem openSession_holds (holds : HoldsLines filePath ((decodeUtf8 bytes).splitOn '\n') header entries) :
    SessionFile.openSession filePath (.ok bytes) repair =
      (constructStorage entries (leafAfter none entries)).map fun storage => ⟨⟨bytes, storage⟩, none⟩ := by
  obtain ⟨blanks, first, rest, split, leads, solid, parsed, reads⟩ := holds
  obtain ⟨body, trail, rfl, ends, blank⟩ := exists_trail rest
  have loaded := loadJsonlStorage_lines split leads solid ends blank parsed
  have lines := @loadEntries_reads filePath header.id (blanks.length + 1) [] _ none _ []
    ((linesRead_append_blank blank).mp reads)
  rw [List.append_nil, loadEntries] at lines
  rw [lines] at loaded
  rw [SessionFile.openSession, loaded]
  rfl

/-- A file that is loaded opens with a header line, maybe after blank ones. -/
private theorem loadJsonlStorage_ok {loaded : LoadedSession} (success : loadJsonlStorage filePath file = .ok loaded) :
    ∃ bytes blanks first rest header, file = .ok bytes ∧ (decodeUtf8 bytes).splitOn '\n' = blanks ++ first :: rest ∧
      (∀ line ∈ blanks, isBlank line = true) ∧ isBlank first = false ∧ parseHeaderLine first filePath = .ok header := by
  cases file with
  | error error => cases success
  | ok bytes =>
    unfold loadJsonlStorage at success
    dsimp only at success
    split at success
    · cases success
    · next i found =>
      obtain ⟨bound, solid, leads⟩ := List.findIdx?_eq_some_iff_getElem.mp found
      split at success
      · cases success
      · next header parsed =>
        rw [List.getD_eq_getElem _ _ bound] at parsed
        refine ⟨bytes, ((decodeUtf8 bytes).splitOn '\n').take i, _, ((decodeUtf8 bytes).splitOn '\n').drop (i + 1),
          header, rfl, ?_, ?_, by simpa using solid, parsed⟩
        · rw [List.getElem_cons_drop, List.take_append_drop]
        · intro line member
          obtain ⟨j, small, rfl⟩ := List.mem_iff_getElem.mp member
          rw [List.length_take] at small
          rw [List.getElem_take]
          simpa using leads j (by omega)

private theorem except_map_eq_ok {α β ε : Type} {f : α → β} {action : Except ε α} {result : β} :
    action.map f = .ok result ↔ ∃ value, action = .ok value ∧ f value = result := by
  cases action <;> simp [Except.map]

theorem constructStorage_entries {leafId : Option JsString} {storage : JsonlSessionStorage}
    (constructed : constructStorage entries leafId = .ok storage) : storage.entries = entries := by
  unfold constructStorage at constructed
  split at constructed
  · cases constructed
  · cases constructed
    rfl

/-- A file that is opened has a header line and lines of entries, the last of which may have been dropped. -/
private theorem openSession_lines (success : SessionFile.openSession filePath file repair = .ok opened) :
    ∃ bytes blanks first body trail header, file = .ok bytes ∧
      (decodeUtf8 bytes).splitOn '\n' = blanks ++ first :: (body ++ trail) ∧
      (∀ line ∈ blanks, isBlank line = true) ∧ isBlank first = false ∧ parseHeaderLine first filePath = .ok header ∧
      (∀ line ∈ trail, isBlank line = true) ∧
      constructStorage opened.storage.entries (leafAfter none opened.storage.entries) = .ok opened.storage ∧
      ((LinesRead body opened.storage.entries ∧ opened.file = bytes) ∨
        body ≠ [] ∧ LinesRead body.dropLast opened.storage.entries ∧
          opened.file = encodeUtf8 (unlines (blanks ++ first :: body.dropLast))) := by
  cases loads : loadJsonlStorage filePath file with
  | error error =>
    rw [SessionFile.openSession, loads] at success
    cases success
  | ok loaded =>
    obtain ⟨bytes, blanks, first, rest, header, rfl, split, leads, solid, parsed⟩ := loadJsonlStorage_ok loads
    obtain ⟨body, trail, rfl, ends, blank⟩ := exists_trail rest
    refine ⟨bytes, blanks, first, body, trail, header, rfl, split, leads, solid, parsed, blank, ?_⟩
    have lines := loadJsonlStorage_lines split leads solid ends blank parsed
    rw [loads] at lines
    cases entriesLoad : loadEntries filePath header.id (blanks.length + 1) body [] none with
    | error error =>
      rw [entriesLoad] at lines
      cases lines
    | ok loadedEntries =>
      rw [entriesLoad] at lines
      obtain ⟨entries, same, leaf, read⟩ := loadEntries_ok entriesLoad
      rw [List.nil_append] at same
      cases lines
      rw [SessionFile.openSession, loads] at success
      rcases read with ⟨intact, reads⟩ | ⟨salvaged, nonempty, reads⟩
      · dsimp only at success
        rw [intact] at success
        obtain ⟨storage, constructed, rfl⟩ := (except_map_eq_ok).mp success
        obtain rfl := (constructStorage_entries constructed).trans same
        rw [same, leaf] at constructed
        exact ⟨constructed, .inl ⟨reads, rfl⟩⟩
      · obtain ⟨salvage, dropped⟩ := Option.isSome_iff_exists.mp salvaged
        dsimp only at success
        rw [dropped] at success
        cases repair with
        | error error => cases success
        | ok _ =>
          obtain ⟨storage, constructed, rfl⟩ := (except_map_eq_ok).mp success
          obtain rfl := (constructStorage_entries constructed).trans same
          rw [same, leaf] at constructed
          exact ⟨constructed, .inr ⟨nonempty, reads, rfl⟩⟩

/-- Whatever file is opened, the storage is the one of the lines that the file holds then. -/
theorem holds_of_openSession (success : SessionFile.openSession filePath file repair = .ok opened) :
    ∃ header, HoldsLines filePath ((decodeUtf8 opened.file).splitOn '\n') header opened.storage.entries ∧
      constructStorage opened.storage.entries (leafAfter none opened.storage.entries) = .ok opened.storage := by
  obtain ⟨bytes, blanks, first, body, trail, header, rfl, split, leads, solid, parsed, blank, constructed, read⟩ :=
    openSession_lines success
  refine ⟨header, ?_, constructed⟩
  rcases read with ⟨reads, same⟩ | ⟨nonempty, reads, repaired⟩
  · rw [same]
    exact ⟨blanks, first, body ++ trail, split, leads, solid, parsed, (linesRead_append_blank blank).mpr reads⟩
  · refine ⟨blanks, first, body.dropLast ++ [[]], ?_, leads, solid, parsed,
      (linesRead_append_blank (by simp [isBlank, trim])).mpr reads⟩
    have single : ∀ line ∈ blanks ++ first :: body.dropLast, '\n' ∉ line := fun line member =>
      @notMem_of_mem_splitOn (decodeUtf8 bytes) _ (by
        have kept : line ∈ body.dropLast → line ∈ body := fun inside => List.dropLast_subset body inside
        simp only [split, List.mem_append, List.mem_cons] at member ⊢
        tauto)
    have lines := @splitOn_unlines _ [] single List.not_mem_nil
    rw [List.append_nil] at lines
    rw [repaired, decodeUtf8_encodeUtf8, lines]
    simp

/-- A header and its entries are all the lines that are not blank. -/
theorem HoldsLines.length (holds : HoldsLines filePath lines header entries) :
    (lines.filter fun line => !isBlank line).length = entries.length + 1 := by
  obtain ⟨blanks, first, rest, rfl, leads, solid, _, reads⟩ := holds
  have none_ : blanks.filter (fun line => !isBlank line) = [] :=
    List.filter_eq_nil_iff.mpr fun line member => by simp [leads line member]
  rw [List.filter_append, none_, List.nil_append, List.filter_cons_of_pos (by simp [solid]), List.length_cons,
    List.Forall₂.length_eq reads]

theorem LinesRead.parsed {line : List Char} (reads : LinesRead lines entries) (member : line ∈ lines)
    (solid : isBlank line = false) : ∃ entry ∈ entries, parse? line = some entry.value := by
  have kept : line ∈ lines.filter fun line => !isBlank line := List.mem_filter.mpr ⟨member, by simp [solid]⟩
  obtain ⟨i, bound, rfl⟩ := List.mem_iff_getElem.mp kept
  have within : i < entries.length := List.Forall₂.length_eq reads ▸ bound
  exact ⟨entries[i], List.getElem_mem within, List.Forall₂.get reads bound within⟩

theorem parsed_of_parseHeaderLine {line : List Char} (parsed : parseHeaderLine line filePath = .ok header) :
    ∃ members, parse? line = some (.obj members) := by
  unfold parseHeaderLine at parsed
  dsimp only at parsed
  split at parsed
  · cases parsed
  · next value same =>
    split at parsed
    · cases parsed
    · next session =>
      rw [not_or, not_not] at session
      rw [same]
      cases value with
      | obj members => exact ⟨members, rfl⟩
      | _ => cases session.2

/-- A line that is no JSON cuts off what stands behind it, if the file opens at all. -/
theorem holds_front {front : List (List Char)} {bad : List Char} {behind : List (List Char)}
    (success : SessionFile.openSession filePath (.ok bytes) repair = .ok opened)
    (split : (decodeUtf8 bytes).splitOn '\n' = front ++ bad :: behind) (solid : isBlank bad = false)
    (unparsed : parse? bad = none) : ∃ header, HoldsLines filePath front header opened.storage.entries := by
  obtain ⟨_, blanks, first, body, trail, header, same, split', leads, opens, parsed, blank, _, read⟩ :=
    openSession_lines success
  cases same
  rw [split] at split'
  have notRead {lines : List (List Char)} {entries : List StoredEntry} (reads : LinesRead lines entries) : bad ∉ lines :=
    fun member => by
      obtain ⟨entry, _, some_⟩ := reads.parsed member solid
      cases unparsed.symm.trans some_
  have notBlank {lines : List (List Char)} (all : ∀ line ∈ lines, isBlank line = true) : bad ∉ lines := fun member =>
    absurd ((all bad member).symm.trans solid) (by decide)
  have notFirst : bad ≠ first := by
    rintro rfl
    obtain ⟨members, some_⟩ := parsed_of_parseHeaderLine parsed
    cases unparsed.symm.trans some_
  have member : bad ∈ blanks ++ first :: (body ++ trail) := by
    rw [← split']
    exact List.mem_append_right _ List.mem_cons_self
  rcases read with ⟨reads, _⟩ | ⟨nonempty, reads, _⟩
  · simp only [List.mem_append, List.mem_cons, notBlank leads, notFirst, notRead reads, notBlank blank, or_self] at member
  · obtain ⟨others, last, rfl⟩ := (List.eq_nil_or_concat' body).resolve_left nonempty
    rw [List.dropLast_concat] at reads
    have here : bad = last := by
      simpa [notBlank leads, notFirst, notRead reads, notBlank blank] using member
    subst here
    have shape : blanks ++ first :: (others ++ [bad] ++ trail) = (blanks ++ first :: others) ++ bad :: trail := by simp
    have before : bad ∉ blanks ++ first :: others := by simp [notBlank leads, notFirst, notRead reads]
    rw [shape] at split'
    obtain ⟨rfl, _⟩ := (List.append_cons_inj_of_notMem before (notBlank blank)).mp split'.symm
    exact ⟨header, blanks, first, others, rfl, leads, opens, parsed, reads⟩

end Holds

end PieAgent.Proofs
