import Mathlib.Data.List.GetD
import PieAgent.JavaScript.Proofs.Fragments
import PieAgent.JavaScript.Proofs.SingleLine
import PieAgent.Model.Session.JsonlFile
import PieAgent.ToMathlib.RangeSearch

/-! # Reading a session file back

The lines of a file are the texts that were written, and each text is read as the value it was written
for. What a load does to a file is thus decided by its last line alone.
-/

namespace PieAgent.Proofs

open JavaScript PieAgent.Model

section Lines

/-- Each line with the line feed behind it. -/
def unlines (lines : List (List Char)) : List Char := lines.flatMap fun line => line ++ ['\n']

variable {lines : List (List Char)} {tail : List Char}

theorem unlines_append (front back : List (List Char)) : unlines (front ++ back) = unlines front ++ unlines back :=
  List.flatMap_append

theorem splitOn_unlines (single : ∀ line ∈ lines, '\n' ∉ line) (last : '\n' ∉ tail) :
    (unlines lines ++ tail).splitOn '\n' = lines ++ [tail] := by
  induction lines with
  | nil => exact List.splitOn_eq_singleton last
  | cons line lines ih =>
    obtain ⟨first, rest⟩ := List.forall_mem_cons.mp single
    have shape : unlines (line :: lines) ++ tail = line ++ '\n' :: (unlines lines ++ tail) := by simp [unlines]
    rw [shape, List.splitOn_append_cons_self_of_not_mem first, ih rest]
    rfl

/-- Every text is lines with a line feed behind them, and a last line without one. -/
theorem exists_unlines (text : List Char) :
    ∃ lines tail, text = unlines lines ++ tail ∧ (∀ line ∈ lines, '\n' ∉ line) ∧ '\n' ∉ tail := by
  induction text with
  | nil => exact ⟨[], [], rfl, nofun, nofun⟩
  | cons c text ih =>
    obtain ⟨lines, tail, rfl, single, last⟩ := ih
    by_cases feed : c = '\n'
    · exact ⟨[] :: lines, tail, by simp [unlines, feed], List.forall_mem_cons.mpr ⟨List.not_mem_nil, single⟩, last⟩
    · have stays {line : List Char} (absent : '\n' ∉ line) : '\n' ∉ c :: line := fun member =>
        (List.mem_cons.mp member).elim (fun same => feed same.symm) absent
      cases lines with
      | nil => exact ⟨[], c :: tail, rfl, nofun, stays last⟩
      | cons line lines =>
        obtain ⟨first, others⟩ := List.forall_mem_cons.mp single
        exact ⟨(c :: line) :: lines, tail, by simp [unlines], List.forall_mem_cons.mpr ⟨stays first, others⟩, last⟩

theorem notMem_of_mem_splitOn {text line : List Char} (member : line ∈ text.splitOn '\n') : '\n' ∉ line := by
  obtain ⟨lines, tail, rfl, single, last⟩ := exists_unlines text
  rw [splitOn_unlines single last, List.mem_append, List.mem_singleton] at member
  rcases member with inside | rfl
  · exact single line inside
  · exact last

theorem intercalate_eq_unlines (nonempty : lines ≠ []) : ['\n'].intercalate lines ++ ['\n'] = unlines lines := by
  induction lines with
  | nil => exact absurd rfl nonempty
  | cons line lines ih =>
    cases lines with
    | nil => simp [unlines]
    | cons next lines =>
      have rest := ih (List.cons_ne_nil _ _)
      rw [List.intercalate_cons_cons, List.append_assoc, rest]
      simp [unlines]

theorem isBlank_iff {line : List Char} : isBlank line = true ↔ ∀ unit ∈ ofText line, isWhitespace unit.toNat = true := by
  rw [isBlank, decide_eq_true_eq, trim_eq_nil_iff]

/-- A line with a character other than white space is not blank. -/
theorem isBlank_of_mem {c : Char} {line : List Char} (member : c ∈ line) (visible : isWhitespace c.toNat = false)
    (small : c.toNat < 0x10000) : isBlank line = false := by
  by_contra blank
  have unit : UInt16.ofNat c.toNat ∈ ofText line :=
    List.mem_flatMap.mpr ⟨c, member, by rw [utf16, if_pos small]; exact List.mem_cons_self⟩
  have white := (isBlank_iff).mp (by simpa using blank) _ unit
  rw [UInt16.toNat_ofNat_of_lt' small, visible] at white
  cases white

/-- A line that starts with a character other than white space is not blank. -/
theorem isBlank_cons {c : Char} (visible : isWhitespace c.toNat = false) (small : c.toNat < 0x10000) (rest : List Char) :
    isBlank (c :: rest) = false :=
  isBlank_of_mem List.mem_cons_self visible small

/-- White space of JSON is white space. -/
theorem isBlank_of_spaces {line : List Char} (blank : Spaces line) : isBlank line = true := by
  refine (isBlank_iff).mpr fun unit member => ?_
  obtain ⟨c, inside, units⟩ := List.mem_flatMap.mp member
  have space := blank c inside
  simp only [isJsonSpace, Bool.or_eq_true, beq_iff_eq] at space
  rcases space with ((rfl | rfl) | rfl) | rfl <;>
  · rw [List.mem_singleton.mp units]
    decide

/-- The blank lines at the end. -/
theorem exists_trail (lines : List (List Char)) : ∃ body trail, lines = body ++ trail ∧
    (∀ line ∈ body.getLast?, isBlank line = false) ∧ ∀ line ∈ trail, isBlank line = true := by
  induction lines using List.reverseRecOn with
  | nil => exact ⟨[], [], rfl, nofun, nofun⟩
  | append_singleton lines line ih =>
    cases blank : isBlank line with
    | false =>
      refine ⟨lines ++ [line], [], (List.append_nil _).symm, ?_, nofun⟩
      simp [blank]
    | true =>
      obtain ⟨body, trail, rfl, ends, blanks⟩ := ih
      exact ⟨body, trail ++ [line], List.append_assoc .., ends,
        List.forall_mem_append.mpr ⟨blanks, by simpa using blank⟩⟩

end Lines

section Load

variable {filePath : JsString} {bytes : List UInt8} {first : List Char} {blanks body trail : List (List Char)}

theorem lastContentIndex_eq (first : List Char) (ends : ∀ line ∈ body.getLast?, isBlank line = false)
    (blank : ∀ line ∈ trail, isBlank line = true) :
    lastContentIndex (blanks ++ first :: (body ++ trail)) blanks.length = blanks.length + body.length := by
  have size : (blanks ++ first :: (body ++ trail)).length = blanks.length + body.length + trail.length + 1 := by
    simp only [List.length_append, List.length_cons]
    omega
  have after : ∀ i, blanks.length + body.length < i → i < (blanks ++ first :: (body ++ trail)).length →
      isBlank ((blanks ++ first :: (body ++ trail)).getD i []) = true := by
    intro i beyond bound
    have shape : blanks ++ first :: (body ++ trail) = (blanks ++ first :: body) ++ trail := by simp
    have front : (blanks ++ first :: body).length ≤ i := by
      simp only [List.length_append, List.length_cons]
      omega
    rw [List.getD_eq_getElem _ _ bound]
    simp only [shape] at bound ⊢
    rw [List.getElem_append_right front]
    exact blank _ (List.getElem_mem _)
  unfold lastContentIndex
  rcases List.eq_nil_or_concat' body with rfl | ⟨others, last, rfl⟩
  · rw [List.find?_reverse_range'_eq_none_iff.mpr]
    · rfl
    · intro i lower upper
      rw [after i (by simp only [List.length_nil]; omega) (by omega)]
      rfl
  · rw [List.find?_reverse_range'_isGreatest.mpr (?_ : IsGreatest _ (blanks.length + (others ++ [last]).length))]
    · rfl
    · have nonempty : 0 < (others ++ [last]).length := by simp
      refine ⟨⟨by omega, by omega, ?_⟩, ?_⟩
      · have here : (blanks ++ first :: (others ++ [last] ++ trail)).getD (blanks.length + (others ++ [last]).length) [] =
            last := by
          have index : blanks.length + (others ++ [last]).length = (blanks ++ first :: others).length := by
            simp only [List.length_append, List.length_cons, List.length_nil]
          have shape : blanks ++ first :: (others ++ [last] ++ trail) = (blanks ++ first :: others) ++ last :: trail := by
            simp
          rw [shape, index, List.getD_append_right _ _ _ _ le_rfl, Nat.sub_self]
          rfl
        rw [here, ends last (by simp)]
        rfl
      · rintro i ⟨lower, upper, hit⟩
        by_contra beyond
        rw [after i (by omega) (by omega)] at hit
        cases hit

/-- The first line that is not blank. -/
theorem findIdx?_first {rest : List (List Char)} (leads : ∀ line ∈ blanks, isBlank line = true)
    (solid : isBlank first = false) :
    (blanks ++ first :: rest).findIdx? (fun line => !isBlank line) = some blanks.length := by
  have skipped : blanks.findIdx? (fun line => !isBlank line) = none :=
    List.findIdx?_eq_none_iff.mpr fun line member => by rw [leads line member]; rfl
  rw [List.findIdx?_append, skipped, List.findIdx?_cons, solid]
  simp

theorem getD_first {rest : List (List Char)} : (blanks ++ first :: rest).getD blanks.length [] = first := by
  rw [List.getD_append_right _ _ _ _ le_rfl, Nat.sub_self, List.getD_cons_zero]

/-- The lines behind the first one, up to the last that is not blank. -/
theorem take_drop_body : ((blanks ++ first :: (body ++ trail)).take (blanks.length + body.length + 1)).drop
    (blanks.length + 1) = body := by
  have front : blanks ++ first :: (body ++ trail) = (blanks ++ first :: body) ++ trail := by simp
  have size : blanks.length + body.length + 1 = (blanks ++ first :: body).length := by
    simp only [List.length_append, List.length_cons]
    omega
  rw [front, size, List.take_left, List.append_cons, List.drop_left' (by simp)]

/-- A file is loaded line by line from its first line that is not blank to its last one. -/
theorem loadJsonlStorage_lines {header : SessionHeader}
    (split : (decodeUtf8 bytes).splitOn '\n' = blanks ++ first :: (body ++ trail))
    (leads : ∀ line ∈ blanks, isBlank line = true) (solid : isBlank first = false)
    (ends : ∀ line ∈ body.getLast?, isBlank line = false) (blank : ∀ line ∈ trail, isBlank line = true)
    (reads : parseHeaderLine first filePath = .ok header) :
    loadJsonlStorage filePath (.ok bytes) =
      (loadEntries filePath header.id (blanks.length + 1) body [] none).map fun loaded =>
        { loaded with
          header
          repairedContent :=
            if loaded.salvagedTail.isSome then some (unlines (blanks ++ first :: body.dropLast)) else none } := by
  have last := @lastContentIndex_eq blanks _ _ first ends blank
  unfold loadJsonlStorage
  dsimp only
  rw [split, findIdx?_first leads solid]
  dsimp only
  rw [getD_first, reads]
  dsimp only
  rw [last, take_drop_body]
  have kept : body ≠ [] → (blanks ++ first :: (body ++ trail)).take (blanks.length + body.length) =
      blanks ++ first :: body.dropLast := by
    intro nonempty
    have front : blanks ++ first :: (body ++ trail) = (blanks ++ first :: body.dropLast) ++ (body.getLast nonempty :: trail) := by
      rw [List.append_assoc, List.cons_append, List.append_cons body.dropLast, List.dropLast_append_getLast]
    have size : blanks.length + body.length = (blanks ++ first :: body.dropLast).length := by
      have := List.length_pos_of_ne_nil nonempty
      simp only [List.length_append, List.length_cons, List.length_dropLast]
      omega
    rw [front, size, List.take_left]
  cases body with
  | nil => rfl
  | cons line rest =>
    cases loadEntries filePath header.id (blanks.length + 1) (line :: rest) [] none with
    | error error => rfl
    | ok loaded =>
      dsimp only [Except.map]
      rw [kept (List.cons_ne_nil _ _), intercalate_eq_unlines (by simp)]

/-- A file that opens with a header line is loaded line by line, up to the blank lines at its end. -/
theorem loadJsonlStorage_split {header : SessionHeader}
    (split : (decodeUtf8 bytes).splitOn '\n' = first :: (body ++ trail)) (solid : ∀ line ∈ first :: body, isBlank line = false)
    (blank : ∀ line ∈ trail, isBlank line = true) (reads : parseHeaderLine first filePath = .ok header) :
    loadJsonlStorage filePath (.ok bytes) = (loadEntries filePath header.id 1 body [] none).map fun loaded =>
      { loaded with
        header
        repairedContent := if loaded.salvagedTail.isSome then some (unlines (first :: body.dropLast)) else none } := by
  obtain ⟨opens, others⟩ := List.forall_mem_cons.mp solid
  have ends : ∀ line ∈ body.getLast?, isBlank line = false := fun line member => others line (List.mem_of_getLast? member)
  simpa using @loadJsonlStorage_lines _ _ _ [] _ _ _ split nofun opens ends blank reads

end Load

section Texts

variable {entry : StoredEntry} {filePath : JsString} {lineNumber : ℕ} {line : List Char}

/-- The text of an entry in the file. -/
abbrev text (entry : StoredEntry) : List Char := stringify entry.value

/-- An entry is an object. -/
theorem exists_members (entry : StoredEntry) : ∃ members, entry.value = .obj members := by
  have accepted := entry.accepted
  unfold entryProblem at accepted
  cases shape : entry.value with
  | obj members => exact ⟨members, rfl⟩
  | arr items => rw [shape] at accepted; cases accepted
  | _ => rw [shape] at accepted; cases accepted

theorem text_opens (entry : StoredEntry) : ∃ body, text entry = '\x7b' :: body := by
  obtain ⟨members, shape⟩ := exists_members entry
  exact ⟨stringifyMembers members, by rw [text, shape]; rfl⟩

theorem isBlank_text (entry : StoredEntry) : isBlank (text entry) = false := by
  obtain ⟨body, opens⟩ := text_opens entry
  rw [opens]
  exact isBlank_cons (by decide) (by decide) body

theorem parseEntryLine_text (ordinary : entry.value.ordinary = true) :
    parseEntryLine (text entry) filePath lineNumber = .ok entry := by
  unfold parseEntryLine
  rw [parse?_stringify ordinary]
  exact dif_pos entry.accepted

theorem parseEntryLine_of_none (unparsed : parse? line = none) :
    parseEntryLine line filePath lineNumber = .error (invalidEntry filePath lineNumber (js "is not valid JSON")) := by
  unfold parseEntryLine
  rw [unparsed]

end Texts

section Entries

variable (filePath sessionId : JsString) (i : ℕ) (known : List StoredEntry) (leafId : Option JsString)
  {entries : List StoredEntry} {torn : List Char}

/-- The lines of entries are read in order. -/
theorem loadEntries_texts (typed : ∀ entry ∈ entries, entry.Typed) (rest : List (List Char)) :
    ∃ leafId', loadEntries filePath sessionId i (entries.map text ++ rest) known leafId =
      loadEntries filePath sessionId (i + entries.length) rest (known ++ entries) leafId' := by
  induction entries generalizing i known leafId with
  | nil => exact ⟨leafId, by simp⟩
  | cons entry entries ih =>
    obtain ⟨first, others⟩ := List.forall_mem_cons.mp typed
    obtain ⟨leafId', same⟩ := ih (i + 1) (known ++ [entry]) (leafIdAfterEntry entry) others
    refine ⟨leafId', ?_⟩
    rw [List.map_cons, List.cons_append, loadEntries, isBlank_text, if_neg (by decide), parseEntryLine_text first.ordinary]
    dsimp only
    rw [same, List.append_assoc, List.length_cons, Nat.add_right_comm, Nat.add_assoc]
    rfl

/-- The last line is dropped when it is no JSON. -/
theorem loadEntries_torn (solid : isBlank torn = false) (unparsed : parse? torn = none) :
    ∃ salvage, loadEntries filePath sessionId i [torn] known leafId = .ok ⟨known, leafId, some salvage⟩ := by
  rw [loadEntries, solid, if_neg (by decide), parseEntryLine_of_none unparsed]
  exact ⟨_, rfl⟩

/-- Any earlier line that is no JSON ends the load. -/
theorem loadEntries_fails (solid : isBlank torn = false) (unparsed : parse? torn = none) {rest : List (List Char)}
    (more : rest ≠ []) :
    ∃ error, loadEntries filePath sessionId i (torn :: rest) known leafId = .error error := by
  rw [loadEntries, solid, if_neg (by decide), parseEntryLine_of_none unparsed]
  exact ⟨_, if_pos more⟩

/-- The label cache can be updated with every typed entry. -/
theorem updateLabelCache_typed {entry : StoredEntry} (typed : entry.Typed) (labelsById : LabelCache) :
    ∃ updated, updateLabelCache labelsById entry = .ok updated := by
  unfold updateLabelCache
  split
  · exact ⟨_, rfl⟩
  · next labels =>
    rw [not_not] at labels
    obtain ⟨targetId, target⟩ := Option.isSome_iff_exists.mp (typed.target labels)
    rcases typed.label labels with absent | present
    · rw [absent, target]
      exact ⟨_, rfl⟩
    · obtain ⟨label, known⟩ := Option.isSome_iff_exists.mp present
      obtain ⟨value, found, isText⟩ := Option.bind_eq_some_iff.mp known
      cases value with
      | str _ => rw [found, target]; exact ⟨_, rfl⟩
      | _ => cases isText

theorem constructStorage_typed (typed : ∀ entry ∈ entries, entry.Typed) :
    ∃ storage, constructStorage entries leafId = .ok storage ∧ storage.entries = entries := by
  have built : ∀ labelsById, ∃ labels, entries.foldlM updateLabelCache labelsById = .ok labels := by
    induction entries with
    | nil => exact fun labelsById => ⟨labelsById, rfl⟩
    | cons entry entries ih =>
      obtain ⟨first, others⟩ := List.forall_mem_cons.mp typed
      intro labelsById
      obtain ⟨updated, same⟩ := updateLabelCache_typed first labelsById
      obtain ⟨labels, rest⟩ := ih others updated
      exact ⟨labels, by rw [List.foldlM_cons, same]; exact rest⟩
  obtain ⟨labels, same⟩ := built []
  exact ⟨⟨entries, labels, leafId⟩, by rw [constructStorage, buildLabelsById, same], rfl⟩

end Entries

section Header

variable {header : SessionHeader}

private theorem ordinary_header (header : SessionHeader) : header.value.ordinary = true := by
  cases header with
  | mk id timestamp cwd parentSession =>
    cases parentSession with
    | none =>
      refine ordinary_obj_of_plain ?_ ?_ rfl
      · show ([js "type", js "version", js "id", js "timestamp", js "cwd"] : List JsString).Nodup
        decide
      · show ∀ key ∈ ([js "type", js "version", js "id", js "timestamp", js "cwd"] : List JsString), arrayIndex? key = none
        decide
    | some parent =>
      refine ordinary_obj_of_plain ?_ ?_ rfl
      · show ([js "type", js "version", js "id", js "timestamp", js "cwd", js "parentSession"] : List JsString).Nodup
        decide
      · show ∀ key ∈ ([js "type", js "version", js "id", js "timestamp", js "cwd", js "parentSession"] : List JsString),
          arrayIndex? key = none
        decide

theorem isBlank_header (header : SessionHeader) : isBlank (stringify header.value) = false :=
  isBlank_cons (by decide) (by decide) _

private theorem id_header (header : SessionHeader) :
    nonemptyField? header.value "id" = (some header.id).filter (· ≠ []) := rfl

private theorem timestamp_header (header : SessionHeader) :
    nonemptyField? header.value "timestamp" = (some header.timestamp).filter (· ≠ []) := rfl

private theorem cwd_header (header : SessionHeader) :
    nonemptyField? header.value "cwd" = (some header.cwd).filter (· ≠ []) := rfl

private theorem parentSession_header (header : SessionHeader) :
    header.value.get? (js "parentSession") = header.parentSession.map .str := by
  cases header with
  | mk id timestamp cwd parentSession => cases parentSession <;> rfl

private theorem kind_header (header : SessionHeader) :
    ¬ (!isRecord header.value ∨ textField? header.value "type" ≠ some (js "session")) := by
  rintro (notRecord | other)
  · exact Bool.false_ne_true notRecord
  · exact other rfl

private theorem version_header (header : SessionHeader) :
    ¬ header.value.get? (js "version") ≠ some (.num ⟨['3'], rfl⟩) := not_not.mpr rfl

/-- A header is read back when its fields are not empty. -/
theorem parseHeaderLine_text (filePath : JsString) (id : header.id ≠ []) (timestamp : header.timestamp ≠ [])
    (cwd : header.cwd ≠ []) : parseHeaderLine (stringify header.value) filePath = .ok header := by
  unfold parseHeaderLine
  rw [parse?_stringify (ordinary_header header)]
  dsimp only
  rw [if_neg (kind_header header), if_neg (version_header header), id_header, timestamp_header, cwd_header]
  rw [Option.filter_some_pos (by simpa using id), Option.filter_some_pos (by simpa using timestamp),
    Option.filter_some_pos (by simpa using cwd)]
  dsimp only
  rw [parentSession_header]
  cases header with
  | mk id timestamp cwd parentSession => cases parentSession <;> rfl

/-- A header without an id or a directory is never read back. -/
theorem parseHeaderLine_empty (filePath : JsString) (empty : header.id = [] ∨ header.cwd = []) :
    ∃ error, parseHeaderLine (stringify header.value) filePath = .error error := by
  unfold parseHeaderLine
  rw [parse?_stringify (ordinary_header header)]
  dsimp only
  rw [if_neg (kind_header header), if_neg (version_header header), id_header, timestamp_header, cwd_header]
  rcases empty with empty | empty
  · rw [empty]
    exact ⟨_, rfl⟩
  · rw [empty]
    cases (some header.id).filter (· ≠ []) with
    | none => exact ⟨_, rfl⟩
    | some id =>
      cases (some header.timestamp).filter (· ≠ []) with
      | none => exact ⟨_, rfl⟩
      | some timestamp => exact ⟨_, rfl⟩

end Header

section Open

variable (filePath : JsString) {bytes : List UInt8} {header : SessionHeader} {entries : List StoredEntry}
  {tail : List Char}

/-- The lines of a session. -/
def sessionLines (header : SessionHeader) (entries : List StoredEntry) : List (List Char) :=
  stringify header.value :: entries.map text

def sessionText (header : SessionHeader) (entries : List StoredEntry) : List Char := unlines (sessionLines header entries)

theorem sessionText_append (header : SessionHeader) (entries more : List StoredEntry) :
    sessionText header (entries ++ more) = sessionText header entries ++ unlines (more.map text) := by
  rw [sessionText, sessionLines, List.map_append, ← List.cons_append, unlines_append]
  rfl

theorem sessionLines_single (header : SessionHeader) (entries : List StoredEntry) :
    ∀ line ∈ sessionLines header entries, '\n' ∉ line := by
  intro line member
  rcases List.mem_cons.mp member with rfl | member
  · exact (singleLine_stringify _).notMem
  · obtain ⟨entry, _, rfl⟩ := List.mem_map.mp member
    exact (singleLine_stringify _).notMem

theorem sessionLines_solid (header : SessionHeader) (entries : List StoredEntry) :
    ∀ line ∈ sessionLines header entries, isBlank line = false := by
  intro line member
  rcases List.mem_cons.mp member with rfl | member
  · exact isBlank_header header
  · obtain ⟨entry, _, rfl⟩ := List.mem_map.mp member
    exact isBlank_text entry

/-- A header that is read back. -/
def Readable (header : SessionHeader) : Prop := header.id ≠ [] ∧ header.timestamp ≠ [] ∧ header.cwd ≠ []

private theorem openSession_of_load {first : List Char} {body trail : List (List Char)} {leafId : Option JsString}
    (split : (decodeUtf8 bytes).splitOn '\n' = first :: (body ++ trail)) (solid : ∀ line ∈ first :: body, isBlank line = false)
    (blank : ∀ line ∈ trail, isBlank line = true) (reads : parseHeaderLine first filePath = .ok header)
    {salvage : Option SalvagedSessionTail}
    (loads : loadEntries filePath header.id 1 body [] none = .ok ⟨entries, leafId, salvage⟩)
    (typed : ∀ entry ∈ entries, entry.Typed) :
    ∃ opened, SessionFile.openSession filePath (.ok bytes) (.ok ()) = .ok opened ∧ opened.storage.entries = entries ∧
      opened.file = if salvage.isSome then encodeUtf8 (unlines (first :: body.dropLast)) else bytes := by
  obtain ⟨storage, constructed, same⟩ := constructStorage_typed leafId typed
  have loaded := loadJsonlStorage_split split solid blank reads
  rw [loads] at loaded
  unfold SessionFile.openSession
  rw [loaded]
  cases salvage with
  | none =>
    refine ⟨⟨⟨bytes, storage⟩, none⟩, ?_, same, rfl⟩
    dsimp only [Except.map]
    rw [constructed]
    rfl
  | some salvage =>
    refine ⟨⟨⟨_, storage⟩, some (formatSalvagedTailNotice salvage ++ js "\n")⟩, ?_, same, rfl⟩
    dsimp only [Except.map, Option.isSome_some]
    rw [constructed]
    rfl

private theorem append_solid {lines : List (List Char)} (solid : ∀ line ∈ lines, isBlank line = false) :
    ∀ line ∈ stringify header.value :: (entries.map text ++ lines), isBlank line = false := by
  rw [← List.cons_append]
  exact List.forall_mem_append.mpr ⟨sessionLines_solid header entries, solid⟩

section Readable

variable (readable : Readable header) (typed : ∀ entry ∈ entries, entry.Typed)
include readable typed

/-- Opening the file of a session gives its entries. -/
theorem openSession_text (content : decodeUtf8 bytes = sessionText header entries) :
    ∃ opened, SessionFile.openSession filePath (.ok bytes) (.ok ()) = .ok opened ∧ opened.storage.entries = entries ∧
      opened.file = bytes := by
  have split : (decodeUtf8 bytes).splitOn '\n' = stringify header.value :: (entries.map text ++ [[]]) := by
    rw [content, sessionText, ← List.append_nil (unlines _), splitOn_unlines (sessionLines_single header entries) List.not_mem_nil]
    rfl
  obtain ⟨leafId, loads⟩ := loadEntries_texts filePath header.id 1 [] none typed []
  rw [List.append_nil] at loads
  exact openSession_of_load filePath split (sessionLines_solid header entries) (by simp [isBlank, trim])
    (parseHeaderLine_text filePath readable.1 readable.2.1 readable.2.2) loads typed

/-- A last line without its line feed is read all the same, and the file is left alone. -/
theorem openSession_unterminated {last : StoredEntry} (lastTyped : last.Typed)
    (content : decodeUtf8 bytes = sessionText header entries ++ text last) :
    ∃ opened, SessionFile.openSession filePath (.ok bytes) (.ok ()) = .ok opened ∧
      opened.storage.entries = entries ++ [last] ∧ opened.file = bytes := by
  have split : (decodeUtf8 bytes).splitOn '\n' = stringify header.value :: ((entries ++ [last]).map text ++ []) := by
    rw [content, sessionText, splitOn_unlines (sessionLines_single header entries) (singleLine_stringify _).notMem,
      List.append_nil, List.map_append]
    rfl
  have allTyped : ∀ entry ∈ entries ++ [last], entry.Typed :=
    List.forall_mem_append.mpr ⟨typed, by simpa using lastTyped⟩
  obtain ⟨leafId, loads⟩ := loadEntries_texts filePath header.id 1 [] none allTyped []
  rw [List.append_nil] at loads
  exact openSession_of_load filePath split (sessionLines_solid header (entries ++ [last])) nofun
    (parseHeaderLine_text filePath readable.1 readable.2.1 readable.2.2) loads allTyped

/-- A last line that is no JSON is dropped, and the file is cut back to the lines before it. -/
private theorem openSession_dropped (trail : List (List Char))
    (split : (decodeUtf8 bytes).splitOn '\n' = stringify header.value :: ((entries.map text ++ [tail]) ++ trail))
    (solid : isBlank tail = false) (unparsed : parse? tail = none) (blank : ∀ line ∈ trail, isBlank line = true) :
    ∃ opened, SessionFile.openSession filePath (.ok bytes) (.ok ()) = .ok opened ∧ opened.storage.entries = entries ∧
      opened.file = encodeUtf8 (sessionText header entries) := by
  obtain ⟨leafId, loads⟩ := loadEntries_texts filePath header.id 1 [] none typed [tail]
  obtain ⟨salvage, dropped⟩ := loadEntries_torn filePath header.id (1 + entries.length) entries leafId solid unparsed
  rw [List.nil_append, dropped] at loads
  obtain ⟨opened, success, same, file⟩ := openSession_of_load filePath split (append_solid (by simpa using solid)) blank
    (parseHeaderLine_text filePath readable.1 readable.2.1 readable.2.2) loads typed
  refine ⟨opened, success, same, ?_⟩
  rw [file, Option.isSome_some, if_pos rfl, List.dropLast_concat]
  rfl

/-- A tail that is no JSON is dropped. -/
theorem openSession_torn (content : decodeUtf8 bytes = sessionText header entries ++ tail) (single : '\n' ∉ tail)
    (solid : isBlank tail = false) (unparsed : parse? tail = none) :
    ∃ opened, SessionFile.openSession filePath (.ok bytes) (.ok ()) = .ok opened ∧ opened.storage.entries = entries ∧
      opened.file = encodeUtf8 (sessionText header entries) := by
  refine openSession_dropped filePath readable typed [] ?_ solid unparsed nofun
  rw [content, sessionText, splitOn_unlines (sessionLines_single header entries) single, List.append_nil]
  rfl

/-- A line that is no JSON is dropped when it is the last, and ends the load when it is not. -/
theorem openSession_glued {glued : List Char} {more : List StoredEntry}
    (content : decodeUtf8 bytes = sessionText header entries ++ unlines (glued :: more.map text)) (single : '\n' ∉ glued)
    (solid : isBlank glued = false) (unparsed : parse? glued = none) {opened : SessionFile.Opened}
    (success : SessionFile.openSession filePath (.ok bytes) (.ok ()) = .ok opened) : opened.storage.entries = entries := by
  have split : (decodeUtf8 bytes).splitOn '\n' =
      stringify header.value :: ((entries.map text ++ glued :: more.map text) ++ [[]]) := by
    have lines : sessionText header entries ++ unlines (glued :: more.map text) =
        unlines (sessionLines header entries ++ glued :: more.map text) ++ [] := by
      rw [List.append_nil, unlines_append]
      rfl
    rw [content, lines, splitOn_unlines _ List.not_mem_nil]
    · rfl
    · refine List.forall_mem_append.mpr ⟨sessionLines_single header entries, List.forall_mem_cons.mpr ⟨single, fun line member => ?_⟩⟩
      exact sessionLines_single header more line (List.mem_cons_of_mem _ member)
  have blank : ∀ line ∈ ([[]] : List (List Char)), isBlank line = true := by simp [isBlank, trim]
  cases more with
  | nil =>
    obtain ⟨opened', success', same, _⟩ := openSession_dropped filePath readable typed [[]] split solid unparsed blank
    rw [success'] at success
    cases success
    exact same
  | cons next more =>
    obtain ⟨leafId, loads⟩ := loadEntries_texts filePath header.id 1 [] none typed (glued :: (next :: more).map text)
    obtain ⟨error, fails⟩ := loadEntries_fails filePath header.id (1 + entries.length) entries leafId solid unparsed
      (show (next :: more).map text ≠ [] by simp)
    rw [List.nil_append, fails] at loads
    have loaded := loadJsonlStorage_split split (append_solid (List.forall_mem_cons.mpr ⟨solid, fun line member => ?_⟩)) blank
      (parseHeaderLine_text filePath readable.1 readable.2.1 readable.2.2)
    · rw [loads] at loaded
      rw [SessionFile.openSession, loaded] at success
      cases success
    · exact sessionLines_solid header (next :: more) line (List.mem_cons_of_mem _ member)

end Readable

/-- Without a readable header the file of a session is never opened. -/
theorem openSession_unreadable (empty : header.id = [] ∨ header.cwd = []) {rest : List Char}
    (content : decodeUtf8 bytes = stringify header.value ++ '\n' :: rest) (opened : SessionFile.Opened) :
    SessionFile.openSession filePath (.ok bytes) (.ok ()) ≠ .ok opened := by
  obtain ⟨error, fails⟩ := parseHeaderLine_empty filePath empty
  have split : (decodeUtf8 bytes).splitOn '\n' = stringify header.value :: rest.splitOn '\n' := by
    rw [content, List.splitOn_append_cons_self_of_not_mem (singleLine_stringify _).notMem]
  have start : (stringify header.value :: rest.splitOn '\n').findIdx? (fun line => !isBlank line) = some 0 := by
    rw [List.findIdx?_cons, isBlank_header]
    rfl
  have loaded : loadJsonlStorage filePath (.ok bytes) = .error (withRecoveryHint error) := by
    unfold loadJsonlStorage
    dsimp only
    rw [split, start]
    dsimp only
    rw [List.getD_cons_zero, fails]
  rw [SessionFile.openSession, loaded]
  exact nofun

end Open

section Append

theorem encodeLine_eq (entry : StoredEntry) : encodeLine entry.value = encodeUtf8 (unlines [text entry]) := by
  rw [unlines, List.flatMap_singleton]
  rfl

/-- Appends write the lines of their entries. -/
theorem appendAll_typed {entries : List StoredEntry} (typed : ∀ entry ∈ entries, entry.Typed) (session : SessionFile) :
    ∃ extended, session.appendAll entries = .ok extended ∧
      extended.file = session.file ++ encodeUtf8 (unlines (entries.map text)) := by
  induction entries generalizing session with
  | nil => exact ⟨session, rfl, by simp [unlines]⟩
  | cons entry entries ih =>
    obtain ⟨first, others⟩ := List.forall_mem_cons.mp typed
    obtain ⟨updated, same⟩ := updateLabelCache_typed first session.storage.labelsById
    have pushed : (session.storage.push entry).2 = .ok () := by
      rw [JsonlSessionStorage.push, same]
    obtain ⟨extended, rest, file⟩ :=
      ih others ⟨session.file ++ encodeLine entry.value, (session.storage.push entry).1⟩
    refine ⟨extended, ?_, ?_⟩
    · rw [SessionFile.appendAll, SessionFile.appendEntry, pushed]
      exact rest
    · rw [file, encodeLine_eq, List.append_assoc, ← encodeUtf8_append, ← unlines_append]
      rfl

end Append

end PieAgent.Proofs
