import PieAgent.Proofs.Session.EntryLiterals
import PieAgent.Proofs.Session.JsonlFile

/-! # The lines of a transcript

A transcript is loaded line by line: the header first, then every line that is not blank as the value it is
the text of. What a manager writes is read back as it was, when its header has the fields of the wire shape.
-/

namespace PieAgent.Proofs

open JavaScript PieAgent.Model.Transcript
open PieAgent.Model (encodeLine isBlank lastContentIndex nonemptyField? optionalField textField?)

section Lines

variable {filePath : JsString} {i : ℕ} {known entries more : List Json} {lines rest : List (List Char)} {line : List Char}
  {entry : Json}

/-- The lines that are not blank are the texts of the entries. -/
def LinesHold (lines : List (List Char)) (entries : List Json) : Prop :=
  (lines.filter fun line => !isBlank line).map parse? = entries.map some

theorem isBlank_of_parse? (parsed : parse? line = some entry) : isBlank line = false := by
  obtain ⟨space, used, space', rfl, _, _, reads, _⟩ := parse?_eq_some parsed
  obtain ⟨c, tail, rfl, visible, small, _⟩ := reads.head
  exact isBlank_of_mem (List.mem_append_left _ (List.mem_append_right _ List.mem_cons_self)) visible small

theorem linesHold_nil : LinesHold [] [] := rfl

theorem linesHold_blank (blank : isBlank line = true) : LinesHold (line :: lines) entries ↔ LinesHold lines entries := by
  rw [LinesHold, List.filter_cons_of_neg (by simp [blank])]
  rfl

theorem linesHold_solid (parsed : parse? line = some entry) :
    LinesHold (line :: lines) (entry :: entries) ↔ LinesHold lines entries := by
  rw [LinesHold, List.filter_cons_of_pos (by simp [isBlank_of_parse? parsed]), List.map_cons, List.map_cons, parsed,
    List.cons.injEq, and_iff_right rfl]
  rfl

theorem LinesHold.append (holds : LinesHold lines entries) (others : LinesHold rest more) :
    LinesHold (lines ++ rest) (entries ++ more) := by
  unfold LinesHold at *
  rw [List.filter_append, List.map_append, List.map_append, holds, others]

theorem linesHold_append_blank {trail : List (List Char)} (blank : ∀ line ∈ trail, isBlank line = true) :
    LinesHold (lines ++ trail) entries ↔ LinesHold lines entries := by
  have none_ : trail.filter (fun line => !isBlank line) = [] :=
    List.filter_eq_nil_iff.mpr fun line member => by simp [blank line member]
  rw [LinesHold, List.filter_append, none_, List.append_nil]
  rfl

theorem linesHold_texts (ordinary : ∀ entry ∈ entries, entry.ordinary = true) : LinesHold (entries.map stringify) entries := by
  induction entries with
  | nil => exact linesHold_nil
  | cons entry entries ih =>
    obtain ⟨first, others⟩ := List.forall_mem_cons.mp ordinary
    exact (linesHold_solid (parse?_stringify first)).mpr (ih others)

/-- Lines that hold entries hold ordinary values. -/
theorem LinesHold.ordinary (holds : LinesHold lines entries) (member : entry ∈ entries) : entry.ordinary = true := by
  have parsed : some entry ∈ (lines.filter fun line => !isBlank line).map parse? := by
    rw [holds]
    exact List.mem_map_of_mem member
  obtain ⟨line, _, same⟩ := List.mem_map.mp parsed
  exact ordinary_of_parse? same

/-- Lines of entries are loaded in order. -/
theorem loadLines_hold (holds : LinesHold lines entries) :
    loadLines filePath i (lines ++ rest) known = loadLines filePath (i + lines.length) rest (known ++ entries) := by
  induction lines generalizing i known entries with
  | nil =>
    rw [List.map_eq_nil_iff.mp holds.symm]
    simp
  | cons line lines ih =>
    rw [List.cons_append, loadLines, List.length_cons]
    have index : i + (lines.length + 1) = i + 1 + lines.length := by omega
    cases blank : isBlank line with
    | true => rw [if_pos rfl, ih ((linesHold_blank blank).mp holds), index]
    | false =>
      rw [if_neg (by decide)]
      rw [LinesHold, List.filter_cons_of_pos (by simp [blank]), List.map_cons] at holds
      cases entries with
      | nil => cases holds
      | cons entry entries =>
        obtain ⟨parsed, holds⟩ := List.cons.inj holds
        rw [parsed]
        dsimp only
        rw [ih holds, index, List.append_assoc]
        rfl

/-- What a load that succeeds has read, and which line it has dropped. -/
theorem loadLines_ok {loaded : List Json × Option ℕ} (success : loadLines filePath i lines known = .ok loaded) :
    ∃ entries, loaded.1 = known ++ entries ∧ ((loaded.2 = none ∧ LinesHold lines entries) ∨
      ∃ front last, loaded.2.isSome ∧ lines = front ++ [last] ∧ parse? last = none ∧ LinesHold front entries) := by
  induction lines generalizing i known with
  | nil =>
    cases success
    exact ⟨[], by simp, .inl ⟨rfl, linesHold_nil⟩⟩
  | cons line lines ih =>
    rw [loadLines] at success
    cases blank : isBlank line with
    | true =>
      rw [blank, if_pos rfl] at success
      obtain ⟨entries, same, read⟩ := ih success
      refine ⟨entries, same, read.imp (And.imp_right (linesHold_blank blank).mpr) ?_⟩
      rintro ⟨front, last, salvaged, rfl, unparsed, holds⟩
      exact ⟨line :: front, last, salvaged, rfl, unparsed, (linesHold_blank blank).mpr holds⟩
    | false =>
      rw [blank, if_neg (by decide)] at success
      cases parsed : parse? line with
      | some entry =>
        rw [parsed] at success
        obtain ⟨entries, same, read⟩ := ih success
        refine ⟨entry :: entries, by simp [same], read.imp (And.imp_right (linesHold_solid parsed).mpr) ?_⟩
        rintro ⟨front, last, salvaged, rfl, unparsed, holds⟩
        exact ⟨line :: front, last, salvaged, rfl, unparsed, (linesHold_solid parsed).mpr holds⟩
      | none =>
        rw [parsed] at success
        dsimp only at success
        split at success
        · cases success
        · next last =>
          rw [not_not] at last
          cases success
          subst last
          exact ⟨[], by simp, .inr ⟨[], line, rfl, rfl, parsed, linesHold_nil⟩⟩

end Lines

section Load

variable {filePath : JsString} {bytes : List UInt8} {first : List Char} {blanks body trail : List (List Char)}
  {header : SessionHeader} {entries : List Json}

/-- A transcript is loaded from its first line that is not blank to its last one. -/
theorem loadEntriesFromFile_lines (split : (decodeUtf8 bytes).splitOn '\n' = blanks ++ first :: (body ++ trail))
    (leads : ∀ line ∈ blanks, isBlank line = true) (solid : isBlank first = false)
    (ends : ∀ line ∈ body.getLast?, isBlank line = false) (blank : ∀ line ∈ trail, isBlank line = true)
    (parsed : parseSessionHeaderLine first = some header) :
    loadEntriesFromFile filePath bytes = (loadLines filePath (blanks.length + 1) body []).map fun loaded =>
      some ⟨header, loaded.1, loaded.2⟩ := by
  unfold loadEntriesFromFile
  dsimp only
  rw [split, findIdx?_first leads solid]
  dsimp only
  rw [getD_first, parsed, @lastContentIndex_eq blanks _ _ first ends blank]
  dsimp only
  rw [take_drop_body]

/-- The lines of a file are a header line, maybe after blank ones, and the lines of entries. -/
def HoldsTranscript (lines : List (List Char)) (header : SessionHeader) (entries : List Json) : Prop :=
  ∃ blanks first rest, lines = blanks ++ first :: rest ∧ (∀ line ∈ blanks, isBlank line = true) ∧
    isBlank first = false ∧ parseSessionHeaderLine first = some header ∧ LinesHold rest entries

theorem loadEntriesFromFile_holds (holds : HoldsTranscript ((decodeUtf8 bytes).splitOn '\n') header entries) :
    loadEntriesFromFile filePath bytes = .ok (some ⟨header, entries, none⟩) := by
  obtain ⟨blanks, first, rest, split, leads, solid, parsed, hold⟩ := holds
  obtain ⟨body, trail, rfl, ends, blank⟩ := exists_trail rest
  have lines := @loadLines_hold filePath (blanks.length + 1) [] _ _ [] ((linesHold_append_blank blank).mp hold)
  rw [List.append_nil, loadLines] at lines
  rw [loadEntriesFromFile_lines split leads solid ends blank parsed, lines]
  rfl

end Load

section Written

variable {filePath path : JsString} {bytes : List UInt8} {header : SessionHeader} {entries : List Json}
  {members : List (JsString × Json)} {lines : List (List Char)}

/-- A file that holds a transcript and can be appended to: only white space of JSON follows the last line feed. -/
def FileHolds (bytes : List UInt8) (header : SessionHeader) (entries : List Json) : Prop :=
  ∃ lines tail, decodeUtf8 bytes = unlines lines ++ tail ∧ (∀ line ∈ lines, '\n' ∉ line) ∧ Spaces tail ∧ '\n' ∉ tail ∧
    HoldsTranscript lines header entries

theorem HoldsTranscript.append {more : List (List Char)} {others : List Json} (holds : HoldsTranscript lines header entries)
    (rest : LinesHold more others) : HoldsTranscript (lines ++ more) header (entries ++ others) := by
  obtain ⟨blanks, first, body, rfl, leads, solid, parsed, hold⟩ := holds
  exact ⟨blanks, first, body ++ more, by simp, leads, solid, parsed, hold.append rest⟩

theorem FileHolds.loads (holds : FileHolds bytes header entries) :
    loadEntriesFromFile filePath bytes = .ok (some ⟨header, entries, none⟩) := by
  obtain ⟨lines, tail, content, single, blank, last, holds⟩ := holds
  apply loadEntriesFromFile_holds
  rw [content, splitOn_unlines single last]
  have nothing : LinesHold [tail] [] := (linesHold_blank (isBlank_of_spaces blank)).mpr linesHold_nil
  simpa using holds.append nothing

/-- An object that is appended on a line of its own is one more entry. -/
theorem FileHolds.append (holds : FileHolds bytes header entries) (ordinary : (Json.obj members).ordinary = true) :
    FileHolds (bytes ++ encodeUtf8 (stringify (.obj members) ++ ['\n'])) header (entries ++ [Json.obj members]) := by
  obtain ⟨lines, tail, content, single, blank, last, holds⟩ := holds
  obtain ⟨body, opening⟩ : ∃ body, stringify (.obj members) = '\x7b' :: body := ⟨_, rfl⟩
  refine ⟨lines ++ [tail ++ stringify (.obj members)], [], ?_, ?_, spaces_nil, List.not_mem_nil, ?_⟩
  · rw [opening, List.cons_append, decodeUtf8_append_ascii _ (by decide), content, unlines_append]
    simp [unlines]
  · refine List.forall_mem_append.mpr ⟨single, ?_⟩
    simp only [List.mem_singleton, forall_eq, List.mem_append, not_or]
    exact ⟨last, (singleLine_stringify _).notMem⟩
  · exact holds.append ((linesHold_solid (parse?_spaces blank (parse?_stringify ordinary))).mpr linesHold_nil)

private theorem unterminated_loads {text : List Char} {entry : Json} (single : ∀ line ∈ lines, '\n' ∉ line)
    (content : decodeUtf8 bytes = unlines lines ++ text) (last : '\n' ∉ text) (parsed : parse? text = some entry)
    (holds : HoldsTranscript lines header entries) :
    loadEntriesFromFile filePath bytes = .ok (some ⟨header, entries ++ [entry], none⟩) := by
  apply loadEntriesFromFile_holds
  rw [content, splitOn_unlines single last]
  exact holds.append ((linesHold_solid parsed).mpr linesHold_nil)

/-- A last line that is no JSON is dropped. -/
theorem torn_loads {text : List Char} (single : ∀ line ∈ lines, '\n' ∉ line)
    (content : decodeUtf8 bytes = unlines lines ++ text) (last : '\n' ∉ text) (solid : isBlank text = false)
    (unparsed : parse? text = none) (holds : HoldsTranscript lines header entries) :
    ∃ line, loadEntriesFromFile filePath bytes = .ok (some ⟨header, entries, some line⟩) := by
  obtain ⟨blanks, first, rest, rfl, leads, solidFirst, parsed, hold⟩ := holds
  have split : (decodeUtf8 bytes).splitOn '\n' = blanks ++ first :: ((rest ++ [text]) ++ []) := by
    rw [content, splitOn_unlines single last]
    simp
  have loaded := @loadLines_hold filePath (blanks.length + 1) [] _ _ [text] hold
  rw [loadLines, solid, if_neg (by decide), unparsed] at loaded
  refine ⟨blanks.length + 1 + rest.length + 1, ?_⟩
  rw [loadEntriesFromFile_lines split leads solidFirst (by simpa using solid) nofun parsed, loaded]
  rfl

/-- Of an object that is appended but cut short at some byte, the file holds nothing or the object. -/
theorem FileHolds.loads_cut (holds : FileHolds bytes header entries) (ordinary : (Json.obj members).ordinary = true)
    (n : ℕ) : ∃ kept salvaged, loadEntriesFromFile filePath
        (bytes ++ (encodeUtf8 (stringify (.obj members) ++ ['\n'])).take n) = .ok (some ⟨header, kept, salvaged⟩) ∧
      (kept = entries ∨ kept = entries ++ [Json.obj members]) := by
  rcases Nat.lt_or_ge (encodeUtf8 (stringify (.obj members))).length n with whole | short
  · rw [List.take_of_length_le (by rw [encodeUtf8_append, List.length_append]; exact whole)]
    exact ⟨_, _, (holds.append ordinary).loads, .inr rfl⟩
  have cut : (encodeUtf8 (stringify (.obj members) ++ ['\n'])).take n = (encodeUtf8 (stringify (.obj members))).take n := by
    rw [encodeUtf8_append, List.take_append_of_le_length short]
  rw [cut]
  rcases Nat.eq_zero_or_pos n with rfl | started
  · rw [List.take_zero, List.append_nil]
    exact ⟨_, _, holds.loads, .inl rfl⟩
  obtain ⟨lines, tail, content, single, blank, last, holds⟩ := holds
  have singleText := (singleLine_stringify (.obj members)).notMem
  rcases Nat.lt_or_eq_of_le short with inside | rfl
  · obtain ⟨back, taken, unparsed, known⟩ := decodeUtf8_cut_object (readsValue_stringify _ ordinary) started inside
    rw [taken]
    have torn : decodeUtf8 (bytes ++ (encodeChar '\x7b' ++ back)) = unlines lines ++ (tail ++ '\x7b' :: decodeUtf8 back) := by
      rw [decodeUtf8_ascii_between bytes (by decide) back, content, List.append_assoc]
    have singleTail : '\n' ∉ tail ++ '\x7b' :: decodeUtf8 back := by
      rw [List.mem_append, List.mem_cons]
      rintro (blank | brace | inside)
      · exact last blank
      · exact absurd brace (by decide)
      · exact (known _ inside).elim singleText (by decide)
    have unparsedTail : parse? (tail ++ '\x7b' :: decodeUtf8 back) = none := by
      by_contra parsed
      obtain ⟨value, parsed⟩ := Option.ne_none_iff_exists'.mp parsed
      have again := parse?_skipSpace parsed
      rw [skipSpace_append blank (by decide), unparsed] at again
      cases again
    have solid : isBlank (tail ++ '\x7b' :: decodeUtf8 back) = false :=
      isBlank_of_mem (c := '\x7b') (by simp) (by decide) (by decide)
    obtain ⟨line, loads⟩ := @torn_loads filePath _ _ _ _ _ single torn singleTail solid unparsedTail holds
    exact ⟨_, _, loads, .inl rfl⟩
  · rw [List.take_length]
    have text : decodeUtf8 (bytes ++ encodeUtf8 (stringify (.obj members))) =
        unlines lines ++ (tail ++ stringify (.obj members)) := by
      obtain ⟨body, opening⟩ : ∃ body, stringify (.obj members) = '\x7b' :: body := ⟨_, rfl⟩
      rw [opening, decodeUtf8_append_ascii _ (by decide), content, List.append_assoc]
    refine ⟨_, _, unterminated_loads single text ?_ (parse?_spaces blank (parse?_stringify ordinary)) holds, .inr rfl⟩
    rw [List.mem_append]
    exact not_or.mpr ⟨last, singleText⟩

/-- What a manager writes as a whole is read back as it was. -/
theorem fileHolds_fileContent (wired : HasWireShape header) (ordinary : ∀ entry ∈ entries, entry.ordinary = true) :
    FileHolds (fileContent header entries path) header entries := by
  have first := parse?_stringify (ordinary_serializeSessionHeader wired path)
  refine ⟨(serializeSessionHeader header path :: entries).map stringify, [], ?_, ?_, spaces_nil, List.not_mem_nil, ?_⟩
  · rw [fileContent, decodeUtf8_encodeUtf8, intercalate_eq_unlines (by simp), List.append_nil]
  · intro line member
    obtain ⟨value, _, rfl⟩ := List.mem_map.mp member
    exact (singleLine_stringify value).notMem
  · refine ⟨[], _, _, rfl, nofun, isBlank_of_parse? first, ?_, linesHold_texts ordinary⟩
    rw [parseSessionHeaderLine, first, Option.bind_some, parseSessionHeader_serialize wired]

end Written

end PieAgent.Proofs
