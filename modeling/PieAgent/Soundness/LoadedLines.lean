import PieAgent.Proofs.Session.FileLines

/-! # What a session file loads to

The lines behind the header that are not blank decide what is loaded. One that is no entry makes the load fail unless it
is the last one, which is dropped; the repaired text is the text up to that line and loads without a repair.
-/

namespace PieAgent.Soundness.LoadedLines

open JavaScript PieAgent.Model PieAgent.Proofs

/-- The entry of a line. -/
def entry? (line : List Char) : Option StoredEntry := (parseEntryLine line [] 0).toOption

def solid (lines : List (List Char)) : List (List Char) := lines.filter fun line => !isBlank line

/-- The lines of a text that are not blank. -/
def contentLines (text : List Char) : List (List Char) := solid (text.splitOn '\n')

variable {filePath sessionId : JsString} {lines body rest : List (List Char)} {line first : List Char} {i : ℕ}
  {known : List StoredEntry} {leafId : Option JsString} {loaded : LoadedEntries}

section Lines

private theorem entry?_eq_some {entry : StoredEntry} : entry? line = some entry ↔ parse? line = some entry.value := by
  have reads := @parseEntryLine_eq_ok [] line entry 0
  unfold entry?
  cases parsed : parseEntryLine line [] 0 with
  | error error =>
    rw [← reads, parsed]
    exact ⟨nofun, nofun⟩
  | ok other =>
    rw [← reads, parsed]
    exact ⟨fun same => congrArg _ (Option.some.inj same), fun same => congrArg _ (Except.ok.inj same)⟩

private theorem parseEntryLine_of_found {entry : StoredEntry} (found : entry? line = some entry) (lineNumber : ℕ) :
    parseEntryLine line filePath lineNumber = .ok entry :=
  parseEntryLine_eq_ok.mpr ((entry?_eq_some).mp found)

private theorem parseEntryLine_fails (absent : entry? line = none) (lineNumber : ℕ) :
    ∃ error, parseEntryLine line filePath lineNumber = .error error := by
  cases parsed : parseEntryLine line filePath lineNumber with
  | error error => exact ⟨error, rfl⟩
  | ok entry =>
    rw [(entry?_eq_some).mpr (parseEntryLine_eq_ok.mp parsed)] at absent
    cases absent

@[simp] private theorem solid_nil : solid [] = [] := rfl

private theorem solid_blank (blank : isBlank line = true) : solid (line :: lines) = solid lines :=
  List.filter_cons_of_neg (by simp [blank])

private theorem solid_cons (visible : isBlank line = false) : solid (line :: lines) = line :: solid lines :=
  List.filter_cons_of_pos (by simp [visible])

private theorem solid_blanks (blank : ∀ line ∈ lines, isBlank line = true) : solid lines = [] :=
  List.filter_eq_nil_iff.mpr fun line member => by simp [blank line member]

private theorem solid_append (front back : List (List Char)) : solid (front ++ back) = solid front ++ solid back :=
  List.filter_append ..

/-- Lines that end with a visible one have a last visible line. -/
private theorem solid_ne_nil (ends : ∀ line ∈ lines.getLast?, isBlank line = false) (nonempty : lines ≠ []) :
    solid lines ≠ [] := by
  have last := ends _ (List.getLast?_eq_some_getLast nonempty)
  exact List.ne_nil_of_mem (List.mem_filter.mpr ⟨List.getLast_mem nonempty, by simp [last]⟩)

private theorem ends_tail (ends : ∀ line ∈ (first :: lines).getLast?, isBlank line = false) :
    ∀ line ∈ lines.getLast?, isBlank line = false := by
  intro line last
  refine ends line ?_
  rw [List.getLast?_cons, Option.mem_def.mp last]
  rfl

end Lines

section Load

/-- The loop fails at the first line that is no entry, unless it is the last one. -/
theorem loadEntries_fails_iff (ends : ∀ line ∈ lines.getLast?, isBlank line = false) :
    (∃ error, loadEntries filePath sessionId i lines known leafId = .error error) ↔
      ∃ line ∈ (solid lines).dropLast, entry? line = none := by
  induction lines generalizing i known leafId with
  | nil =>
    refine iff_of_false ?_ ?_
    · rintro ⟨_, failed⟩
      cases failed
    · rintro ⟨_, member, _⟩
      cases member
  | cons line lines ih =>
    have later := fun {i known leafId} => @ih i known leafId (ends_tail ends)
    rw [loadEntries]
    cases blank : isBlank line with
    | true =>
      rw [if_pos rfl, solid_blank blank]
      exact later
    | false =>
      rw [if_neg Bool.false_ne_true, solid_cons blank]
      cases parsed : entry? line with
      | some entry =>
        rw [parseEntryLine_of_found parsed]
        dsimp only
        rw [later]
        cases solid lines with
        | nil => exact Iff.rfl
        | cons next others =>
          rw [List.dropLast_cons_of_ne_nil (List.cons_ne_nil _ _), List.exists_mem_cons_iff, parsed]
          exact (or_iff_right (Option.some_ne_none entry)).symm
      | none =>
        obtain ⟨error, failed⟩ := @parseEntryLine_fails filePath line parsed (i + 1)
        rw [failed]
        dsimp only
        by_cases last : lines = []
        · rw [if_neg (not_not.mpr last), last]
          refine iff_of_false ?_ ?_
          · rintro ⟨_, failed⟩
            cases failed
          · rintro ⟨_, member, _⟩
            cases member
        · rw [if_pos last, List.dropLast_cons_of_ne_nil (solid_ne_nil (ends_tail ends) last)]
          exact iff_of_true ⟨_, rfl⟩ ⟨line, List.mem_cons_self, parsed⟩

/-- A loop that does not fail collects the entries, and drops the last line if it is none. -/
theorem loadEntries_collects (ends : ∀ line ∈ lines.getLast?, isBlank line = false)
    (success : loadEntries filePath sessionId i lines known leafId = .ok loaded) :
    loaded.entries = known ++ (solid lines).filterMap entry? ∧
      (loaded.salvagedTail.isSome ↔ ∃ line ∈ (solid lines).getLast?, entry? line = none) := by
  induction lines generalizing i known leafId with
  | nil =>
    cases success
    exact ⟨(List.append_nil _).symm, iff_of_false Bool.false_ne_true nofun⟩
  | cons line lines ih =>
    rw [loadEntries] at success
    cases blank : isBlank line with
    | true =>
      rw [blank, if_pos rfl] at success
      rw [solid_blank blank]
      exact ih (ends_tail ends) success
    | false =>
      rw [blank, if_neg Bool.false_ne_true] at success
      rw [solid_cons blank]
      cases parsed : entry? line with
      | some entry =>
        rw [parseEntryLine_of_found parsed] at success
        obtain ⟨entries, salvaged⟩ := ih (ends_tail ends) success
        refine ⟨by rw [entries, List.filterMap_cons, parsed, List.append_assoc]; rfl, salvaged.trans ?_⟩
        rw [List.getLast?_cons]
        cases (solid lines).getLast? with
        | none => simp [parsed]
        | some last => simp
      | none =>
        obtain ⟨error, failed⟩ := @parseEntryLine_fails filePath line parsed (i + 1)
        rw [failed] at success
        dsimp only at success
        split_ifs at success with more
        rw [not_not] at more
        cases success
        rw [more]
        exact ⟨by simp [parsed], iff_of_true rfl ⟨line, rfl, parsed⟩⟩

end Load

section Repair

variable {bytes : List UInt8} {header : SessionHeader} {blanks trail : List (List Char)} {entries : List StoredEntry}

private theorem solid_dropLast (ends : ∀ line ∈ body.getLast?, isBlank line = false) :
    solid body.dropLast = (solid body).dropLast := by
  rcases List.eq_nil_or_concat' body with rfl | ⟨others, last, rfl⟩
  · rfl
  · have visible : isBlank last = false := ends last (by simp)
    rw [List.dropLast_concat, solid_append, solid_cons visible, solid_nil, List.dropLast_concat]

/-- The visible lines of a file that is split at its header. -/
private theorem solid_split (leads : ∀ line ∈ blanks, isBlank line = true) (visible : isBlank first = false)
    (blank : ∀ line ∈ trail, isBlank line = true) : solid (blanks ++ first :: (body ++ trail)) = first :: solid body := by
  rw [solid_append, solid_blanks leads, List.nil_append, solid_cons visible, solid_append, solid_blanks blank,
    List.append_nil]

/-- A text with a visible line splits at the first one and behind the last one. -/
private theorem exists_split {text : List Char} (content : contentLines text = first :: lines) :
    ∃ blanks body trail, text.splitOn '\n' = blanks ++ first :: (body ++ trail) ∧
      (∀ line ∈ blanks, isBlank line = true) ∧ isBlank first = false ∧
      (∀ line ∈ body.getLast?, isBlank line = false) ∧ (∀ line ∈ trail, isBlank line = true) ∧ solid body = lines := by
  obtain ⟨blanks, rest, split, leads, visible, others⟩ := List.filter_eq_cons_iff.mp content
  obtain ⟨body, trail, rfl, ends, blank⟩ := exists_trail rest
  refine ⟨blanks, body, trail, split, fun line member => by simpa using leads line member, by simpa using visible, ends,
    blank, ?_⟩
  rw [← others]
  exact (List.append_nil _).symm.trans (by rw [List.filter_append]; exact congrArg _ (solid_blanks blank).symm)

/-- A file that holds nothing but a header and entries is loaded as it is. -/
private theorem loadJsonlStorage_holds (holds : HoldsLines filePath ((decodeUtf8 bytes).splitOn '\n') header entries) :
    loadJsonlStorage filePath (.ok bytes) = .ok ⟨⟨entries, leafAfter none entries, none⟩, header, none⟩ := by
  obtain ⟨blanks, first, rest, split, leads, visible, parsed, reads⟩ := holds
  obtain ⟨body, trail, rfl, ends, blank⟩ := exists_trail rest
  have collected := @loadEntries_reads filePath header.id (blanks.length + 1) [] _ none _ []
    ((linesRead_append_blank blank).mp reads)
  rw [List.append_nil, loadEntries] at collected
  rw [loadJsonlStorage_lines split leads visible ends blank parsed, collected]
  rfl

section Front

variable {text : List Char} {front behind : List (List Char)}

/-- The lines before another line are the front of the text. -/
private theorem unlines_front (split : text.splitOn '\n' = front ++ line :: behind) : unlines front <+: text := by
  obtain ⟨whole, tail, rfl, single, last⟩ := exists_unlines text
  rw [splitOn_unlines single last] at split
  have within : front <+: whole ++ [tail] := ⟨line :: behind, split.symm⟩
  rcases List.prefix_concat_iff.mp within with same | ⟨more, rfl⟩
  · have size := congrArg List.length split
    rw [same] at size
    simp at size
  · rw [unlines_append, List.append_assoc]
    exact List.prefix_append _ _

private theorem splitOn_front (split : text.splitOn '\n' = front ++ behind) :
    (unlines front).splitOn '\n' = front ++ [[]] := by
  have single : ∀ line ∈ front, '\n' ∉ line := fun line member =>
    @notMem_of_mem_splitOn text line (split ▸ List.mem_append_left _ member)
  have lines := @splitOn_unlines front [] single List.not_mem_nil
  rwa [List.append_nil] at lines

end Front

private theorem blank_nil : ∀ line ∈ [([] : List Char)], isBlank line = true := by simp [isBlank, trim]

/-- What is left of a file without the last visible line. -/
private theorem repaired_front {last : List Char} (split : (decodeUtf8 bytes).splitOn '\n' =
      blanks ++ first :: (body ++ [last] ++ trail)) (leads : ∀ line ∈ blanks, isBlank line = true)
    (visible : isBlank first = false) (reads : parseHeaderLine first filePath = .ok header)
    (collects : LinesRead body entries) :
    unlines (blanks ++ first :: body) <+: decodeUtf8 bytes ∧
      contentLines (unlines (blanks ++ first :: body)) = first :: solid body ∧
      loadJsonlStorage filePath (.ok (encodeUtf8 (unlines (blanks ++ first :: body)))) =
        .ok ⟨⟨entries, leafAfter none entries, none⟩, header, none⟩ := by
  have shape : blanks ++ first :: (body ++ [last] ++ trail) = (blanks ++ first :: body) ++ last :: trail := by simp
  rw [shape] at split
  have lines := splitOn_front split
  rw [List.append_assoc, List.cons_append] at lines
  refine ⟨unlines_front split, ?_, loadJsonlStorage_holds ⟨blanks, first, body ++ [[]], ?_, leads, visible, reads, ?_⟩⟩
  · rw [contentLines, lines, solid_split leads visible blank_nil]
  · rw [decodeUtf8_encodeUtf8, lines]
  · exact (linesRead_append_blank blank_nil).mpr collects

/-- A load fails exactly if a content line that is not the last one is no entry. Otherwise it gives the entries of the
lines in order, and a last line that is none is cut off: the repaired text is the front of the file with all the other
lines, and it loads to the same session without a repair. -/
theorem tail_discriminated (content : contentLines (decodeUtf8 bytes) = first :: lines)
    (reads : parseHeaderLine first filePath = .ok header) :
    ((∃ error, loadJsonlStorage filePath (.ok bytes) = .error error) ↔ ∃ line ∈ lines.dropLast, entry? line = none) ∧
      ∀ loaded, loadJsonlStorage filePath (.ok bytes) = .ok loaded →
        loaded.header = header ∧ loaded.entries = lines.filterMap entry? ∧
        (loaded.repairedContent.isSome ↔ ∃ line ∈ lines.getLast?, entry? line = none) ∧
        ∀ repaired ∈ loaded.repairedContent,
          repaired <+: decodeUtf8 bytes ∧ (IsUtf8 bytes → encodeUtf8 repaired <+: bytes) ∧
          contentLines repaired = first :: lines.dropLast ∧
          loadJsonlStorage filePath (.ok (encodeUtf8 repaired)) =
            .ok { loaded with salvagedTail := none, repairedContent := none } := by
  obtain ⟨blanks, body, trail, split, leads, visible, ends, blank, rfl⟩ := exists_split content
  have load := loadJsonlStorage_lines split leads visible ends blank reads
  have fails := @loadEntries_fails_iff filePath header.id body (blanks.length + 1) [] none ends
  rw [← fails, load]
  cases collects : loadEntries filePath header.id (blanks.length + 1) body [] none with
  | error error => exact ⟨iff_of_true ⟨error, rfl⟩ ⟨error, rfl⟩, nofun⟩
  | ok collected =>
    refine ⟨iff_of_false nofun nofun, ?_⟩
    intro loaded same
    obtain rfl := Except.ok.inj same
    obtain ⟨entries, salvaged⟩ := loadEntries_collects ends collects
    dsimp only
    rw [← salvaged]
    refine ⟨rfl, entries, by cases collected.salvagedTail <;> exact Iff.rfl, ?_⟩
    intro repaired found
    rw [Option.mem_def] at found
    split_ifs at found with torn
    obtain rfl := Option.some.inj found
    obtain ⟨known, listed, leaf, read⟩ := loadEntries_ok collects
    obtain ⟨_, nonempty, lines⟩ := read.resolve_left fun intact => by simp [intact.1] at torn
    obtain ⟨others, last, rfl⟩ := (List.eq_nil_or_concat' body).resolve_left nonempty
    rw [← solid_dropLast ends]
    rw [List.dropLast_concat] at lines ⊢
    obtain ⟨front, kept, loads⟩ := repaired_front split leads visible reads lines
    refine ⟨front, ?_, kept, ?_⟩
    · intro utf8
      rw [← utf8]
      obtain ⟨rest, whole⟩ := front
      exact ⟨encodeUtf8 rest, by rw [← encodeUtf8_append, whole]⟩
    · rw [loads, listed, leaf, List.nil_append]

def headerLine : List Char := stringify (SessionHeader.mk (js "s") (js "t") (js "/") none).value

def entryLine : List Char :=
  stringify (.obj [(js "type", .str (js "leaf")), (js "id", .str (js "a")), (js "parentId", .null),
    (js "timestamp", .str (js "t")), (js "targetId", .null)])

/-- A file whose last line was cut by a crash. -/
def tornFile : List UInt8 := encodeUtf8 (unlines [headerLine, [], entryLine] ++ entryLine.take 20)

/-- The torn line is cut off, and the entry before it is loaded. -/
theorem tail_discriminated_torn : ∃ loaded, loadJsonlStorage (js "f") (.ok tornFile) = .ok loaded ∧
    loaded.entries = ([entryLine].filterMap entry?) ∧ loaded.entries.length = 1 ∧
    ∃ repaired, loaded.repairedContent = some repaired ∧ repaired <+: decodeUtf8 tornFile := by
  have content : contentLines (decodeUtf8 tornFile) = headerLine :: [entryLine, entryLine.take 20] := by decide
  have reads : parseHeaderLine headerLine (js "f") = .ok (SessionHeader.mk (js "s") (js "t") (js "/") none) := by
    decide
  have torn : entry? (entryLine.take 20) = none := by decide
  have kept : ([entryLine].filterMap entry?).length = 1 := by decide
  obtain ⟨fails, loads⟩ := tail_discriminated content reads
  cases load : loadJsonlStorage (js "f") (.ok tornFile) with
  | error error =>
    obtain ⟨line, member, absent⟩ := fails.mp ⟨error, load⟩
    obtain rfl := List.mem_singleton.mp member
    rw [List.filterMap_cons, absent] at kept
    cases kept
  | ok loaded =>
    obtain ⟨_, entries, repairs, repaired⟩ := loads loaded load
    obtain ⟨text, found⟩ := Option.isSome_iff_exists.mp (repairs.mpr ⟨_, rfl, torn⟩)
    have same : [entryLine, entryLine.take 20].filterMap entry? = [entryLine].filterMap entry? := by
      simp only [List.filterMap_cons, torn]
    rw [same] at entries
    exact ⟨loaded, rfl, entries, entries ▸ kept, text, found, (repaired text found).1⟩

end Repair

end PieAgent.Soundness.LoadedLines
