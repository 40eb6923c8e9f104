import PieAgent.Model.Tools.EditTool

/-! # What the preview of an edit shows

The preview and the execution of a call look for the old text in different ways. They agree on a call that is
executed when the old text stands once in the file, also behind the normalization that the preview counts in,
and on a call that is refused when the preview finds nothing to show.
-/

namespace PieAgent.Soundness

open JavaScript Model.EditTool

/-- The call is executed. -/
def Executes (body : JsString) (input : EditToolInput) : Prop :=
  input.old_string ≠ input.new_string ∧ countOccurrences body input.old_string ≠ 0 ∧
    (countOccurrences body input.old_string = 1 ∨ input.replace_all.getD false = true)

/-- The content of the file when the call has been executed. -/
def executedBody (body : JsString) (input : EditToolInput) : JsString :=
  if input.replace_all.getD false then replaceAllOccurrences body input.old_string input.new_string
  else replaceFirstOccurrence body input.old_string input.new_string

/-- The content that the preview works in and the place of a text in it: the content itself when the text is there,
else both behind the normalization. -/
def located? (nfkc : Normalize) (content oldText : JsString) : Option (JsString × FuzzyMatchResult) := do
  let first ← fuzzyFindText nfkc content oldText
  let base := if first.usedFuzzyMatch then normalizeForFuzzyMatch nfkc content else content
  let found ← fuzzyFindText nfkc base oldText
  some (base, found)

/-- The content with a place in it replaced. -/
def replacedAt (found : FuzzyMatchResult) (content newText : JsString) : JsString :=
  content.take found.index ++ newText ++ content.drop (found.index + found.matchLength)

/-- The preview has nothing to show: no old text, none in the content, several, or no change. -/
def PreviewRefuses (nfkc : Normalize) (content oldText newText : JsString) : Prop :=
  oldText = [] ∨ located? nfkc content oldText = none ∨ ∃ base found, located? nfkc content oldText = some (base, found) ∧
    (1 < countFuzzyOccurrences nfkc base oldText ∨ replacedAt found base newText = base)

/-- The preview finds the old text once in the content itself, and replacing it gives the other content. -/
def PreviewShows (nfkc : Normalize) (content oldText newText after : JsString) : Prop :=
  oldText ≠ [] ∧ ∃ found, located? nfkc content oldText = some (content, found) ∧
    countFuzzyOccurrences nfkc content oldText ≤ 1 ∧ replacedAt found content newText = after ∧ after ≠ content

/-- The preview is a diff exactly when the call is executed, and then of the contents before and after it, without a
byte order mark and with LF line ends. -/
def PreviewAgrees (nfkc : Normalize) (body : JsString) (input : EditToolInput) : Prop :=
  ((∃ shown, editPreview nfkc body input = some (.ok shown)) ↔ ∃ result, executeOracleEdit body input = .ok result) ∧
    ∀ shown result, editPreview nfkc body input = some (.ok shown) → executeOracleEdit body input = .ok result →
      shown = ⟨normalizeToLF (stripBom body), normalizeToLF (stripBom result.newBody)⟩

section Preview

variable {nfkc : Normalize} {body content oldText newText path after : JsString} {input : EditToolInput}
  {shown : AppliedEditsResult}

theorem execute_ok {result : EditResult} (executed : executeOracleEdit body input = .ok result) :
    Executes body input ∧ result.newBody = executedBody body input := by
  unfold executeOracleEdit at executed
  dsimp only at executed
  split at executed
  · cases executed
  next differ =>
    split at executed
    · cases executed
    next some_ =>
      split at executed
      · cases executed
      next few =>
        cases executed
        refine ⟨⟨differ, some_, ?_⟩, rfl⟩
        cases all : input.replace_all.getD false with
        | true => exact .inr rfl
        | false =>
          have single : ¬1 < countOccurrences body input.old_string := fun many => few ⟨many, all⟩
          exact .inl (by omega)

private theorem exists_execute (executes : Executes body input) : ∃ result, executeOracleEdit body input = .ok result := by
  obtain ⟨differ, some_, once⟩ := executes
  unfold executeOracleEdit
  dsimp only
  rw [if_neg differ, if_neg some_]
  split
  next many =>
    rcases once with once | all
    · omega
    · rw [many.2] at all
      cases all
  · exact ⟨_, rfl⟩

/-- The preview of one edit. -/
private theorem applyEdits_single (edit : Edit) : applyEditsToNormalizedContent nfkc content [edit] path = .ok shown ↔
    normalizeToLF edit.oldText ≠ [] ∧ ∃ found,
      located? nfkc content (normalizeToLF edit.oldText) = some (shown.baseContent, found) ∧
      countFuzzyOccurrences nfkc shown.baseContent (normalizeToLF edit.oldText) ≤ 1 ∧
      replacedAt found shown.baseContent (normalizeToLF edit.newText) = shown.newContent ∧
      shown.newContent ≠ shown.baseContent := by
  generalize normal : ({ oldText := normalizeToLF edit.oldText, newText := normalizeToLF edit.newText } : Edit) = normalized
  have old : normalizeToLF edit.oldText = normalized.oldText := by rw [← normal]
  have new : normalizeToLF edit.newText = normalized.newText := by rw [← normal]
  unfold applyEditsToNormalizedContent
  rw [List.map_singleton, normal, old, new]
  by_cases empty : normalized.oldText = []
  · refine iff_of_false ?_ fun nonempty => nonempty.1 empty
    simp only [List.findIdx?_cons, empty, decide_true, if_true]
    nofun
  rw [and_iff_right empty]
  simp only [List.findIdx?_cons, List.findIdx?_nil, empty, decide_false, Bool.false_eq_true, if_false, Option.map_none,
    List.map_singleton, List.any_cons, List.any_nil, Bool.or_false, List.zipIdx_singleton, List.mapM_cons, List.mapM_nil]
  obtain ⟨base, made⟩ : ∃ base, (if (fuzzyFindText nfkc content normalized.oldText).any (·.usedFuzzyMatch) = true then
      normalizeForFuzzyMatch nfkc content else content) = base := ⟨_, rfl⟩
  have places : located? nfkc content normalized.oldText =
      (fuzzyFindText nfkc base normalized.oldText).map fun found => (base, found) := by
    unfold located?
    cases first : fuzzyFindText nfkc content normalized.oldText with
    | none =>
      obtain rfl : content = base := by simpa [first] using made
      rw [first]
      rfl
    | some found =>
      have same : (if found.usedFuzzyMatch then normalizeForFuzzyMatch nfkc content else content) = base := by
        simpa [first] using made
      show (fuzzyFindText nfkc (if found.usedFuzzyMatch then _ else _) normalized.oldText).bind _ = _
      rw [same, Option.map_eq_bind]
      rfl
  rw [made, places]
  cases second : fuzzyFindText nfkc base normalized.oldText with
  | none =>
    refine iff_of_false ?_ (by simp)
    simp only [matchEdit, second]
    nofun
  | some found =>
    by_cases many : 1 < countFuzzyOccurrences nfkc base normalized.oldText
    · refine iff_of_false ?_ ?_
      · simp only [matchEdit, second, if_pos many]
        nofun
      · rintro ⟨found', same, few, _⟩
        obtain ⟨rfl, rfl⟩ := Prod.mk.inj (Option.some.inj same)
        omega
    · have matched : matchEdit nfkc path base [normalized].length (normalized, 0) = .ok
          { editIndex := 0, matchIndex := found.index, matchLength := found.matchLength, newText := normalized.newText } := by
        simp only [matchEdit, second, if_neg many]
      rw [matched]
      show (if base = replacedAt found base normalized.newText then _ else _) = Except.ok shown ↔ _
      by_cases unchanged : base = replacedAt found base normalized.newText
      · rw [if_pos unchanged]
        refine iff_of_false nofun ?_
        rintro ⟨found', same, _, new', changed⟩
        obtain ⟨rfl, rfl⟩ := Prod.mk.inj (Option.some.inj same)
        exact changed (new' ▸ unchanged.symm)
      · rw [if_neg unchanged]
        constructor
        · intro shows
          cases shows
          exact ⟨found, rfl, not_lt.mp many, rfl, fun same => unchanged same.symm⟩
        · rintro ⟨found', same, _, new', _⟩
          obtain ⟨rfl, rfl⟩ := Prod.mk.inj (Option.some.inj same)
          obtain ⟨_, _⟩ := shown
          exact congrArg Except.ok (congrArg _ new')

/-- The preview of a call. -/
private theorem editPreview_ok : editPreview nfkc body input = some (.ok shown) ↔ input.path ≠ [] ∧
    applyEditsToNormalizedContent nfkc (normalizeToLF (stripBom body))
      [{ oldText := input.old_string, newText := input.new_string }] input.path = .ok shown := by
  unfold editPreview getRenderablePreviewInput
  cases named : input.path with
  | nil => simp
  | cons unit path => simp [computeEditsDiff]

/-- The preview of a call is a diff when it does not refuse. -/
private theorem exists_preview : (∃ shown, editPreview nfkc body input = some (.ok shown)) ↔
    ¬(input.path = [] ∨ PreviewRefuses nfkc (normalizeToLF (stripBom body)) (normalizeToLF input.old_string)
      (normalizeToLF input.new_string)) := by
  constructor
  · rintro ⟨shown, ok⟩ (unnamed | refuses)
    · exact ((editPreview_ok).mp ok).1 unnamed
    · obtain ⟨nonempty, found, places, few, new, changed⟩ := (applyEdits_single _).mp ((editPreview_ok).mp ok).2
      rcases refuses with empty | none_ | ⟨base, found', places', many | same⟩
      · exact nonempty empty
      · rw [none_] at places
        cases places
      · obtain ⟨rfl, rfl⟩ := Prod.mk.inj (Option.some.inj (places.symm.trans places'))
        exact absurd many (not_lt.mpr few)
      · obtain ⟨rfl, rfl⟩ := Prod.mk.inj (Option.some.inj (places.symm.trans places'))
        exact changed (new.symm.trans same)
  · intro shows
    obtain ⟨named, shows⟩ := not_or.mp shows
    obtain ⟨nonempty, shows⟩ := not_or.mp shows
    obtain ⟨some_, shows⟩ := not_or.mp shows
    obtain ⟨⟨base, found⟩, places⟩ := Option.ne_none_iff_exists'.mp some_
    obtain ⟨few, changed⟩ := not_or.mp fun bad => shows ⟨base, found, places, bad⟩
    exact ⟨⟨base, replacedAt found base (normalizeToLF input.new_string)⟩, (editPreview_ok).mpr ⟨named,
      (applyEdits_single _).mpr ⟨nonempty, found, places, not_lt.mp few, rfl, changed⟩⟩⟩

/-- The preview of a call is the diff between the content and another one. -/
private theorem preview_shows : editPreview nfkc body input = some (.ok ⟨normalizeToLF (stripBom body), after⟩) ↔
    input.path ≠ [] ∧ PreviewShows nfkc (normalizeToLF (stripBom body)) (normalizeToLF input.old_string)
      (normalizeToLF input.new_string) after := by
  rw [editPreview_ok, applyEdits_single]
  rfl

private theorem previewAgrees_iff : PreviewAgrees nfkc body input ↔
    (Executes body input → input.path ≠ [] ∧
      PreviewShows nfkc (normalizeToLF (stripBom body)) (normalizeToLF input.old_string) (normalizeToLF input.new_string)
        (normalizeToLF (stripBom (executedBody body input)))) ∧
    (¬Executes body input → input.path = [] ∨
      PreviewRefuses nfkc (normalizeToLF (stripBom body)) (normalizeToLF input.old_string)
        (normalizeToLF input.new_string)) := by
  constructor
  · rintro ⟨both, same⟩
    constructor
    · intro executes
      obtain ⟨result, executed⟩ := exists_execute executes
      obtain ⟨shown, ok⟩ := both.mpr ⟨result, executed⟩
      have pair := same shown result ok executed
      rw [(execute_ok executed).2] at pair
      rw [pair] at ok
      exact (preview_shows).mp ok
    · intro fails
      by_contra shows
      obtain ⟨result, executed⟩ := both.mp ((exists_preview).mpr shows)
      exact fails (execute_ok executed).1
  · rintro ⟨shows, refuses⟩
    constructor
    · constructor
      · intro ok
        by_contra fails
        exact (exists_preview).mp ok (refuses fun executes => fails (exists_execute executes))
      · rintro ⟨result, executed⟩
        exact ⟨_, (preview_shows).mpr (shows (execute_ok executed).1)⟩
    · intro shown result ok executed
      obtain ⟨executes, new⟩ := execute_ok executed
      have pair := (preview_shows).mpr (shows executes)
      rw [new]
      exact Except.ok.inj (Option.some.inj (ok.symm.trans pair))

end Preview

/-- A text without a carriage return and a byte order mark. -/
def PlainText (text : JsString) : Prop := 13 ∉ text ∧ 0xFEFF ∉ text

section PlainText

variable {nfkc : Normalize} {body text front back oldText : JsString} {input : EditToolInput}

private theorem replaceCrLf_of_plain (plain : 13 ∉ text) : replaceCrLf text = text := by
  induction text using replaceCrLf.induct with
  | case1 => rfl
  | case2 unit => rfl
  | case3 first second rest crlf ih => exact absurd (crlf.1 ▸ List.mem_cons_self) plain
  | case4 first second rest other ih =>
    rw [replaceCrLf, if_neg other, ih fun mem => plain (List.mem_cons_of_mem _ mem)]

/-- A text with LF line ends stays as it is. -/
theorem normalizeToLF_of_lf (lf : 13 ∉ text) : normalizeToLF text = text := by
  have units : ∀ unit ∈ text, (if unit = 13 then 10 else unit) = unit := by
    intro unit mem
    apply if_neg
    rintro rfl
    exact lf mem
  rw [normalizeToLF, replaceCrLf_of_plain lf]
  exact (List.map_congr_left units).trans (List.map_id' text)

private theorem normalize_of_plain (plain : PlainText text) : normalizeToLF text = text := normalizeToLF_of_lf plain.1

private theorem strip_of_plain (plain : PlainText text) : stripBom text = text := by
  apply if_neg
  intro bom
  exact plain.2 (List.mem_of_head? bom)

theorem countOccurrences_eq (nonempty : oldText ≠ []) :
    countOccurrences body oldText = occurrences oldText body := if_neg nonempty

theorem exists_cut (some_ : occurrences oldText body ≠ 0) :
    ∃ front back, cut? oldText body = some (front, back) := by
  cases cut : cut? oldText body with
  | none => exact absurd (occurrences_of_none cut) some_
  | some place => exact ⟨place.1, place.2, rfl⟩

/-- A text that is in the content is found as it is. -/
private theorem located_of_cut (cut : cut? oldText body = some (front, back)) :
    located? nfkc body oldText = some (body, ⟨front.length, oldText.length, false⟩) := by
  have found : fuzzyFindText nfkc body oldText = some ⟨front.length, oldText.length, false⟩ := by
    simp [fuzzyFindText, indexOf?, cut]
  simp [located?, found]

private theorem replacedAt_of_cut (cut : cut? oldText body = some (front, back)) (newText : JsString) (fuzzy : Bool) :
    replacedAt ⟨front.length, oldText.length, fuzzy⟩ body newText = front ++ newText ++ back := by
  rw [eq_of_cut? cut, List.append_assoc, replacedAt]
  simp [← List.drop_drop]

/-- A text that is in the content once is replaced at its place. -/
theorem executedBody_once (nonempty : input.old_string ≠ []) (cut : cut? input.old_string body = some (front, back))
    (once : occurrences input.old_string body = 1) : executedBody body input = front ++ input.new_string ++ back := by
  unfold executedBody
  split
  · have none_ : cut? input.old_string back = none := by
      cases more : cut? input.old_string back with
      | none => rfl
      | some place =>
        rw [occurrences_of_cut nonempty cut, occurrences_of_cut nonempty more] at once
        omega
    have joined : join input.new_string (splitAtAll input.old_string body) = front ++ input.new_string ++ back := by
      rw [splitAtAll_of_cut nonempty cut, join, intercalate_split, splitAtAll_of_none none_, List.intercalate_singleton]
    rw [replaceAllOccurrences, if_pos nonempty, joined]
  · rw [replaceFirstOccurrence, if_neg nonempty, indexOf?, cut]
    exact replacedAt_of_cut cut _ false

private theorem executedBody_plain (nonempty : input.old_string ≠ []) (plain : PlainText body)
    (new : PlainText input.new_string) : PlainText (executedBody body input) := by
  have units : ∀ unit ∈ executedBody body input, unit ∈ body ∨ unit ∈ input.new_string := by
    intro unit mem
    unfold executedBody at mem
    split at mem
    · rw [replaceAllOccurrences, if_pos nonempty] at mem
      exact mem_of_mem_intercalate_splitAtAll nonempty mem
    · rw [replaceFirstOccurrence, if_neg nonempty] at mem
      split at mem
      · exact .inl mem
      · rcases List.mem_append.mp mem with mem | mem
        · exact (List.mem_append.mp mem).imp_left List.mem_of_mem_take
        · exact .inl (List.mem_of_mem_drop mem)
  exact ⟨fun mem => (units _ mem).elim plain.1 new.1, fun mem => (units _ mem).elim plain.2 new.2⟩

/-- For plain texts, the preview of a call that is executed is right when the old text is there once, and also once
behind the normalization. -/
private theorem previewShows_iff (executes : Executes body input) (nonempty : input.old_string ≠ []) :
    PreviewShows nfkc body input.old_string input.new_string (executedBody body input) ↔
      countOccurrences body input.old_string = 1 ∧ countFuzzyOccurrences nfkc body input.old_string ≤ 1 := by
  obtain ⟨differ, some_, enough⟩ := executes
  rw [countOccurrences_eq nonempty] at some_ ⊢
  obtain ⟨front, back, cut⟩ := exists_cut some_
  have places := @located_of_cut nfkc _ _ _ _ cut
  have replaced := replacedAt_of_cut cut input.new_string false
  constructor
  · rintro ⟨_, found, places', few, after, _⟩
    obtain ⟨_, rfl⟩ := Prod.mk.inj (Option.some.inj (places.symm.trans places'))
    refine ⟨?_, few⟩
    by_contra many
    have all : input.replace_all.getD false = true := by
      by_contra single
      exact enough.elim (fun once => many (countOccurrences_eq nonempty ▸ once)) single
    rw [replaced, executedBody, if_pos all, replaceAllOccurrences, if_pos nonempty, join, splitAtAll_of_cut nonempty cut,
      intercalate_split] at after
    rw [occurrences_of_cut nonempty cut] at many
    exact intercalate_splitAtAll_ne nonempty differ (by omega) (List.append_cancel_left after).symm
  · rintro ⟨once, few⟩
    rw [executedBody_once nonempty cut once]
    refine ⟨nonempty, _, places, few, replaced, ?_⟩
    rw [eq_of_cut? cut]
    intro same
    exact differ (List.append_cancel_left (List.append_cancel_right same)).symm

end PlainText

end PieAgent.Soundness
