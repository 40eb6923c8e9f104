import Mathlib.Data.List.Forall2
import PieAgent.Model.Ui.History
import PieAgent.Proofs.Core.Truncation

/-! # The input history after a restart

The file separates the entries by line feeds. Reading it gives the lines of each entry that are not blank, one after
another, so the entries are read back exactly when each of them is one line that the encoder leaves unchanged.
-/

namespace PieAgent.Soundness.PromptHistory

open JavaScript Model Truncate History Proofs.Truncation

/-- What happens to the history. -/
inductive Action where
  | append (prompt : JsString)
  | restart

def step (store : HistoryStore) : Action → HistoryStore
  | .append prompt => store.append prompt
  | .restart => loadFrom store.file

/-- A run from the first start on, without a file. -/
def run (actions : List Action) : HistoryStore := actions.foldl step (loadFrom none)

/-- A restart is not noticed. -/
structure Survives (store : HistoryStore) : Prop where
  same : readEntries store.file = store.entriesList
  atMost : store.entriesList.length ≤ MAX_ENTRIES
  behaves : ∀ prompts : List JsString,
    prompts.foldl HistoryStore.append (loadFrom store.file) = prompts.foldl HistoryStore.append store

/-- One line that the encoder leaves unchanged. -/
def Plain (text : JsString) : Prop := 0x0A ∉ text ∧ replaceUnpairedSurrogates text = text

section Encoding

variable {text front back : JsString}

private theorem replace_feed (front back : JsString) : replaceUnpairedSurrogates (front ++ 0x0A :: back) =
    replaceUnpairedSurrogates front ++ 0x0A :: replaceUnpairedSurrogates back := by
  have separate : Separate front (0x0A :: back) := separate_of_start fun unit first => by
    obtain rfl : 0x0A = unit := Option.some.inj first
    decide
  have separate' : Separate (js "\n") back := separate_lineFeed_right back
  have start : characters (0x0A :: back) = [0x0A] :: characters back := characters_append separate'
  rw [replaceUnpairedSurrogates_eq, characters_append separate, start, List.map_append, List.map_cons, List.flatten_append,
    List.flatten_cons, ← replaceUnpairedSurrogates_eq, ← replaceUnpairedSurrogates_eq]
  rfl

/-- The encoder replaces code units one by one, and no white space. -/
private theorem forall₂_replace (text : JsString) :
    List.Forall₂ (fun unit unit' => unit' = unit ∨ isWhitespace unit'.toNat = false)
      text (replaceUnpairedSurrogates text) := by
  induction text using replaceUnpairedSurrogates.induct with
  | case1 => exact .nil
  | case2 unit lone =>
    rw [replaceUnpairedSurrogates, if_pos lone]
    exact .cons (.inr (by decide)) .nil
  | case3 unit paired =>
    rw [replaceUnpairedSurrogates, if_neg paired]
    exact .cons (.inl rfl) .nil
  | case4 first second rest pair ih =>
    rw [replaceUnpairedSurrogates, if_pos pair]
    exact .cons (.inl rfl) (.cons (.inl rfl) ih)
  | case5 first second rest single lone ih =>
    rw [replaceUnpairedSurrogates, if_neg single, if_pos lone]
    exact .cons (.inr (by decide)) ih
  | case6 first second rest single plain ih =>
    rw [replaceUnpairedSurrogates, if_neg single, if_neg plain]
    exact .cons (.inl rfl) ih

/-- The last code unit is no white space. -/
private def Ends (text : JsString) : Prop := ∃ unit, text.getLast? = some unit ∧ isWhitespace unit.toNat = false

private theorem ends_trim (visible : trim text ≠ []) : Ends (trim text) :=
  ⟨_, List.getLast?_eq_some_getLast visible, Bool.not_eq_true _ ▸ List.rdropWhile_last_not _ _ visible⟩

private theorem ends_replace (ends : Ends text) : Ends (replaceUnpairedSurrogates text) := by
  obtain ⟨unit, last, visible⟩ := ends
  obtain ⟨front, rfl⟩ := List.getLast?_eq_some_iff.mp last
  have pairs := forall₂_replace (front ++ [unit])
  generalize replaceUnpairedSurrogates (front ++ [unit]) = encoded at pairs
  rw [← List.forall₂_reverse_iff, List.reverse_append, List.reverse_singleton, List.singleton_append] at pairs
  obtain ⟨unit', rest, head, _, same⟩ := List.forall₂_cons_left_iff.mp pairs
  refine ⟨unit', by rw [← List.head?_reverse, same, List.head?_cons], ?_⟩
  rcases head with rfl | visible'
  · exact visible
  · exact visible'

private theorem length_replace (text : JsString) : (replaceUnpairedSurrogates text).length = text.length :=
  (forall₂_replace text).length_eq.symm

private theorem notMem_replace (single : 0x0A ∉ text) : 0x0A ∉ replaceUnpairedSurrogates text := by
  intro inside
  obtain ⟨n, bound, here⟩ := List.getElem_of_mem inside
  rcases (List.forall₂_iff_get.mp (forall₂_replace text)).2 n (by rwa [← length_replace]) bound with same | visible
  · have value := same.symm.trans here
    exact single (value ▸ List.get_mem ..)
  · rw [List.get_eq_getElem, here] at visible
    exact absurd visible (by decide)

end Encoding

section Lines

variable {entry : JsString} {entries : List JsString}

/-- The lines of an entry that are read back. -/
def linesOf (entry : JsString) : List JsString :=
  (((replaceUnpairedSurrogates entry).splitOn 0x0A).map dropReturn).filter fun line => trim line ≠ []

private theorem splitOn_saved (nonempty : entries ≠ []) :
    (replaceUnpairedSurrogates (join (js "\n") entries ++ js "\n")).splitOn 0x0A =
      entries.flatMap (fun entry => (replaceUnpairedSurrogates entry).splitOn 0x0A) ++ [[]] := by
  induction entries with
  | nil => exact absurd rfl nonempty
  | cons entry entries ih =>
    cases entries with
    | nil =>
      have shape : join (js "\n") [entry] ++ js "\n" = entry ++ 0x0A :: [] := by
        rw [join, List.intercalate_singleton]
        rfl
      rw [shape, replace_feed, List.splitOn_append_cons_self, List.flatMap_singleton]
      rfl
    | cons next entries =>
      have shape : join (js "\n") (entry :: next :: entries) ++ js "\n" =
          entry ++ 0x0A :: (join (js "\n") (next :: entries) ++ js "\n") := by
        rw [join, List.intercalate_cons_cons, List.append_assoc, List.append_assoc]
        rfl
      rw [shape, replace_feed, List.splitOn_append_cons_self, ih (List.cons_ne_nil _ _), ← List.append_assoc]
      rfl

/-- What is read from a file that was written. -/
theorem readEntries_save (file : Option JsString) (nonempty : entries ≠ []) :
    readEntries (HistoryStore.save ⟨file, entries⟩).file = entries.flatMap linesOf := by
  have parts := splitOn_saved nonempty
  have lines : splitBreaks (replaceUnpairedSurrogates (join (js "\n") entries ++ js "\n")) =
      entries.flatMap (fun entry => ((replaceUnpairedSurrogates entry).splitOn 0x0A).map dropReturn) ++ [[]] := by
    rw [splitBreaks, parts, List.dropLast_concat, List.getLast?_concat, List.map_flatMap]
    rfl
  rw [readEntries, HistoryStore.save, Option.getD_some, lines, List.filter_append, List.filter_flatMap]
  exact List.append_nil _

private theorem mem_dropReturn {unit : CodeUnit} {line : JsString} (inside : unit ∈ line)
    (visible : isWhitespace unit.toNat = false) : unit ∈ dropReturn line := by
  rw [dropReturn]
  split
  · next last =>
    obtain ⟨front, rfl⟩ := List.getLast?_eq_some_iff.mp last
    rw [List.dropLast_concat]
    refine (List.mem_append.mp inside).resolve_right fun return_ => ?_
    rw [List.mem_singleton.mp return_] at visible
    exact absurd visible (by decide)
  · exact inside

private theorem exists_mem_splitOn {unit : CodeUnit} {text : JsString} (inside : unit ∈ text) (other : unit ≠ 0x0A) :
    ∃ part ∈ text.splitOn 0x0A, unit ∈ part := by
  induction text with
  | nil => cases inside
  | cons first rest ih =>
    obtain ⟨part, parts, split⟩ := List.exists_cons_of_ne_nil (List.splitOn_ne_nil (0x0A : CodeUnit) rest)
    rw [List.splitOn_cons_eq_if_modifyHead]
    by_cases feed : first = 0x0A
    · rw [if_pos (by simpa using feed)]
      have later := (List.mem_cons.mp inside).resolve_left fun same => other (same.trans feed)
      obtain ⟨part, listed, member⟩ := ih later
      exact ⟨part, List.mem_cons_of_mem _ listed, member⟩
    · rw [if_neg (by simpa using feed), split, List.modifyHead_cons]
      rcases List.mem_cons.mp inside with rfl | later
      · exact ⟨unit :: part, List.mem_cons_self, List.mem_cons_self⟩
      · obtain ⟨found, listed, member⟩ := ih later
        rw [split] at listed
        rcases List.mem_cons.mp listed with rfl | behind
        · exact ⟨first :: found, List.mem_cons_self, List.mem_cons_of_mem _ member⟩
        · exact ⟨found, List.mem_cons_of_mem _ behind, member⟩

private theorem notMem_of_mem_splitOn {text part : JsString} (listed : part ∈ text.splitOn 0x0A) : 0x0A ∉ part := by
  induction text generalizing part with
  | nil =>
    rw [List.splitOn_nil, List.mem_singleton] at listed
    exact listed ▸ List.not_mem_nil
  | cons first rest ih =>
    obtain ⟨head, parts, split⟩ := List.exists_cons_of_ne_nil (List.splitOn_ne_nil (0x0A : CodeUnit) rest)
    rw [List.splitOn_cons_eq_if_modifyHead] at listed
    by_cases feed : first = 0x0A
    · rw [if_pos (by simpa using feed)] at listed
      rcases List.mem_cons.mp listed with rfl | later
      · exact List.not_mem_nil
      · exact ih later
    · rw [if_neg (by simpa using feed), split, List.modifyHead_cons] at listed
      rcases List.mem_cons.mp listed with rfl | later
      · refine fun inside => (List.mem_cons.mp inside).elim (fun same => feed same.symm) ?_
        exact ih (split ▸ List.mem_cons_self)
      · exact ih (split ▸ List.mem_cons_of_mem _ later)

private theorem trim_ne_nil {unit : CodeUnit} {line : JsString} (inside : unit ∈ line)
    (visible : isWhitespace unit.toNat = false) : trim line ≠ [] := by
  intro blank
  exact absurd ((trim_eq_nil_iff).mp blank unit inside) (by simp [visible])

/-- Something is read back for each entry. -/
private theorem linesOf_ne_nil (ends : Ends entry) : linesOf entry ≠ [] := by
  obtain ⟨unit, last, visible⟩ := ends_replace ends
  have inside := List.mem_of_getLast? last
  obtain ⟨part, listed, member⟩ := exists_mem_splitOn inside fun feed => by
    rw [feed] at visible
    exact absurd visible (by decide)
  have kept : dropReturn part ∈ linesOf entry := by
    refine List.mem_filter.mpr ⟨List.mem_map_of_mem listed, ?_⟩
    simpa using trim_ne_nil (mem_dropReturn member visible) visible
  exact List.ne_nil_of_mem kept

private theorem linesOf_plain (plain : Plain entry) (ends : Ends entry) : linesOf entry = [entry] := by
  obtain ⟨unit, last, visible⟩ := ends
  have stays : dropReturn entry = entry := by
    rw [dropReturn, if_neg]
    intro return_
    obtain rfl := Option.some.inj (last.symm.trans return_)
    exact absurd visible (by decide)
  have kept : trim entry ≠ [] := trim_ne_nil (List.mem_of_getLast? last) visible
  rw [linesOf, plain.2, List.splitOn_eq_singleton plain.1, List.map_singleton, stays]
  simpa using kept

private theorem plain_of_linesOf (back : linesOf entry = [entry]) : Plain entry := by
  have listed : entry ∈ linesOf entry := back ▸ List.mem_singleton_self entry
  obtain ⟨part, inside, same⟩ := List.mem_map.mp (List.mem_of_mem_filter listed)
  have single : 0x0A ∉ entry := fun feed => notMem_of_mem_splitOn inside (by
    rw [← same, dropReturn] at feed
    split at feed
    · exact (List.dropLast_sublist _).subset feed
    · exact feed)
  rw [List.splitOn_eq_singleton (notMem_replace single), List.mem_singleton] at inside
  rw [inside, dropReturn] at same
  refine ⟨single, ?_⟩
  split at same
  · next last =>
    have lengths := congrArg List.length same
    rw [List.length_dropLast, length_replace] at lengths
    have started := List.length_pos_of_mem (List.mem_of_getLast? last)
    rw [length_replace] at started
    omega
  · exact same

end Lines

section Runs

variable {store : HistoryStore} {prompt : JsString} {actions : List Action}

/-- Each entry is one line, and the file has all of them. -/
private structure Sound (store : HistoryStore) : Prop where
  plain : ∀ entry ∈ store.entriesList, Plain entry ∧ Ends entry
  few : store.entriesList.length ≤ MAX_ENTRIES
  written : readEntries store.file = store.entriesList

private theorem flatMap_linesOf {entries : List JsString} (each : ∀ entry ∈ entries, Plain entry ∧ Ends entry) :
    entries.flatMap linesOf = entries := by
  induction entries with
  | nil => rfl
  | cons entry entries ih =>
    obtain ⟨⟨plain, ends⟩, others⟩ := List.forall_mem_cons.mp each
    rw [List.flatMap_cons, linesOf_plain plain ends, ih others]
    rfl

private theorem length_le_flatMap {entries : List JsString} (each : ∀ entry ∈ entries, Ends entry) :
    entries.length ≤ (entries.flatMap linesOf).length := by
  induction entries with
  | nil => exact Nat.zero_le _
  | cons entry entries ih =>
    obtain ⟨ends, others⟩ := List.forall_mem_cons.mp each
    have some_ := List.length_pos_of_ne_nil (linesOf_ne_nil ends)
    have more := ih others
    rw [List.flatMap_cons, List.length_append, List.length_cons]
    omega

/-- Entries that are read back as they are have one line each. -/
private theorem plain_of_flatMap {entries : List JsString} (each : ∀ entry ∈ entries, Ends entry)
    (same : entries.flatMap linesOf = entries) : ∀ entry ∈ entries, Plain entry := by
  induction entries with
  | nil => exact nofun
  | cons entry entries ih =>
    obtain ⟨ends, others⟩ := List.forall_mem_cons.mp each
    obtain ⟨line, lines, split⟩ := List.exists_cons_of_ne_nil (linesOf_ne_nil ends)
    rw [List.flatMap_cons, split, List.cons_append] at same
    obtain ⟨rfl, rest⟩ := List.cons.inj same
    have lengths := congrArg List.length rest
    have more := length_le_flatMap others
    rw [List.length_append] at lengths
    obtain rfl : lines = [] := List.eq_nil_of_length_eq_zero (by omega)
    exact List.forall_mem_cons.mpr ⟨plain_of_linesOf split, ih others rest⟩

private theorem Sound.survives (sound : Sound store) : Survives store where
  same := sound.written
  atMost := sound.few
  behaves prompts := by rw [loadFrom, sound.written]

private theorem length_capped (entries : List JsString) : (HistoryStore.capped entries).length ≤ MAX_ENTRIES := by
  rw [HistoryStore.capped, List.length_drop]
  omega

private theorem drop_concat {entries : List JsString} (entry : JsString) {n : ℕ} (bound : n ≤ entries.length) :
    ∃ kept, kept <:+ entries ∧ (entries ++ [entry]).drop n = kept ++ [entry] :=
  ⟨_, List.drop_suffix n entries, List.drop_append_of_le_length bound⟩

private theorem capped_concat (entries : List JsString) (entry : JsString) :
    ∃ kept, kept <:+ entries ∧ HistoryStore.capped (entries ++ [entry]) = kept ++ [entry] := by
  have bound : (entries ++ [entry]).length - MAX_ENTRIES ≤ entries.length := by
    rw [List.length_append, List.length_singleton, MAX_ENTRIES]
    omega
  exact drop_concat entry bound

/-- What an append does that changes the store. -/
private theorem append_eq (visible : trim prompt ≠ []) (fresh : store.entriesList.getLast? ≠ some (trim prompt)) :
    store.append prompt =
      HistoryStore.save { store with entriesList := HistoryStore.capped (store.entriesList ++ [trim prompt]) } := by
  rw [HistoryStore.append, if_neg visible, if_neg fresh]

private theorem Sound.append (sound : Sound store) (plain : Plain (trim prompt)) : Sound (store.append prompt) := by
  by_cases blank : trim prompt = []
  · rwa [HistoryStore.append, if_pos blank]
  by_cases repeated : store.entriesList.getLast? = some (trim prompt)
  · rwa [HistoryStore.append, if_neg blank, if_pos repeated]
  obtain ⟨kept, suffix, split⟩ := capped_concat store.entriesList (trim prompt)
  have each : ∀ entry ∈ HistoryStore.capped (store.entriesList ++ [trim prompt]), Plain entry ∧ Ends entry := by
    rw [split]
    refine List.forall_mem_append.mpr ⟨fun entry inside => sound.plain entry (suffix.subset inside), ?_⟩
    exact List.forall_mem_singleton.mpr ⟨plain, ends_trim blank⟩
  have few := length_capped (store.entriesList ++ [trim prompt])
  rw [append_eq blank repeated]
  generalize HistoryStore.capped (store.entriesList ++ [trim prompt]) = entries at split each few
  refine ⟨each, few, ?_⟩
  rw [readEntries_save _ (by rw [split]; exact List.concat_ne_nil _ _)]
  exact flatMap_linesOf each

/-- A prompt of several lines is read back as several entries. -/
private theorem Sound.not_survives (sound : Sound store) (broken : ¬ Plain (trim prompt)) :
    ¬ Survives (store.append prompt) := by
  have visible : trim prompt ≠ [] := fun blank => broken (blank ▸ ⟨List.not_mem_nil, rfl⟩)
  have fresh : store.entriesList.getLast? ≠ some (trim prompt) := fun last =>
    broken (sound.plain _ (List.mem_of_getLast? last)).1
  obtain ⟨kept, suffix, split⟩ := capped_concat store.entriesList (trim prompt)
  rw [append_eq visible fresh, split]
  intro survives
  have same := survives.same
  rw [readEntries_save _ (List.concat_ne_nil _ _)] at same
  refine broken (plain_of_flatMap ?_ same _ (List.mem_append_right _ (List.mem_singleton_self _)))
  refine List.forall_mem_append.mpr ⟨fun entry inside => (sound.plain entry (suffix.subset inside)).2, ?_⟩
  exact List.forall_mem_singleton.mpr (ends_trim visible)

/-- Every prompt, without the white space around it, is one line that the encoder leaves unchanged. -/
def SingleLines (actions : List Action) : Prop := ∀ prompt, Action.append prompt ∈ actions → Plain (trim prompt)

private theorem run_concat (actions : List Action) (action : Action) :
    run (actions ++ [action]) = step (run actions) action := by
  rw [run, List.foldl_append]
  rfl

private theorem sound_run (single : SingleLines actions) : Sound (run actions) := by
  induction actions using List.reverseRecOn with
  | nil => exact ⟨nofun, Nat.zero_le _, rfl⟩
  | append_singleton actions action ih =>
    have sound := ih fun prompt inside => single prompt (List.mem_append_left _ inside)
    rw [run_concat]
    cases action with
    | append prompt => exact sound.append (single prompt (List.mem_append_right _ (List.mem_singleton_self _)))
    | restart =>
      have same : loadFrom (run actions).file = run actions := by rw [loadFrom, sound.written]
      exact same.symm ▸ sound

/-- The history survives a restart at every point of a run exactly when each prompt of the run is a single line. -/
theorem history_survives_iff (actions : List Action) :
    (∀ before, before <+: actions → Survives (run before)) ↔ SingleLines actions := by
  constructor
  · intro survives
    induction actions using List.reverseRecOn with
    | nil => exact fun prompt inside => absurd inside List.not_mem_nil
    | append_singleton actions action ih =>
      have single := ih fun before early => survives before (early.trans (List.prefix_append _ _))
      intro prompt inside
      rcases List.mem_append.mp inside with early | last
      · exact single prompt early
      · obtain rfl := List.mem_singleton.mp last
        have after := survives _ List.prefix_rfl
        rw [run_concat] at after
        by_contra broken
        exact (sound_run single).not_survives broken after
  · exact fun single before early => (sound_run fun prompt inside => single prompt (early.subset inside)).survives

end Runs

/-- A prompt of two lines becomes two entries. -/
theorem multiline_prompt_splits :
    (run [.append (js "a\nb")]).entriesList = [js "a\nb"] ∧
      readEntries (run [.append (js "a\nb")]).file = [js "a", js "b"] ∧ ¬ Survives (run [.append (js "a\nb")]) := by
  have memory : (run [.append (js "a\nb")]).entriesList = [js "a\nb"] := by decide
  have back : readEntries (run [.append (js "a\nb")]).file = [js "a", js "b"] := by decide
  refine ⟨memory, back, fun survives => ?_⟩
  have same := survives.same
  rw [memory, back] at same
  exact absurd same (by decide)

end PieAgent.Soundness.PromptHistory
