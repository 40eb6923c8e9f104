import PieAgent.JavaScript.Proofs.Characters
import PieAgent.Model.Tools.EditTool
import PieAgent.Proofs.Triggers.Promotion
import PieAgent.Soundness.EditPreview

/-! # What an edit does to the bytes of a file

The tool replaces the occurrences of a text in the decoded file. The other bytes survive when the file is UTF-8 and the
text has no lone surrogates, so that no occurrence cuts a character, and when the new texts of two neighbouring
occurrences do not join to a character.
-/

namespace PieAgent.Soundness

open JavaScript Model Model.EditTool Proofs.Promotion

/-- What stands between the occurrences of a text. The empty text occurs before, between and behind the characters. -/
def matchedPieces (oldText body : JsString) : List JsString :=
  if oldText = [] then [] :: characters body ++ [[]] else splitAtAll oldText body

/-- The file consists of the pieces and the encoded old text between them, and what is written of the pieces and the
encoded new text. -/
def KeepsOtherBytes (bytes written : List UInt8) (input : EditToolInput) : Prop :=
  let pieces := (matchedPieces input.old_string (readText bytes)).map utf8Bytes
  bytes = (utf8Bytes input.old_string).intercalate pieces ∧ written = (utf8Bytes input.new_string).intercalate pieces

section Encoding

variable {front back text sep : JsString} {strings pieces : List JsString}

/-- A pair that spans two strings takes four bytes, its halves take three bytes each. -/
private theorem utf8Bytes_glued (glued : ¬Separate front back) :
    (utf8Bytes (front ++ back)).length < (utf8Bytes front).length + (utf8Bytes back).length := by
  unfold Separate at glued
  push Not at glued
  obtain ⟨high, last, low, first, pair⟩ := glued
  obtain ⟨before, rfl⟩ := List.getLast?_eq_some_iff.mp (Option.mem_def.mp last)
  obtain ⟨after, rfl⟩ := List.head?_eq_some_iff.mp (Option.mem_def.mp first)
  obtain ⟨isHigh, isLow⟩ := Bool.and_eq_true_iff.mp (Bool.eq_true_of_not_eq_false pair)
  have notLow : isLowSurrogate high = false := by
    simp only [isLowSurrogate, isHighSurrogate, Bool.and_eq_true, Bool.and_eq_false_iff, decide_eq_true_eq,
      decide_eq_false_iff_not, UInt16.le_iff_toNat_le, UInt16.lt_iff_toNat_lt, UInt16.reduceToNat] at isHigh ⊢
    omega
  have notHigh : isHighSurrogate low = false := by
    simp only [isLowSurrogate, isHighSurrogate, Bool.and_eq_true, Bool.and_eq_false_iff, decide_eq_true_eq,
      decide_eq_false_iff_not, UInt16.le_iff_toNat_le, UInt16.lt_iff_toNat_lt, UInt16.reduceToNat] at isLow ⊢
    omega
  have halves : utf8Bytes (before ++ [high]) = utf8Bytes before ++ utf8Bytes [high] ∧
      utf8Bytes (low :: after) = utf8Bytes [low] ++ utf8Bytes after :=
    ⟨utf8Bytes_append (separate_of_start (by simpa using notLow)),
      utf8Bytes_append (@separate_of_end [low] after (by simpa using notHigh))⟩
  have whole : utf8Bytes (before ++ [high] ++ low :: after) =
      utf8Bytes before ++ (utf8Bytes [high, low] ++ utf8Bytes after) := by
    rw [List.append_assoc, ← utf8Bytes_append (@separate_of_end [high, low] after (by simpa using notHigh)),
      ← utf8Bytes_append (separate_of_start (by simpa using notLow))]
    rfl
  have three (unit : CodeUnit) (lone : isHighSurrogate unit = true ∨ isLowSurrogate unit = true) :
      (utf8Bytes [unit]).length = 3 := by
    have range : 0xD800 ≤ unit.toNat ∧ unit.toNat < 0xE000 := by
      simp only [isLowSurrogate, isHighSurrogate, Bool.and_eq_true, decide_eq_true_eq, UInt16.le_iff_toNat_le,
        UInt16.lt_iff_toNat_lt, UInt16.reduceToNat] at lone
      omega
    have single : utf8Bytes [unit] = encodeUtf8 [replacementChar] := by
      show encodeUtf8 [if 0xD800 ≤ unit.toNat ∧ unit.toNat < 0xE000 then replacementChar else Char.ofNat unit.toNat] = _
      rw [if_pos range]
    rw [single]
    decide
  have four : (utf8Bytes [high, low]).length ≤ 4 := by
    have one : ∀ c : Char, (encodeChar c).length ≤ 4 := by
      intro c
      unfold encodeChar
      dsimp only
      split_ifs <;> simp
    have pairs : characters [high, low] = [[high, low]] := by simp [characters, isHigh, isLow]
    rw [utf8Bytes, scalars, pairs, List.map_singleton, encodeUtf8, List.flatMap_singleton]
    exact one _
  rw [whole, halves.1, halves.2]
  simp only [List.length_append, three high (.inl isHigh), three low (.inr isLow)]
  omega

/-- No surrogate pair spans a string and what follows it. -/
private def CleanSeams : List JsString → Prop
  | [] => True
  | string :: strings => Separate string strings.flatten ∧ CleanSeams strings

private theorem utf8Bytes_flatten (clean : CleanSeams strings) :
    utf8Bytes strings.flatten = (strings.map utf8Bytes).flatten := by
  induction strings with
  | nil => rfl
  | cons string strings ih => rw [List.flatten_cons, utf8Bytes_append clean.1, ih clean.2]; rfl

private theorem length_utf8Bytes_flatten (strings : List JsString) :
    (utf8Bytes strings.flatten).length ≤ (strings.map utf8Bytes).flatten.length ∧
      ((utf8Bytes strings.flatten).length = (strings.map utf8Bytes).flatten.length → CleanSeams strings) := by
  induction strings with
  | nil => exact ⟨le_rfl, fun _ => trivial⟩
  | cons string strings ih =>
    obtain ⟨bound, clean⟩ := ih
    rw [List.flatten_cons, List.map_cons, List.flatten_cons, List.length_append]
    by_cases separate : Separate string strings.flatten
    · rw [utf8Bytes_append separate, List.length_append]
      exact ⟨by omega, fun same => ⟨separate, clean (by omega)⟩⟩
    · have less := utf8Bytes_glued separate
      exact ⟨by omega, fun same => absurd same (by omega)⟩

private theorem utf8Bytes_flatten_iff : utf8Bytes strings.flatten = (strings.map utf8Bytes).flatten ↔ CleanSeams strings :=
  ⟨fun same => (length_utf8Bytes_flatten strings).2 (congrArg List.length same), utf8Bytes_flatten⟩

private theorem clean_of_texts (texts : ∀ string ∈ strings, ∃ text, string = ofText text) : CleanSeams strings := by
  induction strings with
  | nil => trivial
  | cons string strings ih =>
    obtain ⟨text, rfl⟩ := texts string List.mem_cons_self
    exact ⟨separate_ofText text _, ih fun string member => texts string (List.mem_cons_of_mem _ member)⟩

private theorem texts_of_clean {text : List Char} (clean : CleanSeams strings) (whole : strings.flatten = ofText text) :
    ∀ string ∈ strings, ∃ text, string = ofText text := by
  induction strings generalizing text with
  | nil => exact nofun
  | cons string strings ih =>
    obtain ⟨before, after, _, first, rest⟩ := ofText_cut (whole.symm.trans List.flatten_cons) clean.1
    exact List.forall_mem_cons.mpr ⟨⟨before, first⟩, ih clean.2 rest⟩

private theorem map_intersperse {α β : Type} (f : α → β) (sep : α) (items : List α) :
    (items.intersperse sep).map f = (items.map f).intersperse (f sep) := by
  induction items with
  | nil => rfl
  | cons item items ih =>
    cases items with
    | nil => rfl
    | cons next items => simpa [List.intersperse] using ih

private theorem flatten_intersperse_utf8Bytes : ((pieces.intersperse sep).map utf8Bytes).flatten =
    (utf8Bytes sep).intercalate (pieces.map utf8Bytes) := by
  rw [map_intersperse]
  rfl

/-- Encoded strings, one after another, are UTF-8. -/
private theorem isUtf8_flatten (strings : List JsString) : IsUtf8 (strings.map utf8Bytes).flatten := by
  have same : (strings.map utf8Bytes).flatten = encodeUtf8 (strings.map scalars).flatten := by
    induction strings with
    | nil => rfl
    | cons string strings ih =>
      rw [List.map_cons, List.flatten_cons, ih, List.map_cons, List.flatten_cons, encodeUtf8, encodeUtf8,
        List.flatMap_append]
      rfl
  rw [same]
  exact isUtf8_encodeUtf8 _

private theorem utf8Bytes_readText (bytes : List UInt8) : utf8Bytes (readText bytes) = encodeUtf8 (decodeUtf8 bytes) := by
  rw [utf8Bytes, readText, scalars_ofText]

end Encoding

section Pieces

variable {body oldText newText piece : JsString} {pieces : List JsString} {text : List Char}

theorem matchedPieces_ne_nil (oldText body : JsString) : matchedPieces oldText body ≠ [] := by
  unfold matchedPieces
  split
  · exact List.cons_ne_nil _ _
  · simp [splitAtAll]

/-- The text consists of the pieces and the old text between them. -/
private theorem intercalate_matchedPieces (oldText body : JsString) :
    oldText.intercalate (matchedPieces oldText body) = body := by
  unfold matchedPieces
  split
  next empty =>
    have flatten (pieces : List JsString) : ([] : JsString).intercalate pieces = pieces.flatten := by
      induction pieces with
      | nil => rfl
      | cons piece pieces ih =>
        cases pieces with
        | nil => simp
        | cons next pieces => simpa [List.intercalate, List.intersperse] using ih
    rw [empty, flatten]
    simp [flatten_characters]
  next nonempty => exact intercalate_splitAtAll nonempty body

/-- What a call writes consists of the pieces and the new text between them. -/
private theorem intercalate_executed {input : EditToolInput} (executes : Executes body input) :
    executedBody body input = input.new_string.intercalate (matchedPieces input.old_string body) := by
  obtain ⟨_, some_, enough⟩ := executes
  unfold matchedPieces
  by_cases empty : input.old_string = []
  · rw [if_pos empty]
    unfold executedBody
    split
    · rw [replaceAllOccurrences, if_neg (not_not_intro empty)]
      split
      next blank => simp [blank, characters, List.intercalate, List.intersperse]
      next filled =>
        have more : characters body ≠ [] := by
          intro none_
          have whole := flatten_characters body
          rw [none_] at whole
          exact filled whole.symm
        have between (pieces : List JsString) (more : pieces ≠ []) :
            input.new_string.intercalate (pieces ++ [[]]) = input.new_string.intercalate pieces ++ input.new_string := by
          induction pieces with
          | nil => exact absurd rfl more
          | cons piece pieces ih =>
            cases pieces with
            | nil => simp [List.intercalate, List.intersperse]
            | cons next pieces => simpa [List.intercalate, List.intersperse] using ih (List.cons_ne_nil _ _)
        rw [List.cons_append, List.append_assoc, join]
        cases split : characters body with
        | nil => exact absurd split more
        | cons first rest =>
          have last := between (first :: rest) (List.cons_ne_nil _ _)
          simpa [List.intercalate, List.intersperse] using last.symm
    next single =>
      have count : countOccurrences body input.old_string = 1 := enough.resolve_right single
      rw [countOccurrences, if_pos empty] at count
      have blank : body = [] := by
        have none_ : characters body = [] := List.eq_nil_of_length_eq_zero (by omega)
        rw [← flatten_characters body, none_]
        rfl
      simp [replaceFirstOccurrence, empty, blank, characters, List.intercalate, List.intersperse]
  · rw [if_neg empty]
    by_cases all : input.replace_all.getD false = true
    · rw [executedBody, if_pos all, replaceAllOccurrences, if_pos empty]
      rfl
    · rw [countOccurrences_eq empty] at some_ enough
      have once := enough.resolve_right all
      obtain ⟨front, back, cut⟩ := exists_cut some_
      have rest : occurrences input.old_string back = 0 := by
        rw [occurrences_of_cut empty cut] at once
        omega
      have uncut : splitAtAll input.old_string back = [back] := by
        cases found : cut? input.old_string back with
        | none => exact splitAtAll_of_none found
        | some place =>
          rw [occurrences_of_cut empty found] at rest
          cases rest
      rw [executedBody_once empty cut once, splitAtAll_of_cut empty cut, intercalate_split, uncut,
        List.intercalate_singleton]

/-- When the old text has no lone surrogates, neither have the pieces between its occurrences. -/
private theorem clean_oldText (old : List Char) (nonempty : ofText old ≠ [])
    (whole : (ofText old).intercalate pieces = ofText text) : CleanSeams (pieces.intersperse (ofText old)) := by
  induction pieces generalizing text with
  | nil => trivial
  | cons piece pieces ih =>
    cases pieces with
    | nil => exact ⟨nofun, trivial⟩
    | cons next pieces =>
      have shape : (ofText old).intercalate (piece :: next :: pieces) =
          piece ++ (ofText old ++ (ofText old).intercalate (next :: pieces)) := by
        simp [List.intercalate, List.intersperse]
      have apart : Separate piece (ofText old ++ (ofText old).intercalate (next :: pieces)) :=
        (separate_append_right nonempty).mpr (separate_before_ofText piece old)
      obtain ⟨_, after, _, _, behind⟩ := ofText_cut (whole.symm.trans shape) apart
      obtain ⟨_, last, _, _, rest⟩ := ofText_cut behind.symm (separate_ofText old _)
      exact ⟨apart, separate_ofText old _, ih rest⟩

private theorem mem_intersperse {α : Type} {item sep : α} {items : List α} (member : item ∈ items.intersperse sep) :
    item = sep ∨ item ∈ items := by
  induction items with
  | nil => cases member
  | cons first items ih =>
    cases items with
    | nil => exact .inr member
    | cons next items =>
      rcases List.mem_cons.mp member with rfl | member
      · exact .inr List.mem_cons_self
      · rcases List.mem_cons.mp member with same | member
        · exact .inl same
        · exact (ih member).imp_right (List.mem_cons_of_mem _)

private theorem mem_intersperse_of_mem {α : Type} {item : α} {items : List α} (sep : α) (member : item ∈ items) :
    item ∈ items.intersperse sep := by
  induction items with
  | nil => cases member
  | cons first items ih =>
    cases items with
    | nil => exact member
    | cons next items =>
      rcases List.mem_cons.mp member with rfl | member
      · exact List.mem_cons_self
      · exact List.mem_cons_of_mem _ (List.mem_cons_of_mem _ (ih member))

private theorem mem_intersperse_sep {α : Type} {sep : α} {items : List α} (two : 1 < items.length) :
    sep ∈ items.intersperse sep := by
  match items, two with
  | first :: next :: items, _ => exact List.mem_cons_of_mem _ List.mem_cons_self

private theorem two_pieces {input : EditToolInput} (executes : Executes body input) (nonempty : input.old_string ≠ []) :
    1 < (matchedPieces input.old_string body).length := by
  have some_ := executes.2.1
  rw [countOccurrences_eq nonempty] at some_
  rw [matchedPieces, if_neg nonempty, length_splitAtAll]
  omega

private theorem clean_matchedPieces (old text : List Char) :
    CleanSeams ((matchedPieces (ofText old) (ofText text)).intersperse (ofText old)) := by
  have whole := intercalate_matchedPieces (ofText old) (ofText text)
  by_cases empty : ofText old = []
  · apply clean_of_texts
    intro string member
    rcases mem_intersperse member with rfl | member
    · exact ⟨old, rfl⟩
    · rw [matchedPieces, if_pos empty, characters_ofText] at member
      simp only [List.cons_append, List.mem_cons, List.mem_append, List.mem_map, List.not_mem_nil, or_false] at member
      rcases member with rfl | ⟨c, _, rfl⟩ | rfl
      · exact ⟨[], rfl⟩
      · exact ⟨[c], (List.append_nil _).symm⟩
      · exact ⟨[], rfl⟩
  · exact clean_oldText old empty whole

/-- The pieces and the new text between them join only where two new texts follow each other. -/
private theorem clean_newText (newText : JsString) (texts : ∀ string ∈ piece :: pieces, ∃ text, string = ofText text) :
    CleanSeams ((piece :: pieces).intersperse newText) ↔ Separate newText newText ∨ [] ∉ pieces.dropLast := by
  induction pieces generalizing piece with
  | nil => exact iff_of_true ⟨nofun, trivial⟩ (.inr nofun)
  | cons next rest ih =>
    obtain ⟨first, rfl⟩ := texts piece List.mem_cons_self
    obtain ⟨second, same⟩ := texts next (List.mem_cons_of_mem _ List.mem_cons_self)
    have kept := @ih next fun string member => texts string (List.mem_cons_of_mem _ member)
    have shape : CleanSeams ((ofText first :: next :: rest).intersperse newText) ↔
        Separate newText (((next :: rest).intersperse newText).flatten) ∧ CleanSeams ((next :: rest).intersperse newText) :=
      and_iff_right (separate_ofText first _)
    rw [shape, kept]
    cases rest with
    | nil =>
      refine iff_of_true ⟨?_, .inr nofun⟩ (.inr nofun)
      simpa [List.intersperse, same] using separate_before_ofText newText second
    | cons third rest =>
      have flat : ((next :: third :: rest).intersperse newText).flatten =
          next ++ (newText ++ ((third :: rest).intersperse newText).flatten) := by simp [List.intersperse]
      rw [flat, List.dropLast_cons_of_ne_nil (List.cons_ne_nil _ _), List.mem_cons, not_or]
      by_cases blank : next = []
      · have joins : Separate newText (next ++ (newText ++ ((third :: rest).intersperse newText).flatten)) ↔
            Separate newText newText := by
          rw [blank, List.nil_append]
          by_cases none_ : newText = []
          · rw [none_]
            exact iff_of_true nofun nofun
          · exact separate_append_right none_
        rw [joins]
        constructor
        · exact fun both => .inl both.1
        · rintro (apart | ⟨filled, _⟩)
          · exact ⟨apart, .inl apart⟩
          · exact absurd blank.symm filled
      · have apart : Separate newText (next ++ (newText ++ ((third :: rest).intersperse newText).flatten)) := by
          rw [separate_append_right blank, same]
          exact separate_before_ofText newText second
        rw [and_iff_right apart, and_iff_right (Ne.symm blank)]

end Pieces

/-- A call that fails leaves the file alone. A call that is executed keeps all other bytes exactly when the file is UTF-8,
the old text has no lone surrogates, and the new text does not end and start with the halves of a pair where two
occurrences follow each other. -/
theorem edit_bytes_iff (bytes : List UInt8) (input : EditToolInput) :
    (∀ error, (editFile bytes input).2 = .error error → (editFile bytes input).1 = bytes) ∧
    ∀ result, (editFile bytes input).2 = .ok result → (KeepsOtherBytes bytes (editFile bytes input).1 input ↔
      IsUtf8 bytes ∧ (∃ text, input.old_string = ofText text) ∧
        (Separate input.new_string input.new_string ∨
          [] ∉ (matchedPieces input.old_string (readText bytes)).tail.dropLast)) := by
  unfold editFile
  cases executed : executeOracleEdit (readText bytes) input with
  | error error => exact ⟨fun _ _ => rfl, nofun⟩
  | ok result =>
    refine ⟨nofun, fun _ _ => ?_⟩
    obtain ⟨executes, new⟩ := execute_ok executed
    have written := new.trans (intercalate_executed executes)
    obtain ⟨piece, pieces, shape⟩ := List.exists_cons_of_ne_nil (matchedPieces_ne_nil input.old_string (readText bytes))
    have read := utf8Bytes_readText bytes
    have whole := intercalate_matchedPieces input.old_string (readText bytes)
    unfold KeepsOtherBytes
    dsimp only
    rw [written, ← flatten_intersperse_utf8Bytes, ← flatten_intersperse_utf8Bytes, List.intercalate, utf8Bytes_flatten_iff]
    constructor
    · rintro ⟨same, clean⟩
      have valid : IsUtf8 bytes := same ▸ isUtf8_flatten _
      have oldClean : CleanSeams ((matchedPieces input.old_string (readText bytes)).intersperse input.old_string) := by
        rw [← utf8Bytes_flatten_iff, ← same]
        exact (congrArg utf8Bytes whole).trans (read.trans valid)
      have texts := texts_of_clean oldClean whole
      have plain := fun string member => texts string (mem_intersperse_of_mem _ member)
      refine ⟨valid, ?_, ?_⟩
      · by_cases empty : input.old_string = []
        · exact ⟨[], empty⟩
        · exact texts _ (mem_intersperse_sep (two_pieces executes empty))
      · rw [shape] at clean plain ⊢
        exact (clean_newText _ plain).mp clean
    · rintro ⟨valid, ⟨old, isText⟩, joins⟩
      have oldClean : CleanSeams ((matchedPieces input.old_string (readText bytes)).intersperse input.old_string) := by
        rw [isText]
        exact clean_matchedPieces old (decodeUtf8 bytes)
      have texts := texts_of_clean oldClean whole
      have plain := fun string member => texts string (mem_intersperse_of_mem _ member)
      constructor
      · rw [← utf8Bytes_flatten oldClean]
        exact (valid.symm.trans read.symm).trans (congrArg utf8Bytes whole.symm)
      · rw [shape] at joins plain ⊢
        exact (clean_newText _ plain).mpr joins

theorem edit_bytes_iff_twice : KeepsOtherBytes [97, 0xC3, 0xA9, 97]
    (editFile [97, 0xC3, 0xA9, 97]
      { path := js "f", old_string := js "a", new_string := js "bc", replace_all := some true }).1
    { path := js "f", old_string := js "a", new_string := js "bc", replace_all := some true } :=
  ((edit_bytes_iff [97, 0xC3, 0xA9, 97] _).2 _ rfl).mpr
    ⟨by decide, ⟨['a'], by decide⟩, .inr (by decide)⟩

/-- A byte that is not UTF-8 is written as three others, whatever is taken for the rest of the file. -/
theorem edit_changes_other_bytes :
    let input : EditToolInput := { path := js "f", old_string := js "a", new_string := js "b" }
    (∃ result, (editFile [0xFF, 97] input).2 = .ok result) ∧
      ¬KeepsOtherBytes [0xFF, 97] (editFile [0xFF, 97] input).1 input ∧
      ∀ pieces, [0xFF, 97] = (utf8Bytes input.old_string).intercalate pieces →
        (editFile [0xFF, 97] input).1 ≠ (utf8Bytes input.new_string).intercalate pieces := by
  intro input
  have other (pieces : List (List UInt8)) (read : [0xFF, 97] = (utf8Bytes input.old_string).intercalate pieces) :
      (editFile [0xFF, 97] input).1 ≠ (utf8Bytes input.new_string).intercalate pieces := by
    intro written
    have member : (0xFF : UInt8) ∈ (utf8Bytes input.old_string).intercalate pieces := by simp [← read]
    obtain ⟨piece, among, inside⟩ := List.mem_flatten.mp member
    rcases mem_intersperse among with rfl | among
    · revert inside
      decide
    · have kept : (0xFF : UInt8) ∈ (editFile [0xFF, 97] input).1 :=
        written ▸ List.mem_flatten.mpr ⟨piece, mem_intersperse_of_mem _ among, inside⟩
      revert kept
      decide
  exact ⟨⟨_, rfl⟩, fun keeps => other _ keeps.1 keeps.2, other⟩

end PieAgent.Soundness
