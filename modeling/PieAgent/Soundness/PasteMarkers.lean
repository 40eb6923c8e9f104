import PieAgent.Machine.Core.Labeled
import PieAgent.Proofs.Tui.Editing

/-! # Pastes behind their markers, and undo

The submitted text is compared with that of the editor that never uses markers. Both agree as long as deletions
and movements take a marker as a whole, the text that is submitted holds only pastes made since the last submit,
and expansion finds no marker but those of the pastes. A paste that holds a marker itself is expanded again, and
a marker that is yanked after a submit stays or is expanded to another paste.
-/

namespace PieAgent.Soundness.PasteMarkers

open JavaScript Model.Tui.Editing Machine

/-! ## Texts of the marker form -/

/-- What may stand between the number of a marker and its end. -/
inductive IsSize : JsString → Prop where
  | lines {ds : JsString} (some_ : ds ≠ []) (decimal : ∀ unit ∈ ds, isDecimal unit = true) :
    IsSize (js " +" ++ ds ++ js " lines")
  | chars {ds : JsString} (some_ : ds ≠ []) (decimal : ∀ unit ∈ ds, isDecimal unit = true) :
    IsSize (js " " ++ ds ++ js " chars")

/-- The texts that are expanded to the paste with a number. -/
def IsMarker (pasteId : ℕ) (form : JsString) : Prop :=
  ∃ size, (size = [] ∨ IsSize size) ∧ form = js "[paste #" ++ digits pasteId ++ size ++ js "]"

private theorem dropPrefix?_iff {front text rest : JsString} :
    text.dropPrefix? front = some rest ↔ text = front ++ rest := by
  rw [List.dropPrefix?_eq_some_iff]
  constructor
  · rintro ⟨other, whole, same⟩
    rw [whole, eq_of_beq same]
  · intro whole
    exact ⟨front, whole, beq_self_eq_true front⟩

private theorem eq_of_afterNumber? {text rest : JsString} (found : afterNumber? text = some rest) :
    ∃ ds, ds ≠ [] ∧ (∀ unit ∈ ds, isDecimal unit = true) ∧ text = ds ++ rest := by
  obtain ⟨some_, same⟩ := Option.ite_none_left_eq_some.mp found
  cases same
  exact ⟨_, some_, fun unit member => List.mem_takeWhile_imp member, List.takeWhile_append_dropWhile.symm⟩

private theorem afterNumber?_append {ds rest : JsString} {c : CodeUnit} (some_ : ds ≠ [])
    (decimal : ∀ unit ∈ ds, isDecimal unit = true) (stop : isDecimal c = false) :
    afterNumber? (ds ++ c :: rest) = some (c :: rest) := by
  have stopped : (c :: rest).takeWhile isDecimal = [] := by rw [List.takeWhile_cons_of_neg (by simp [stop])]
  rw [afterNumber?, List.takeWhile_append_of_pos decimal, List.dropWhile_append_of_pos decimal, stopped, List.append_nil,
    if_neg some_, List.dropWhile_cons_of_neg (by simp [stop])]

private theorem eq_of_afterSize? {text rest : JsString} (found : afterSize? text = some rest) :
    ∃ size, IsSize size ∧ text = size ++ rest := by
  rw [afterSize?] at found
  cases lines : ((text.dropPrefix? (js " +")).bind afterNumber?).bind fun rest => rest.dropPrefix? (js " lines") with
  | some other =>
    rw [lines] at found
    cases found
    obtain ⟨behind, number, ends⟩ := Option.bind_eq_some_iff.mp lines
    obtain ⟨start, begins, number⟩ := Option.bind_eq_some_iff.mp number
    obtain ⟨ds, some_, decimal, whole⟩ := eq_of_afterNumber? number
    refine ⟨_, .lines some_ decimal, ?_⟩
    rw [(dropPrefix?_iff).mp begins, whole, (dropPrefix?_iff).mp ends]
    simp only [List.append_assoc]
  | none =>
    rw [lines] at found
    obtain ⟨behind, number, ends⟩ := Option.bind_eq_some_iff.mp (show Option.bind _ _ = some rest from found)
    obtain ⟨start, begins, number⟩ := Option.bind_eq_some_iff.mp number
    obtain ⟨ds, some_, decimal, whole⟩ := eq_of_afterNumber? number
    refine ⟨_, .chars some_ decimal, ?_⟩
    rw [(dropPrefix?_iff).mp begins, whole, (dropPrefix?_iff).mp ends]
    simp only [List.append_assoc]

private theorem afterSize?_append {size : JsString} (sized : IsSize size) (rest : JsString) :
    afterSize? (size ++ rest) = some rest := by
  cases sized with
  | @lines ds some_ decimal =>
    have begins : (js " +" ++ ds ++ js " lines" ++ rest).dropPrefix? (js " +") = some (ds ++ (js " lines" ++ rest)) :=
      (dropPrefix?_iff).mpr (by simp only [List.append_assoc])
    have number : afterNumber? (ds ++ (js " lines" ++ rest)) = some (js " lines" ++ rest) :=
      afterNumber?_append some_ decimal (by decide)
    have ends : (js " lines" ++ rest).dropPrefix? (js " lines") = some rest := (dropPrefix?_iff).mpr rfl
    rw [afterSize?, begins, Option.bind_some, number, Option.bind_some, ends]
    rfl
  | @chars ds some_ decimal =>
    have other : (js " " ++ ds ++ js " chars" ++ rest).dropPrefix? (js " +") = none := by
      rw [Option.eq_none_iff_forall_ne_some]
      intro more begins
      have whole := (dropPrefix?_iff).mp begins
      cases ds with
      | nil => exact some_ rfl
      | cons unit ds =>
        have plus : unit = 0x2B := (List.cons.inj (List.cons.inj whole).2).1
        exact absurd (decimal unit (List.mem_cons_self ..)) (plus ▸ by decide)
    have begins : (js " " ++ ds ++ js " chars" ++ rest).dropPrefix? (js " ") = some (ds ++ (js " chars" ++ rest)) :=
      (dropPrefix?_iff).mpr (by simp only [List.append_assoc])
    have number : afterNumber? (ds ++ (js " chars" ++ rest)) = some (js " chars" ++ rest) :=
      afterNumber?_append some_ decimal (by decide)
    have ends : (js " chars" ++ rest).dropPrefix? (js " chars") = some rest := (dropPrefix?_iff).mpr rfl
    rw [afterSize?, other, begins, Option.bind_some, number, Option.bind_some, ends]
    rfl

/-- A marker is found where a text of its form stands. -/
theorem afterMarker?_eq_some {pasteId : ℕ} {text rest : JsString} :
    afterMarker? pasteId text = some rest ↔ ∃ form, IsMarker pasteId form ∧ text = form ++ rest := by
  constructor
  · intro found
    obtain ⟨behind, begins, ends⟩ := Option.bind_eq_some_iff.mp found
    have whole := (dropPrefix?_iff).mp begins
    have end_ := (dropPrefix?_iff).mp ends
    cases sized : afterSize? behind with
    | none =>
      rw [sized] at end_
      refine ⟨_, ⟨[], .inl rfl, rfl⟩, ?_⟩
      rw [whole, show behind = _ from end_]
      simp only [List.append_assoc, List.nil_append]
    | some more =>
      rw [sized] at end_
      obtain ⟨size, size_, split⟩ := eq_of_afterSize? sized
      refine ⟨_, ⟨size, .inr size_, rfl⟩, ?_⟩
      rw [whole, split, show more = _ from end_]
      simp only [List.append_assoc]
  · rintro ⟨form, ⟨size, sized, rfl⟩, rfl⟩
    have begins : (js "[paste #" ++ digits pasteId ++ size ++ js "]" ++ rest).dropPrefix?
        (js "[paste #" ++ digits pasteId) = some (size ++ (js "]" ++ rest)) :=
      (dropPrefix?_iff).mpr (by simp only [List.append_assoc])
    have ends : (js "]" ++ rest).dropPrefix? (js "]") = some rest := (dropPrefix?_iff).mpr rfl
    rw [afterMarker?, begins, Option.bind_some]
    rcases sized with rfl | sized
    · have none_ : afterSize? ([] ++ (js "]" ++ rest)) = none := by
        rw [Option.eq_none_iff_forall_ne_some]
        intro more found
        obtain ⟨size, size_, whole⟩ := eq_of_afterSize? found
        cases size_ with
        | lines => exact absurd (List.cons.inj whole).1 (by decide)
        | chars => exact absurd (List.cons.inj whole).1 (by decide)
      rw [none_]
      exact ends
    · rw [afterSize?_append sized]
      exact ends

private theorem not_mem_digits {n : ℕ} {unit : CodeUnit} (other : isDecimal unit = false) : unit ∉ digits n :=
  fun member => absurd (isDecimal_of_mem_digits member) (by simp [other])

private theorem not_mem_size {size : JsString} (sized : size = [] ∨ IsSize size) : (0x5B : CodeUnit) ∉ size := by
  rcases sized with rfl | sized
  · exact List.not_mem_nil
  · cases sized with
    | @lines ds _ decimal =>
      have inside : (0x5B : CodeUnit) ∉ ds := fun member => absurd (decimal _ member) (by decide)
      simp only [List.mem_append, not_or]
      exact ⟨⟨by decide, inside⟩, by decide⟩
    | @chars ds _ decimal =>
      have inside : (0x5B : CodeUnit) ∉ ds := fun member => absurd (decimal _ member) (by decide)
      simp only [List.mem_append, not_or]
      exact ⟨⟨by decide, inside⟩, by decide⟩

/-- A marker begins with the only bracket of its kind. -/
theorem IsMarker.eq_cons {pasteId : ℕ} {form : JsString} (isMarker : IsMarker pasteId form) :
    ∃ more, form = 0x5B :: more ∧ (0x5B : CodeUnit) ∉ more := by
  obtain ⟨size, sized, rfl⟩ := isMarker
  refine ⟨js "paste #" ++ digits pasteId ++ size ++ js "]", rfl, ?_⟩
  simp only [List.mem_append, not_or]
  exact ⟨⟨⟨by decide, not_mem_digits (by decide)⟩, not_mem_size sized⟩, by decide⟩

theorem isMarker_marker (pasteId : ℕ) (text : JsString) : IsMarker pasteId (marker pasteId text) := by
  rw [marker]
  split
  · refine ⟨js " +" ++ digits (pastedLines text) ++ js " lines", .inr (.lines (digits_ne_nil _) ?_), ?_⟩
    · exact fun unit member => isDecimal_of_mem_digits member
    · rw [show js " lines]" = js " lines" ++ js "]" from rfl]
      simp only [List.append_assoc]
  · refine ⟨js " " ++ digits text.length ++ js " chars", .inr (.chars (digits_ne_nil _) ?_), ?_⟩
    · exact fun unit member => isDecimal_of_mem_digits member
    · rw [show js " chars]" = js " chars" ++ js "]" from rfl]
      simp only [List.append_assoc]

private theorem behind_number {size : JsString} (sized : size = [] ∨ IsSize size) (rest : JsString) :
    ∃ c more, size ++ js "]" ++ rest = c :: more ∧ isDecimal c = false := by
  rcases sized with rfl | sized
  · exact ⟨_, _, rfl, by decide⟩
  · cases sized with
    | lines => exact ⟨_, _, rfl, by decide⟩
    | chars => exact ⟨_, _, rfl, by decide⟩

private theorem digits_append_cons {m n : ℕ} {c d : CodeUnit} {more rest : JsString} (stop : isDecimal c = false)
    (stops : isDecimal d = false) (same : digits m ++ c :: more = digits n ++ d :: rest) : m = n := by
  have taken (n : ℕ) {c : CodeUnit} (more : JsString) (stop : isDecimal c = false) :
      (digits n ++ c :: more).takeWhile isDecimal = digits n := by
    rw [List.takeWhile_append_of_pos fun unit member => isDecimal_of_mem_digits member,
      List.takeWhile_cons_of_neg (by simp [stop]), List.append_nil]
  exact digits_injective ((taken m more stop).symm.trans (same ▸ taken n rest stops))

/-- Two markers with the same beginning have the same number. -/
theorem IsMarker.unique {m n : ℕ} {form other more rest : JsString} (isMarker : IsMarker m form)
    (isOther : IsMarker n other) (same : form ++ more = other ++ rest) : m = n := by
  obtain ⟨size, sized, rfl⟩ := isMarker
  obtain ⟨size', sized', rfl⟩ := isOther
  obtain ⟨c, behind, first, stop⟩ := behind_number sized more
  obtain ⟨d, behind', second, stops⟩ := behind_number sized' rest
  simp only [List.append_assoc] at same first second
  rw [first, second] at same
  exact digits_append_cons stop stops (List.append_cancel_left same)

private theorem normalizeText_eq_self {text : JsString} (tab : (0x09 : CodeUnit) ∉ text) (cr : (0x0D : CodeUnit) ∉ text) :
    normalizeText text = text := by
  have kept : replaceAll (fun text => if js "\r\n" <+: text then some (js "\n", 2) else none) text = text := by
    have none_ : ∀ c rest, c :: rest <:+ text →
        (if js "\r\n" <+: c :: rest ++ [] then some (js "\n", 2) else none) = none := by
      rintro c rest suffix
      refine if_neg fun starts => ?_
      obtain ⟨more, same⟩ := starts
      have c_ : c = 0x0D := (List.cons.inj same).1.symm
      exact cr (c_ ▸ suffix.subset (List.mem_cons_self ..))
    have whole := @replaceAll_append _ (fun text => if js "\r\n" <+: text then some (js "\n", 2) else none) text [] none_
    rwa [List.append_nil, replaceAll_nil, List.append_nil] at whole
  rw [normalizeText, kept]
  clear kept
  induction text with
  | nil => rfl
  | cons unit rest ih =>
    obtain ⟨tab_, tab⟩ := not_or.mp (mt List.mem_cons.mpr tab)
    obtain ⟨cr_, cr⟩ := not_or.mp (mt List.mem_cons.mpr cr)
    rw [List.flatMap_cons, ih tab cr, if_neg (Ne.symm cr_), if_neg (Ne.symm tab_)]
    rfl

theorem normalizeText_marker (pasteId : ℕ) (text : JsString) :
    normalizeText (marker pasteId text) = marker pasteId text := by
  have absent {unit : CodeUnit} (parts : unit ∉ js "[paste #" ∧ unit ∉ js " +" ∧ unit ∉ js " lines]" ∧ unit ∉ js " " ∧
      unit ∉ js " chars]") (other : isDecimal unit = false) : unit ∉ marker pasteId text := by
    obtain ⟨start, plus, lines, space, chars⟩ := parts
    rw [marker]
    split
    · simp only [List.mem_append, not_or]
      exact ⟨⟨⟨⟨start, not_mem_digits other⟩, plus⟩, not_mem_digits other⟩, lines⟩
    · simp only [List.mem_append, not_or]
      exact ⟨⟨⟨⟨start, not_mem_digits other⟩, space⟩, not_mem_digits other⟩, chars⟩
  exact normalizeText_eq_self (absent (by decide) (by decide)) (absent (by decide) (by decide))

/-! ## Expanding the markers -/

/-- How a unit of the reference editor stands in the text with markers. -/
def render : Atom → JsString
  | .char unit => [unit]
  | .paste inserted => marker inserted.pasteId inserted.content

/-- The units a paste is replaced by when the markers with its number are expanded. -/
def putIn (pasteId : ℕ) (pasteContent : JsString) : Atom → List Atom
  | .char unit => [.char unit]
  | .paste inserted => if inserted.pasteId = pasteId then pasteContent.map .char else [.paste inserted]

/-- No characters beside the pastes look like a marker with the number. -/
def Unmarked (pasteId : ℕ) (atoms : List Atom) : Prop := ∀ form, IsMarker pasteId form → ¬form.map Atom.char <:+: atoms

/-- No characters look like a marker when its turn comes, those of the pastes that are already put in included. -/
def Unambiguous : List (ℕ × JsString) → List Atom → Prop
  | [], _ => True
  | (pasteId, pasteContent) :: pastes, atoms =>
    Unmarked pasteId atoms ∧ Unambiguous pastes (atoms.flatMap (putIn pasteId pasteContent))

theorem render_ne_nil (atom : Atom) : render atom ≠ [] := by
  cases atom with
  | char unit => nofun
  | paste inserted =>
    obtain ⟨more, same, _⟩ := (isMarker_marker inserted.pasteId inserted.content).eq_cons
    rw [render, same]
    exact List.cons_ne_nil _ _

theorem render_map_char (text : JsString) : (text.map Atom.char).flatMap render = text := by
  rw [List.flatMap_map]
  exact List.flatMap_singleton' text

theorem inFull_map_char (text : JsString) : inFull (text.map Atom.char) = text := by
  rw [inFull, List.flatMap_map]
  exact List.flatMap_singleton' text

private theorem chars_of_prefix {tail more : JsString} {atoms : List Atom} (absent : (0x5B : CodeUnit) ∉ tail)
    (same : atoms.flatMap render = tail ++ more) : tail.map Atom.char <+: atoms := by
  induction tail generalizing atoms with
  | nil => exact List.nil_prefix
  | cons unit tail ih =>
    obtain ⟨head, inside⟩ := not_or.mp (mt List.mem_cons.mpr absent)
    cases atoms with
    | nil => cases same
    | cons atom atoms =>
      rw [List.flatMap_cons] at same
      cases atom with
      | char first =>
        obtain ⟨rfl, behind⟩ := List.cons.inj same
        exact List.cons_prefix_cons.mpr ⟨rfl, ih inside behind⟩
      | paste inserted =>
        obtain ⟨behind, begins, _⟩ := (isMarker_marker inserted.pasteId inserted.content).eq_cons
        rw [render, begins] at same
        exact absurd (List.cons.inj same).1 head

private theorem afterMarker?_char {pasteId : ℕ} {unit : CodeUnit} {atoms : List Atom}
    (unmarked : Unmarked pasteId (.char unit :: atoms)) : afterMarker? pasteId (unit :: atoms.flatMap render) = none := by
  rw [Option.eq_none_iff_forall_ne_some]
  intro rest found
  obtain ⟨form, isMarker, whole⟩ := (afterMarker?_eq_some).mp found
  obtain ⟨tail, rfl, absent⟩ := isMarker.eq_cons
  obtain ⟨rfl, same⟩ := List.cons.inj whole
  have starts : (0x5B :: tail).map Atom.char <+: .char 0x5B :: atoms :=
    List.cons_prefix_cons.mpr ⟨rfl, chars_of_prefix absent same⟩
  exact unmarked _ isMarker starts.isInfix

private theorem afterMarker?_inside {pasteId other : ℕ} {form more front : JsString} {c : CodeUnit}
    (isMarker : IsMarker other form) (differ : other ≠ pasteId) (suffix : c :: front <:+ form) :
    afterMarker? pasteId (c :: front ++ more) = none := by
  rw [Option.eq_none_iff_forall_ne_some]
  intro rest found
  obtain ⟨found, isFound, whole⟩ := (afterMarker?_eq_some).mp found
  obtain ⟨tail, rfl, _⟩ := isFound.eq_cons
  obtain ⟨rfl, _⟩ := List.cons.inj whole
  obtain ⟨behind, rfl, absent⟩ := isMarker.eq_cons
  rcases List.suffix_cons_iff.mp suffix with same | inside
  · exact differ (isMarker.unique isFound (same ▸ whole))
  · exact absent (inside.subset (List.mem_cons_self ..))

/-- Expanding the markers with a number puts in the paste and leaves everything else. -/
theorem replaceAll_render {pasteId : ℕ} {atoms : List Atom} (pasteContent : JsString)
    (unmarked : Unmarked pasteId atoms) :
    replaceAll (fun text => (afterMarker? pasteId text).map fun rest => (pasteContent, text.length - rest.length))
        (atoms.flatMap render) =
      (atoms.flatMap (putIn pasteId pasteContent)).flatMap render := by
  induction atoms with
  | nil => rfl
  | cons atom atoms ih =>
    have rest : Unmarked pasteId atoms := fun form isMarker inside =>
      unmarked form isMarker (inside.trans (List.suffix_cons atom atoms).isInfix)
    rw [List.flatMap_cons, List.flatMap_cons, List.flatMap_append, ← ih rest]
    cases atom with
    | char unit =>
      have none_ := congrArg (Option.map fun rest => (pasteContent, (unit :: atoms.flatMap render).length - rest.length))
        (afterMarker?_char unmarked)
      exact replaceAll_cons none_
    | paste inserted =>
      have isMarker := isMarker_marker inserted.pasteId inserted.content
      rw [render, putIn]
      split
      next same =>
        subst same
        rw [render_map_char]
        refine replaceAll_of_match (render_ne_nil (.paste inserted)) ?_
        rw [(afterMarker?_eq_some).mpr ⟨_, isMarker, rfl⟩, Option.map_some, List.length_append, Nat.add_sub_cancel]
      next differ =>
        rw [List.flatMap_singleton, render]
        refine replaceAll_append fun c front suffix => ?_
        rw [afterMarker?_inside isMarker differ suffix]
        rfl

private theorem mem_putIn {pasteId : ℕ} {pasteContent : JsString} {atoms : List Atom} {inserted : Paste}
    (member : .paste inserted ∈ atoms.flatMap (putIn pasteId pasteContent)) :
    .paste inserted ∈ atoms ∧ inserted.pasteId ≠ pasteId := by
  obtain ⟨atom, atom_, put⟩ := List.mem_flatMap.mp member
  cases atom with
  | char unit => exact absurd (List.mem_singleton.mp put) nofun
  | paste other =>
    rw [putIn] at put
    split at put
    · obtain ⟨_, _, same⟩ := List.mem_map.mp put
      cases same
    next differ =>
      cases List.mem_singleton.mp put
      exact ⟨atom_, differ⟩

private theorem inFull_putIn {pasteId : ℕ} {pasteContent : JsString} {atoms : List Atom}
    (same : ∀ inserted, .paste inserted ∈ atoms → inserted.pasteId = pasteId → inserted.content = pasteContent) :
    inFull (atoms.flatMap (putIn pasteId pasteContent)) = inFull atoms := by
  rw [inFull, List.flatMap_assoc, inFull]
  refine List.flatMap_congr fun atom member => ?_
  cases atom with
  | char unit => rfl
  | paste inserted =>
    rw [putIn]
    split
    next here =>
      rw [Atom.content, same inserted member here]
      exact inFull_map_char pasteContent
    · exact List.flatMap_singleton _ _

private theorem render_eq_inFull {atoms : List Atom} (chars : ∀ inserted, .paste inserted ∉ atoms) :
    atoms.flatMap render = inFull atoms := by
  refine List.flatMap_congr fun atom member => ?_
  cases atom with
  | char unit => rfl
  | paste inserted => exact absurd member (chars inserted)

/-- Expanding the markers of known pastes yields the text with the pastes in full. -/
theorem expandPasteMarkers_render {pastes : List (ℕ × JsString)} {atoms : List Atom} (distinct : (pastes.map (·.1)).Nodup)
    (known : ∀ inserted, .paste inserted ∈ atoms → (inserted.pasteId, inserted.content) ∈ pastes)
    (unambiguous : Unambiguous pastes atoms) : expandPasteMarkers pastes (atoms.flatMap render) = inFull atoms := by
  induction pastes generalizing atoms with
  | nil => exact render_eq_inFull fun inserted member => absurd (known inserted member) List.not_mem_nil
  | cons entry pastes ih =>
    obtain ⟨pasteId, pasteContent⟩ := entry
    obtain ⟨unmarked, unambiguous⟩ := unambiguous
    obtain ⟨new, distinct⟩ := List.nodup_cons.mp distinct
    have first : ∀ inserted, .paste inserted ∈ atoms → inserted.pasteId = pasteId → inserted.content = pasteContent := by
      intro inserted member here
      rcases List.mem_cons.mp (known inserted member) with same | later
      · exact (Prod.mk.inj same).2
      · exact absurd (List.mem_map.mpr ⟨_, later, here⟩) new
    have later : ∀ inserted, .paste inserted ∈ atoms.flatMap (putIn pasteId pasteContent) →
        (inserted.pasteId, inserted.content) ∈ pastes := by
      intro inserted member
      obtain ⟨member, differ⟩ := mem_putIn member
      rcases List.mem_cons.mp (known inserted member) with same | later
      · exact absurd (Prod.mk.inj same).1 differ
      · exact later
    have rest := ih distinct later unambiguous
    rw [← replaceAll_render pasteContent unmarked, inFull_putIn first] at rest
    exact rest

/-! ## Both editors -/

/-- A paste of the prompt that is being written. -/
def isCurrent (epoch : ℕ) : Atom → Bool
  | .char _ => true
  | .paste inserted => inserted.epoch = epoch

/-- What the two editors are given agrees: deletions and movements take markers as a whole, a path is not pasted right
behind a large paste that ends with a word, and what is submitted is pasted since the last submit and unambiguous. -/
def Agrees (pair : Pair) : Event → Prop
  | .handlePaste pastedText => isPath (cleanPaste pastedText) →
    ∀ inserted, pair.2.editor.state.before.getLast? = some (.paste inserted) →
      (inFull pair.2.editor.state.before).getLast?.any isWord = false
  | .handleBackspace extent | .deleteBackwards extent =>
    extent.units = ((pair.2.editor.state.before.rtake extent.atoms).flatMap render).length
  | .handleForwardDelete extent | .deleteForwards extent =>
    extent.units = ((pair.2.editor.state.after.take extent.atoms).flatMap render).length
  | .moveCursor position => position.units = ((pair.2.editor.state.whole.take position.atoms).flatMap render).length
  | .submitValue => (∀ atom ∈ pair.2.editor.state.whole, isCurrent pair.2.epoch atom = true) ∧
    Unambiguous pair.1.pastes pair.2.editor.state.whole
  | _ => True

/-- A paste of this prompt is in the map. -/
def Known (epoch : ℕ) (pastes : List (ℕ × JsString)) : Atom → Prop
  | .char _ => True
  | .paste inserted => inserted.epoch < epoch ∨ inserted.epoch = epoch ∧ (inserted.pasteId, inserted.content) ∈ pastes

/-- The editor shows what the reference editor holds. -/
structure Shows (pair : Pair) : Prop where
  editor : pair.1.editor = pair.2.editor.rendered render
  yanked : pair.2.editor.Yanked
  known : pair.2.editor.Holds (Known pair.2.epoch pair.1.pastes)
  counter : pair.1.pasteCounter = pair.2.pasteCounter
  numbers : ∀ entry ∈ pair.1.pastes, entry.1 ≤ pair.1.pasteCounter
  distinct : (pair.1.pastes.map (·.1)).Nodup
  submitted : pair.1.submitted = pair.2.submitted

theorem shows_initial : Shows initial :=
  ⟨rfl, Editor.yanked_of_ne nofun, Editor.holds_initial, rfl, nofun, List.nodup_nil, rfl⟩

variable {pair next : Pair}

/-- A key that changes the texts alone. -/
private theorem Shows.edit (shows : Shows pair) {real : Editor CodeUnit} {reference : Editor Atom}
    (editor : reference.rendered render = real) (yanked : reference.Yanked)
    (known : reference.Holds (Known pair.2.epoch pair.1.pastes)) :
    Shows ({ pair.1 with editor := real }, { pair.2 with editor := reference }) :=
  ⟨editor.symm, yanked, known, shows.counter, shows.numbers, shows.distinct, shows.submitted⟩

private theorem known_map_char (epoch : ℕ) (pastes : List (ℕ × JsString)) (text : JsString) :
    ∀ atom ∈ text.map Atom.char, Known epoch pastes atom := by
  intro atom member
  obtain ⟨_, _, rfl⟩ := List.mem_map.mp member
  trivial

private theorem isWord_marker (pasteId : ℕ) (text : JsString) : (marker pasteId text).getLast?.any isWord = false := by
  obtain ⟨size, _, same⟩ := isMarker_marker pasteId text
  rw [same, List.getLast?_append]
  rfl

private theorem isWord_before {before : List Atom} (apart : ∀ inserted, before.getLast? = some (.paste inserted) →
    (inFull before).getLast?.any isWord = false) :
    (before.flatMap render).getLast?.any isWord = (inFull before).getLast?.any isWord := by
  cases last : before.getLast? with
  | none =>
    rw [List.getLast?_eq_none_iff.mp last]
    rfl
  | some atom =>
    obtain ⟨front, rfl⟩ := List.getLast?_eq_some_iff.mp last
    cases atom with
    | char unit =>
      simp only [inFull, List.flatMap_append, List.flatMap_singleton, render, Atom.content, List.getLast?_concat]
    | paste inserted =>
      rw [apart inserted last, List.flatMap_append, List.flatMap_singleton, List.getLast?_append_of_ne_nil]
      · exact isWord_marker _ _
      · exact render_ne_nil (.paste inserted)

/-- The editor into which a paste is put. -/
private def started {α : Type} (editor : Editor α) : Editor α :=
  { editor.pushUndoSnapshot with historyIndex := -1, lastAction := none }

private theorem handlePaste_eq {state : PasteEditor} {pastedText text : JsString}
    (same : filteredText state.editor.state.before pastedText = text) :
    state.handlePaste pastedText =
      if isLarge text then
        { state with
          editor := (started state.editor).insertTextAtCursorInternal (normalizeText (marker (state.pasteCounter + 1) text))
          pastes := state.pastes ++ [(state.pasteCounter + 1, text)]
          pasteCounter := state.pasteCounter + 1 }
      else { state with editor := (started state.editor).insertTextAtCursorInternal (normalizeText text) } := by
  subst same
  rfl

private theorem reference_handlePaste_eq {state : Reference} {pastedText text : JsString}
    (same : filteredText (inFull state.editor.state.before) pastedText = text) :
    state.handlePaste pastedText =
      if isLarge text then
        { state with
          editor := (started state.editor).insertTextAtCursorInternal [.paste ⟨state.epoch, state.pasteCounter + 1, text⟩]
          pasteCounter := state.pasteCounter + 1 }
      else { state with editor := (started state.editor).insertTextAtCursorInternal ((normalizeText text).map .char) } := by
  subst same
  rfl

private theorem Shows.handlePaste (shows : Shows pair) (pastedText : JsString)
    (agrees : Agrees pair (.handlePaste pastedText)) :
    Shows (pair.1.handlePaste pastedText, pair.2.handlePaste pastedText) := by
  have before : pair.1.editor.state.before = pair.2.editor.state.before.flatMap render := by
    rw [shows.editor]
    rfl
  have text : filteredText pair.1.editor.state.before pastedText =
      filteredText (inFull pair.2.editor.state.before) pastedText := by
    rw [filteredText, filteredText, before]
    cases path : isPath (cleanPaste pastedText) with
    | false => rfl
    | true => rw [isWord_before (agrees path)]
  have start : (started pair.2.editor).rendered render = started pair.1.editor := by
    rw [shows.editor]
    rfl
  have kept : (started pair.2.editor).Holds (Known pair.2.epoch pair.1.pastes) := by
    have known := shows.known.pushUndoSnapshot
    exact ⟨known.state, known.ring, known.undo⟩
  rw [handlePaste_eq text, reference_handlePaste_eq rfl]
  generalize filteredText (inFull pair.2.editor.state.before) pastedText = text
  split
  · refine ⟨?_, Editor.yanked_of_ne nofun, ?_, congrArg (· + 1) shows.counter, ?_, ?_, shows.submitted⟩
    · dsimp only
      rw [Editor.rendered_insertTextAtCursorInternal, start, normalizeText_marker, shows.counter, List.flatMap_singleton]
      rfl
    · refine Editor.Holds.insertTextAtCursorInternal (kept.imp fun atom known => ?_) ?_
      · cases atom with
        | char unit => trivial
        | paste inserted => exact known.imp_right fun current => ⟨current.1, List.mem_append_left _ current.2⟩
      · refine List.forall_mem_singleton.mpr (.inr ⟨rfl, List.mem_append_right _ ?_⟩)
        rw [shows.counter]
        exact List.mem_singleton_self _
    · intro entry member
      rcases List.mem_append.mp member with old | new
      · exact (shows.numbers entry old).trans (Nat.le_succ _)
      · rw [List.mem_singleton.mp new]
    · rw [List.map_append, List.nodup_append]
      refine ⟨shows.distinct, List.nodup_cons.mpr ⟨List.not_mem_nil, List.nodup_nil⟩, fun pasteId old other new => ?_⟩
      obtain ⟨entry, member, rfl⟩ := List.mem_map.mp old
      have number := shows.numbers entry member
      rw [List.map_singleton, List.mem_singleton] at new
      omega
  · refine shows.edit ?_ (Editor.yanked_of_ne nofun) (kept.insertTextAtCursorInternal (known_map_char _ _ _))
    rw [Editor.rendered_insertTextAtCursorInternal, start, render_map_char]

/-- A prompt is submitted with its pastes in full. -/
private theorem Shows.submitValue (shows : Shows pair) (agrees : Agrees pair .submitValue) :
    Shows (pair.1.submitValue, pair.2.submitValue) := by
  have whole : pair.1.editor.state.whole = pair.2.editor.state.whole.flatMap render := by
    rw [shows.editor]
    exact Text.whole_rendered render _
  have known : ∀ inserted, .paste inserted ∈ pair.2.editor.state.whole →
      (inserted.pasteId, inserted.content) ∈ pair.1.pastes := by
    intro inserted member
    have current : inserted.epoch = pair.2.epoch := of_decide_eq_true (agrees.1 _ member)
    rcases shows.known.state _ member with earlier | here
    · omega
    · exact here.2
  have expanded := expandPasteMarkers_render shows.distinct known agrees.2
  refine ⟨?_, Editor.yanked_cleared, ?_, rfl, nofun, List.nodup_nil, ?_⟩
  · rw [PasteEditor.submitValue, shows.editor]
    rfl
  · refine (shows.known.imp fun atom known => ?_).cleared
    cases atom with
    | char unit => trivial
    | paste inserted =>
      refine .inl ((?_ : inserted.epoch ≤ pair.2.epoch).trans_lt (Nat.lt_succ_self _))
      rcases known with earlier | here
      · exact earlier.le
      · exact here.1.le
  · rw [PasteEditor.submitValue, Reference.submitValue]
    dsimp only
    rw [whole, expanded, shows.submitted]

/-- Keys that both editors take for the same keep what the editor shows. -/
theorem Shows.step {event : Event} (shows : Shows pair) (agrees : Agrees pair event)
    (stepped : Model.Tui.Editing.step pair event = some next) : Shows next := by
  cases stepped
  have editor := shows.editor
  cases event with
  | insertCharacter data =>
    refine shows.edit ?_ (Editor.yanked_insertCharacter _ _) (shows.known.insertCharacter (known_map_char _ _ data) _)
    rw [Editor.rendered_insertCharacter, editor, render_map_char]
  | addNewLine =>
    refine shows.edit ?_ (Editor.yanked_addNewLine _) (shows.known.addNewLine (known_map_char _ _ _))
    rw [Editor.rendered_addNewLine, editor, render_map_char]
  | handlePaste pastedText => exact shows.handlePaste pastedText agrees
  | handleBackspace extent =>
    refine shows.edit ?_ (Editor.yanked_handleBackspace _) (shows.known.handleBackspace _)
    rw [Editor.rendered_handleBackspace render_ne_nil agrees, editor]
  | handleForwardDelete extent =>
    refine shows.edit ?_ (Editor.yanked_handleForwardDelete _) (shows.known.handleForwardDelete _)
    rw [Editor.rendered_handleForwardDelete render_ne_nil agrees, editor]
  | deleteBackwards extent =>
    refine shows.edit ?_ (shows.yanked.deleteBackwards _) (shows.known.deleteBackwards _)
    rw [Editor.rendered_deleteBackwards render_ne_nil agrees, editor]
  | deleteForwards extent =>
    refine shows.edit ?_ (shows.yanked.deleteForwards _) (shows.known.deleteForwards _)
    rw [Editor.rendered_deleteForwards render_ne_nil agrees, editor]
  | moveCursor position =>
    refine shows.edit ?_ (Editor.yanked_moveCursor _) (shows.known.moveCursor _)
    rw [Editor.rendered_moveCursor agrees, editor]
  | yank =>
    refine shows.edit ?_ shows.yanked.yank shows.known.yank
    rw [Editor.rendered_yank, editor]
  | yankPop =>
    refine shows.edit ?_ shows.yanked.yankPop shows.known.yankPop
    rw [Editor.rendered_yankPop shows.yanked, editor]
  | undo =>
    refine shows.edit ?_ shows.yanked.undo shows.known.undo_
    rw [Editor.rendered_undo, editor]
  | navigateHistory older =>
    refine shows.edit ?_ (Editor.yanked_navigateHistory _ _) (shows.known.navigateHistory (known_map_char _ _) older)
    rw [Editor.rendered_navigateHistory render_map_char, editor]
    rfl
  | addToHistory text =>
    refine shows.edit ?_ (shows.yanked.addToHistory _) (shows.known.addToHistory _)
    rw [Editor.rendered_addToHistory, editor]
  | submitValue => exact shows.submitValue agrees

/-- While the editor agrees with the one that never uses markers, it submits the same texts. -/
theorem submitted_eq {events : List Event} {final : Pair} (meets : Meets Model.Tui.Editing.step Agrees initial events)
    (run : run? Model.Tui.Editing.step initial events = some final) : final.1.submitted = final.2.submitted :=
  (run?_invariant Shows (fun _ _ _ shows agrees stepped => shows.step agrees stepped) shows_initial meets run).submitted

/-- Without brackets, no characters look like a marker. -/
theorem unambiguous_of_not_mem {pastes : List (ℕ × JsString)} {atoms : List Atom} (absent : .char 0x5B ∉ atoms)
    (contents : ∀ entry ∈ pastes, (0x5B : CodeUnit) ∉ entry.2) : Unambiguous pastes atoms := by
  induction pastes generalizing atoms with
  | nil => trivial
  | cons entry pastes ih =>
    obtain ⟨content, contents⟩ := List.forall_mem_cons.mp contents
    refine ⟨fun form isMarker inside => ?_, ih (fun member => ?_) contents⟩
    · obtain ⟨more, rfl, _⟩ := isMarker.eq_cons
      exact absent (inside.subset (List.mem_cons_self ..))
    · obtain ⟨atom, atom_, put⟩ := List.mem_flatMap.mp member
      cases atom with
      | char unit =>
        cases List.mem_singleton.mp put
        exact absent atom_
      | paste inserted =>
        rw [putIn] at put
        split at put
        · obtain ⟨unit, unit_, same⟩ := List.mem_map.mp put
          cases same
          exact content unit_
        · cases List.mem_singleton.mp put

/-- A text of eleven lines. -/
def elevenLines (first : String) : JsString := js first ++ List.replicate 10 0x0A

/-- A large paste is killed behind a word and yanked twice, and the first of both is put in front again. -/
def killedPaste : List Event :=
  [.insertCharacter (js "a"), .handlePaste (elevenLines "b"), .deleteBackwards ⟨20, 1⟩, .yank, .yank, .moveCursor ⟨1, 1⟩,
    .handleForwardDelete ⟨20, 1⟩, .undo, .submitValue]

theorem submitted_killedPaste :
    ∃ final, run? Model.Tui.Editing.step initial killedPaste = some final ∧
      final.1.submitted = [trim (js "a" ++ elevenLines "b" ++ elevenLines "b")] ∧
      final.1.submitted = final.2.submitted := by
  refine ⟨_, rfl, by decide, @submitted_eq killedPaste _ ?_ rfl⟩
  refine Meets.cons trivial rfl (Meets.cons (fun path => absurd path (by decide)) rfl ?_)
  refine Meets.cons ?_ rfl (Meets.cons trivial rfl (Meets.cons trivial rfl (Meets.cons ?_ rfl (Meets.cons ?_ rfl ?_))))
  · show _ = List.length _
    decide
  · show _ = List.length _
    decide
  · show _ = List.length _
    decide
  · refine Meets.cons trivial rfl (Meets.cons ⟨?_, unambiguous_of_not_mem ?_ ?_⟩ rfl meets_nil)
    · decide
    · decide
    · decide

/-- A paste that holds the marker of the next one. -/
def nestedMarker : List Event :=
  [.handlePaste (elevenLines "[paste #2]"), .handlePaste (elevenLines "b"), .submitValue]

/-- A paste that is killed, yanked in the next prompt and, with another paste, in the one after it. -/
def keptMarker : List Event :=
  [.handlePaste (elevenLines "a"), .deleteBackwards ⟨20, 1⟩, .submitValue, .yank, .submitValue,
    .handlePaste (elevenLines "b"), .yank, .submitValue]

/-- Nothing is typed, and pastes are deleted as a whole, but other texts are submitted. -/
theorem not_submitted_eq :
    (∃ final, run? Model.Tui.Editing.step initial nestedMarker = some final ∧
      final.1.submitted = [trim (elevenLines "b" ++ List.replicate 10 0x0A ++ elevenLines "b")] ∧
      final.2.submitted = [trim (elevenLines "[paste #2]" ++ elevenLines "b")] ∧
      final.1.submitted ≠ final.2.submitted) ∧
    ∃ final, run? Model.Tui.Editing.step initial keptMarker = some final ∧
      final.1.submitted = [[], js "[paste #1 +11 lines]", trim (elevenLines "b" ++ elevenLines "b")] ∧
      final.2.submitted = [[], js "a", trim (elevenLines "b" ++ elevenLines "a")] ∧
      final.1.submitted ≠ final.2.submitted := by
  refine ⟨⟨_, rfl, ?_, ?_, ?_⟩, ⟨_, rfl, ?_, ?_, ?_⟩⟩
  · decide
  · decide
  · decide
  · decide
  · decide
  · decide

/-! ## Undo -/

/-- The editor after a run of events. -/
def after (state : PasteEditor) (events : List Event) : PasteEditor := events.foldl PasteEditor.step state

section Undo

/-- The user neither undoes nor submits. -/
def Edits : Event → Prop
  | .undo | .submitValue => False
  | _ => True

/-- The event goes on with the word that is typed or with the history that is shown, which share one snapshot. -/
def Continues (editor : Editor CodeUnit) : Event → Prop
  | .insertCharacter data => editor.lastAction = some .typeWord ∧ isWhitespaceChar data = false
  | .navigateHistory _ => editor.historyIndex ≠ -1
  | _ => False

variable {state : PasteEditor} {event first : Event} {events : List Event}

/-- An edit puts the text before it on the undo stack, or leaves the stack and, as a rule, the text. -/
private theorem snapshot_or_kept (edits : Edits event) :
    (state.step event).editor.undoStack = state.editor.state :: state.editor.undoStack ∨
      (state.step event).editor.undoStack = state.editor.undoStack ∧
        ((state.step event).editor.state.whole = state.editor.state.whole ∨ Continues state.editor event) := by
  cases event with
  | insertCharacter data =>
    simp only [PasteEditor.step, Editor.insertCharacter]
    split
    · exact .inl rfl
    next typed =>
      simp only [Bool.or_eq_true, bne_iff_ne, ne_eq, not_or, Decidable.not_not, Bool.not_eq_true] at typed
      exact .inr ⟨rfl, .inr typed.symm⟩
  | addNewLine => exact .inl rfl
  | handlePaste pastedText =>
    refine .inl ?_
    simp only [PasteEditor.step, PasteEditor.handlePaste]
    split <;> rfl
  | handleBackspace extent | handleForwardDelete extent | deleteBackwards extent | deleteForwards extent =>
    simp only [PasteEditor.step, Editor.handleBackspace, Editor.handleForwardDelete, Editor.deleteBackwards,
      Editor.deleteForwards]
    split
    · exact .inr ⟨rfl, .inl rfl⟩
    · exact .inl rfl
  | moveCursor position => exact .inr ⟨rfl, .inl (List.take_append_drop ..)⟩
  | yank =>
    simp only [PasteEditor.step, Editor.yank]
    split
    · exact .inl rfl
    · exact .inr ⟨rfl, .inl rfl⟩
  | yankPop =>
    simp only [PasteEditor.step, Editor.yankPop]
    split
    · exact .inr ⟨rfl, .inl rfl⟩
    · refine .inl ?_
      split
      all_goals
        simp only [Editor.insertYankedText, Editor.insertTextAtCursorInternal, Editor.deleteYankedText]
        split <;> rfl
  | undo => exact edits.elim
  | navigateHistory older =>
    by_cases shown : state.editor.historyIndex = -1
    · cases older with
      | true =>
        simp only [PasteEditor.step, Editor.navigateHistory, shown, if_true]
        split
        · exact .inr ⟨rfl, .inl rfl⟩
        · exact .inl rfl
      | false =>
        simp only [PasteEditor.step, Editor.navigateHistory, shown]
        exact .inr ⟨rfl, .inl rfl⟩
    · refine .inr ⟨?_, .inr shown⟩
      simp only [PasteEditor.step, Editor.navigateHistory, shown, false_and, if_false]
      split_ifs <;> rfl
  | addToHistory text =>
    refine .inr ?_
    simp only [PasteEditor.step, Editor.addToHistory]
    split
    · exact ⟨rfl, .inl rfl⟩
    · exact ⟨rfl, .inl rfl⟩
  | submitValue => exact edits.elim

private theorem undoStack_after (edits : ∀ event ∈ events, Edits event) :
    ∃ pushed, (after state events).editor.undoStack = pushed ++ state.editor.undoStack := by
  induction events generalizing state with
  | nil => exact ⟨[], rfl⟩
  | cons event events ih =>
    obtain ⟨head, tail⟩ := List.forall_mem_cons.mp edits
    obtain ⟨pushed, same⟩ := @ih (state.step event) tail
    rcases @snapshot_or_kept state _ head with grown | ⟨kept, _⟩
    · exact ⟨pushed ++ [state.editor.state], by rw [List.append_assoc, List.singleton_append, ← grown]; exact same⟩
    · exact ⟨pushed, by rw [← kept]; exact same⟩

private theorem undo_pushed {pushed older : List (Text CodeUnit)} {snapshot : Text CodeUnit}
    (stack : state.editor.undoStack = pushed ++ snapshot :: older) :
    (after state (List.replicate (pushed.length + 1) .undo)).editor.state = snapshot ∧
      (after state (List.replicate (pushed.length + 1) .undo)).editor.undoStack = older := by
  induction pushed generalizing state with
  | nil => simp [after, PasteEditor.step, Editor.undo, stack]
  | cons top pushed ih =>
    rw [List.length_cons, List.replicate_succ]
    refine @ih (state.step .undo) ?_
    simp [PasteEditor.step, Editor.undo, stack]

/-- An edit that changes the text, and does not go on with a word or with the history, can be undone exactly: whatever
edits follow, undoing as often as the undo stack has grown brings back text, cursor and stack. -/
theorem undo_restores (edits : ∀ event ∈ first :: events, Edits event)
    (changes : (state.step first).editor.state.whole ≠ state.editor.state.whole)
    (fresh : ¬ Continues state.editor first) :
    let edited := after state (first :: events)
    let undone := after edited
      (List.replicate (edited.editor.undoStack.length - state.editor.undoStack.length) .undo)
    undone.editor.state = state.editor.state ∧ undone.editor.undoStack = state.editor.undoStack := by
  intro edited undone
  obtain ⟨head, tail⟩ := List.forall_mem_cons.mp edits
  have snapshot := (@snapshot_or_kept state _ head).resolve_right fun kept => kept.2.elim changes fresh
  obtain ⟨pushed, stack⟩ := @undoStack_after (state.step first) _ tail
  rw [snapshot] at stack
  have grown : edited.editor.undoStack.length - state.editor.undoStack.length = pushed.length + 1 := by
    rw [show edited.editor.undoStack = _ from stack, List.length_append, List.length_cons]
    omega
  simp only [undone, grown]
  exact undo_pushed stack

/-- A word, a line break and a paste that are undone together. -/
theorem undo_restores_typed :
    let edited := after .initial [.insertCharacter (js "a"), .addNewLine, .moveCursor ⟨0, 0⟩, .handlePaste (js "b")]
    let undone := after edited (List.replicate (edited.editor.undoStack.length - 0) .undo)
    undone.editor.state = ⟨[], []⟩ ∧ undone.editor.undoStack = [] :=
  undo_restores (by simp [Edits]) (by decide) fun continues => by cases continues.1

end Undo

end PieAgent.Soundness.PasteMarkers
