import PieAgent.Soundness.EditPreview

/-! # Batches of edits

All edits of a batch are matched against the same content and replaced from the last place to the first. For old texts
that stand once in the content, and at places that have nothing in common, this replaces exactly these places, in whatever
order the edits come, unless a text is found a second time behind the normalization that the engine counts in.
-/

namespace PieAgent.Soundness.BatchEdits

open JavaScript Model.EditTool

/-- The text stands at a place of the content. -/
def StandsAt (text content : JsString) (place : ℕ) : Prop :=
  ∃ front back, content = front ++ text ++ back ∧ front.length = place

/-- The places of two edits have no unit in common. -/
def Apart (content : JsString) (first second : Edit) : Prop :=
  ∀ i j, StandsAt first.oldText content i → StandsAt second.oldText content j →
    i + first.oldText.length ≤ j ∨ j + second.oldText.length ≤ i

/-- The content with the old texts of some edits, which stand in it in this order, replaced. -/
inductive Replaced : List Edit → JsString → JsString → Prop
  | nil (rest : JsString) : Replaced [] rest rest
  | cons (before : JsString) (edit : Edit) {edits : List Edit} {rest result : JsString}
    (replaced : Replaced edits rest result) :
    Replaced (edit :: edits) (before ++ edit.oldText ++ rest) (before ++ normalizeToLF edit.newText ++ result)

/-- The content with the old texts of some edits replaced, in whatever order they stand in it. -/
def ReplacedAll (edits : List Edit) (content result : JsString) : Prop :=
  ∃ ordered, ordered.Perm edits ∧ Replaced ordered content result

/-- The batch gives the result, in whatever order the edits come. -/
def Applies (nfkc : Normalize) (edits : List Edit) (content result : JsString) : Prop :=
  ∀ batch, batch.Perm edits → ∀ path, applyEditsToNormalizedContent nfkc content batch path = .ok ⟨content, result⟩

section Places

variable {text content rest result : JsString} {place : ℕ} {edit : Edit} {edits ordered : List Edit}

/-- The first place of a text. -/
def placeOf (content text : JsString) : ℕ := (indexOf? text content).getD 0

private theorem cut_of_standsAt (stands : StandsAt text content place) :
    ∃ front back, cut? text content = some (front, back) := by
  obtain ⟨front, back, rfl, -⟩ := stands
  cases cut : cut? text (front ++ text ++ back) with
  | none => exact absurd cut (cut?_ne_none front back)
  | some found => exact ⟨found.1, found.2, rfl⟩

/-- A text that stands once in the content is found there. -/
theorem indexOf?_of_once (once : ∃! place, StandsAt text content place) :
    indexOf? text content = some (placeOf content text) ∧ StandsAt text content (placeOf content text) := by
  obtain ⟨place, stands, only⟩ := once
  obtain ⟨front, back, cut⟩ := cut_of_standsAt stands
  have index : indexOf? text content = some front.length := by rw [indexOf?, cut]; rfl
  rw [placeOf, index]
  exact ⟨rfl, front, back, eq_of_cut? cut, rfl⟩

private theorem eq_placeOf (once : ∃! place, StandsAt text content place) (stands : StandsAt text content place) :
    place = placeOf content text :=
  once.unique stands (indexOf?_of_once once).2

/-- Where an edit is replaced, without its number. -/
def target (content : JsString) (edit : Edit) : MatchedEdit where
  editIndex := 0
  matchIndex := placeOf content edit.oldText
  matchLength := edit.oldText.length
  newText := normalizeToLF edit.newText

/-- The first edit ends before the second starts. -/
def Before (first second : MatchedEdit) : Prop := first.matchIndex + first.matchLength ≤ second.matchIndex

theorem replaceMatch_of_length (front old back : JsString) (edit : MatchedEdit) (place : edit.matchIndex = front.length)
    (length : edit.matchLength = old.length) :
    replaceMatch edit (front ++ old ++ back) = front ++ edit.newText ++ back := by
  simp [replaceMatch, place, length, ← List.drop_drop]

/-- Replacing the edits from the last to the first, behind a text that stays. -/
theorem foldr_of_replaced (replaced : Replaced ordered rest result) (front : JsString) :
    ∃ pieces : List MatchedEdit,
      List.Forall₂ (fun edit piece => StandsAt edit.oldText (front ++ rest) piece.matchIndex ∧
        piece = ⟨0, piece.matchIndex, edit.oldText.length, normalizeToLF edit.newText⟩) ordered pieces ∧
      (∀ piece ∈ pieces, front.length ≤ piece.matchIndex) ∧ pieces.Pairwise Before ∧
      pieces.foldr replaceMatch (front ++ rest) = front ++ result := by
  induction replaced generalizing front with
  | nil rest => exact ⟨[], .nil, nofun, .nil, rfl⟩
  | @cons before edit edits rest result replaced ih =>
    obtain ⟨pieces, matched, behind, ordered_, folded⟩ := ih (front ++ before ++ edit.oldText)
    have same : front ++ before ++ edit.oldText ++ rest = front ++ (before ++ edit.oldText ++ rest) := by
      simp only [List.append_assoc]
    rw [same] at matched folded
    refine ⟨⟨0, (front ++ before).length, edit.oldText.length, normalizeToLF edit.newText⟩ :: pieces,
      .cons ⟨⟨front ++ before, rest, by simp only [List.append_assoc], rfl⟩, rfl⟩ matched, ?_, ?_, ?_⟩
    · refine List.forall_mem_cons.mpr ⟨by simp, fun piece member => ?_⟩
      exact le_trans (by simp) (behind piece member)
    · refine List.pairwise_cons.mpr ⟨fun piece member => ?_, ordered_⟩
      have after := behind piece member
      rwa [List.length_append] at after
    · rw [List.foldr_cons, folded, replaceMatch_of_length _ _ _ _ rfl rfl]
      simp only [List.append_assoc]

/-- Edits in the order of their places can be replaced. -/
theorem exists_replaced (stands : ∀ edit ∈ ordered, StandsAt edit.oldText content (placeOf content edit.oldText))
    (sorted : (ordered.map (target content)).Pairwise Before) {offset : ℕ}
    (behind : ∀ edit ∈ ordered, offset ≤ placeOf content edit.oldText) :
    ∃ result, Replaced ordered (content.drop offset) result := by
  induction ordered generalizing offset with
  | nil => exact ⟨_, .nil _⟩
  | cons edit ordered ih =>
    obtain ⟨front, back, whole, place⟩ := stands edit List.mem_cons_self
    obtain ⟨first, sorted⟩ := List.pairwise_cons.mp sorted
    have next : ∀ later ∈ ordered, placeOf content edit.oldText + edit.oldText.length ≤ placeOf content later.oldText :=
      fun later member => first _ (List.mem_map_of_mem member)
    obtain ⟨result, replaced⟩ := ih (fun later member => stands later (List.mem_cons_of_mem _ member)) sorted next
    have rest : content.drop (placeOf content edit.oldText + edit.oldText.length) = back := by
      rw [← place, ← List.length_append]
      conv_lhs => rw [whole]
      exact List.drop_left
    have shown : content.drop offset = front.drop offset ++ edit.oldText ++ back := by
      have within : offset ≤ front.length := place.symm ▸ behind edit List.mem_cons_self
      conv_lhs => rw [whole]
      rw [List.append_assoc, List.drop_append_of_le_length within, List.append_assoc]
    rw [rest] at replaced
    rw [shown]
    exact ⟨_, .cons _ edit replaced⟩

end Places

section Batches

variable {nfkc : Normalize} {content result path : JsString} {edits batch ordered : List Edit}
  {shown : AppliedEditsResult}

private theorem mapM_eq_ok {α β : Type} {f : α → Except JsString β} {g : α → β} {items : List α}
    (all : ∀ item ∈ items, f item = .ok (g item)) : items.mapM f = .ok (items.map g) := by
  induction items with
  | nil => rfl
  | cons item items ih =>
    obtain ⟨first, others⟩ := List.forall_mem_cons.mp all
    rw [List.mapM_cons, first, ih others]
    rfl

private theorem ok_of_mapM {α β : Type} {f : α → Except JsString β} {items : List α} {results : List β}
    (success : items.mapM f = .ok results) : ∀ item ∈ items, ∃ value, f item = .ok value := by
  induction items generalizing results with
  | nil => nofun
  | cons item items ih =>
    rw [List.mapM_cons] at success
    cases first : f item with
    | error error =>
      rw [first] at success
      cases success
    | ok value =>
      rw [first] at success
      cases others : items.mapM f with
      | error error =>
        rw [others] at success
        cases success
      | ok values => exact List.forall_mem_cons.mpr ⟨⟨value, first⟩, ih others⟩

/-- An edit whose new text has LF line ends. -/
def lfEdit (edit : Edit) : Edit := ⟨edit.oldText, normalizeToLF edit.newText⟩

private abbrev sortedByPlace (matched : List MatchedEdit) : List MatchedEdit :=
  matched.insertionSort fun first second => first.matchIndex ≤ second.matchIndex

/-- What the engine does with the matched edits. -/
def applyMatched (content path : JsString) (total : ℕ) (matched : List MatchedEdit) :
    Except JsString AppliedEditsResult :=
  let matchedEdits := matched.insertionSort fun first second => first.matchIndex ≤ second.matchIndex
  match findOverlap? matchedEdits with
  | some (previous, current) => throw (getOverlapError path previous current)
  | none =>
    let newContent := matchedEdits.foldr replaceMatch content
    if content = newContent then throw (getNoChangeError path total)
    else return { baseContent := content, newContent }

/-- Each old text stands in the content as it is. -/
def Found (content : JsString) (edits : List Edit) : Prop :=
  ∀ edit ∈ edits, 13 ∉ edit.oldText ∧ indexOf? edit.oldText content = some (placeOf content edit.oldText)

private theorem Found.normalized (found : Found content batch) :
    (batch.map fun edit => { oldText := normalizeToLF edit.oldText, newText := normalizeToLF edit.newText : Edit }) =
      batch.map lfEdit := by
  refine List.map_congr_left fun edit member => ?_
  rw [normalizeToLF_of_lf (found edit member).1, lfEdit]

private theorem fuzzyFindText_of_indexOf? {oldText : JsString} {index : ℕ}
    (found : indexOf? oldText content = some index) :
    fuzzyFindText nfkc content oldText = some ⟨index, oldText.length, false⟩ := by
  rw [fuzzyFindText, found]

private theorem apply_of_found (found : Found content batch) (nonempty : ∀ edit ∈ batch, edit.oldText ≠ []) :
    applyEditsToNormalizedContent nfkc content batch path =
      ((batch.map lfEdit).zipIdx.mapM (matchEdit nfkc path content batch.length)).bind
        (applyMatched content path batch.length) := by
  have some_ : (batch.map lfEdit).findIdx? (fun edit => edit.oldText = []) = none := by
    rw [List.findIdx?_eq_none_iff]
    rintro _ member
    obtain ⟨edit, inside, rfl⟩ := List.mem_map.mp member
    exact decide_eq_false (nonempty edit inside)
  have exact_ : ((batch.map lfEdit).map fun edit => fuzzyFindText nfkc content edit.oldText).any
      (fun match_ => match_.any (·.usedFuzzyMatch)) = false := by
    rw [List.any_eq_false]
    rintro _ member
    obtain ⟨_, listed, rfl⟩ := List.mem_map.mp member
    obtain ⟨edit, inside, rfl⟩ := List.mem_map.mp listed
    rw [show fuzzyFindText nfkc content (lfEdit edit).oldText = _ from fuzzyFindText_of_indexOf? (found edit inside).2]
    exact Bool.false_ne_true
  unfold applyEditsToNormalizedContent
  rw [found.normalized]
  simp only [some_, exact_, List.length_map, Bool.false_eq_true, if_false]
  rfl

private theorem matchEdit_of_found (nfkc : Normalize) (path : JsString) (found : Found content batch) {item : Edit × ℕ}
    (member : item ∈ (batch.map lfEdit).zipIdx) : ∃ edit ∈ batch, item.1 = lfEdit edit ∧
      ∀ total, matchEdit nfkc path content total item =
        if 1 < countFuzzyOccurrences nfkc content edit.oldText then
          .error (getDuplicateError path item.2 total (countFuzzyOccurrences nfkc content edit.oldText))
        else .ok { target content edit with editIndex := item.2 } := by
  obtain ⟨edit, inside, same⟩ := List.mem_map.mp (List.fst_mem_of_mem_zipIdx member)
  refine ⟨edit, inside, same.symm, fun total => ?_⟩
  rw [matchEdit, ← same, show fuzzyFindText nfkc content (lfEdit edit).oldText = _ from
    fuzzyFindText_of_indexOf? (found edit inside).2]
  rfl

/-- A batch that is applied has texts that are not empty and that are counted once. -/
private theorem counted_of_ok (found : Found content batch)
    (success : applyEditsToNormalizedContent nfkc content batch path = .ok shown) :
    ∀ edit ∈ batch, edit.oldText ≠ [] ∧ countFuzzyOccurrences nfkc content edit.oldText ≤ 1 := by
  have nonempty : ∀ edit ∈ batch, edit.oldText ≠ [] := by
    intro edit member empty
    unfold applyEditsToNormalizedContent at success
    rw [found.normalized] at success
    cases first : (batch.map lfEdit).findIdx? (fun edit => edit.oldText = []) with
    | none =>
      have other := List.findIdx?_eq_none_iff.mp first _ (List.mem_map_of_mem member)
      exact absurd empty (of_decide_eq_false other)
    | some place =>
      simp only [first] at success
      cases success
  rw [apply_of_found found nonempty] at success
  intro edit member
  refine ⟨nonempty edit member, ?_⟩
  cases matched : (batch.map lfEdit).zipIdx.mapM (matchEdit nfkc path content batch.length) with
  | error error =>
    rw [matched] at success
    cases success
  | ok values =>
    have listed : lfEdit edit ∈ (batch.map lfEdit).zipIdx.map Prod.fst := by
      rw [List.zipIdx_map_fst]
      exact List.mem_map_of_mem member
    obtain ⟨item, inside, same⟩ := List.mem_map.mp listed
    obtain ⟨value, ok⟩ := ok_of_mapM matched item inside
    obtain ⟨other, -, other_, outcome⟩ := matchEdit_of_found nfkc path found inside
    have texts : other.oldText = edit.oldText := (Edit.mk.inj (other_.symm.trans same)).1
    rw [outcome, texts] at ok
    by_contra many
    rw [if_pos (not_le.mp many)] at ok
    cases ok

/-- A matched edit without its number. -/
def withoutIndex (edit : MatchedEdit) : MatchedEdit := { edit with editIndex := 0 }

private theorem foldr_withoutIndex (matched : List MatchedEdit) (content : JsString) :
    (matched.map withoutIndex).foldr replaceMatch content = matched.foldr replaceMatch content :=
  List.foldr_map

private theorem findOverlap?_of_pairwise {matched : List MatchedEdit} (apart : matched.Pairwise Before) :
    findOverlap? matched = none := by
  induction matched with
  | nil => rfl
  | cons first rest ih =>
    obtain ⟨before, apart⟩ := List.pairwise_cons.mp apart
    cases rest with
    | nil => rfl
    | cons second rest =>
      rw [findOverlap?, if_neg (not_lt.mpr (before second List.mem_cons_self)), ih apart]

/-- Sorting by the place gives the edits in the order in which they stand in the content. -/
private theorem sorted_eq {matched pieces : List MatchedEdit} (same : (matched.map withoutIndex).Perm pieces)
    (apart : pieces.Pairwise Before) (nonempty : ∀ piece ∈ pieces, 0 < piece.matchLength) :
    (sortedByPlace matched).map withoutIndex = pieces := by
  have total : Std.Total fun first second : MatchedEdit => first.matchIndex ≤ second.matchIndex :=
    ⟨fun _ _ => le_total _ _⟩
  have trans : IsTrans MatchedEdit fun first second => first.matchIndex ≤ second.matchIndex := ⟨fun _ _ _ => le_trans⟩
  have increasing : pieces.Pairwise fun first second => first.matchIndex < second.matchIndex := by
    refine apart.imp_of_mem fun member _ before => ?_
    have := nonempty _ member
    exact lt_of_lt_of_le (by omega) before
  have distinct : (pieces.map (·.matchIndex)).Nodup := List.pairwise_map.mpr (increasing.imp ne_of_lt)
  have all : ((sortedByPlace matched).map withoutIndex).Perm
      pieces := ((List.perm_insertionSort _ _).map _).trans same
  have sorted : ((sortedByPlace matched).map
      withoutIndex).Pairwise fun first second => first.matchIndex ≤ second.matchIndex :=
    List.pairwise_map.mpr (List.pairwise_insertionSort _ _)
  refine all.eq_of_pairwise (fun first second inside member le ge => ?_) sorted (increasing.imp le_of_lt)
  exact List.inj_on_of_nodup_map distinct (all.mem_iff.mp inside) member (le_antisymm le ge)

private theorem applyMatched_of_pieces {matched pieces : List MatchedEdit} {total : ℕ}
    (same : (matched.map withoutIndex).Perm pieces) (apart : pieces.Pairwise Before)
    (nonempty : ∀ piece ∈ pieces, 0 < piece.matchLength) (folded : pieces.foldr replaceMatch content = result)
    (changed : result ≠ content) : applyMatched content path total matched = .ok ⟨content, result⟩ := by
  have sorted := sorted_eq same apart nonempty
  have apart_ : (sortedByPlace matched).Pairwise Before := by
    rw [← sorted] at apart
    exact (List.pairwise_map (f := withoutIndex)).mp apart
  have new : (sortedByPlace matched).foldr replaceMatch content =
      result := by
    rw [← foldr_withoutIndex, sorted, folded]
  simp only [applyMatched, findOverlap?_of_pairwise apart_, new]
  rw [if_neg changed.symm]
  rfl

private theorem applies_of_counted (found : Found content batch) (same : batch.Perm ordered)
    (apart : (ordered.map (target content)).Pairwise Before)
    (folded : (ordered.map (target content)).foldr replaceMatch content = result) (changed : result ≠ content)
    (counted : ∀ edit ∈ batch, edit.oldText ≠ [] ∧ countFuzzyOccurrences nfkc content edit.oldText ≤ 1) :
    applyEditsToNormalizedContent nfkc content batch path = .ok ⟨content, result⟩ := by
  rw [apply_of_found found fun edit member => (counted edit member).1]
  have matched : (batch.map lfEdit).zipIdx.mapM (matchEdit nfkc path content batch.length) =
      .ok ((batch.map lfEdit).zipIdx.map fun item =>
        ⟨item.2, placeOf content item.1.oldText, item.1.oldText.length, item.1.newText⟩) := by
    refine mapM_eq_ok fun item member => ?_
    obtain ⟨edit, inside, isEdit, outcome⟩ := matchEdit_of_found nfkc path found member
    rw [outcome, if_neg (not_lt.mpr (counted edit inside).2), isEdit]
    rfl
  rw [matched]
  refine applyMatched_of_pieces ?_ apart ?_ folded changed
  · have pieces : ((batch.map lfEdit).zipIdx.map fun item =>
        (⟨item.2, placeOf content item.1.oldText, item.1.oldText.length, item.1.newText⟩ : MatchedEdit)).map withoutIndex =
        batch.map (target content) := by
      have numbers : (batch.map lfEdit).zipIdx.map Prod.fst = batch.map lfEdit := List.zipIdx_map_fst ..
      calc _ = ((batch.map lfEdit).zipIdx.map Prod.fst).map fun edit =>
            (⟨0, placeOf content edit.oldText, edit.oldText.length, edit.newText⟩ : MatchedEdit) := by
            simp only [List.map_map]
            rfl
        _ = batch.map (target content) := by
            rw [numbers, List.map_map]
            rfl
    rw [pieces]
    exact same.map _
  · rintro _ member
    obtain ⟨edit, inside, rfl⟩ := List.mem_map.mp member
    exact List.length_pos_of_ne_nil (counted edit (same.mem_iff.mpr inside)).1

end Batches

section Simultaneous

variable {nfkc : Normalize} {content result : JsString} {edits ordered : List Edit}

private def ByPlace (content : JsString) (first second : Edit) : Prop :=
  placeOf content first.oldText ≤ placeOf content second.oldText

private instance : DecidableRel (ByPlace content) := fun _ _ => Nat.decLe _ _

private theorem Apart.symm {first second : Edit} (apart : Apart content first second) : Apart content second first :=
  fun i j stands other => (apart j i other stands).symm

private theorem found_of_once (lf : 13 ∉ content) (once : ∀ edit ∈ edits, ∃! place, StandsAt edit.oldText content place) :
    Found content edits := by
  intro edit member
  refine ⟨fun inside => lf ?_, (indexOf?_of_once (once edit member)).1⟩
  obtain ⟨front, back, whole, -⟩ := (indexOf?_of_once (once edit member)).2
  rw [whole]
  exact List.mem_append_left _ (List.mem_append_right _ inside)

/-- Texts that stand once and apart come one after the other when they are sorted by their places. -/
private theorem exists_ordered (once : ∀ edit ∈ edits, ∃! place, StandsAt edit.oldText content place)
    (apart : edits.Pairwise (Apart content)) :
    ∃ ordered : List Edit, ordered.Perm edits ∧ (ordered.map (target content)).Pairwise Before := by
  have total : Std.Total (ByPlace content) := ⟨fun _ _ => Nat.le_total _ _⟩
  have trans : IsTrans Edit (ByPlace content) := ⟨fun _ _ _ => Nat.le_trans⟩
  have all := List.perm_insertionSort (ByPlace content) edits
  refine ⟨edits.insertionSort (ByPlace content), all, List.pairwise_map.mpr ?_⟩
  have sorted := List.pairwise_insertionSort (ByPlace content) edits
  have apart_ := (all.pairwise_iff Apart.symm).mpr apart
  refine (sorted.and apart_).imp_of_mem fun {first second} member member_ both => ?_
  have first_ := once first ((List.mem_insertionSort _).mp member)
  have second_ := once second ((List.mem_insertionSort _).mp member_)
  rcases both.2 _ _ (indexOf?_of_once first_).2 (indexOf?_of_once second_).2 with before | behind
  · exact before
  · -- Only an empty text ends where a text before it starts, and it stands once in the empty content only.
    have le : placeOf content first.oldText ≤ placeOf content second.oldText := both.1
    have empty : second.oldText = [] := List.eq_nil_of_length_eq_zero (by omega)
    rw [empty] at second_
    have ends : 0 = content.length := second_.unique ⟨[], content, rfl, rfl⟩ ⟨content, [], by simp, rfl⟩
    obtain ⟨front, back, whole, place⟩ := (indexOf?_of_once first_).2
    have length := congrArg List.length whole
    simp only [List.length_append] at length
    change placeOf content first.oldText + first.oldText.length ≤ placeOf content second.oldText
    omega

private theorem target_of_forall₂ {pieces : List MatchedEdit}
    (once : ∀ edit ∈ ordered, ∃! place, StandsAt edit.oldText content place)
    (matched : List.Forall₂ (fun edit piece => StandsAt edit.oldText content piece.matchIndex ∧
      piece = ⟨0, piece.matchIndex, edit.oldText.length, normalizeToLF edit.newText⟩) ordered pieces) :
    pieces = ordered.map (target content) := by
  induction matched with
  | nil => rfl
  | @cons edit piece ordered pieces both _ ih =>
    obtain ⟨first, others⟩ := List.forall_mem_cons.mp once
    rw [List.map_cons, ih others, both.2, eq_placeOf first both.1]
    rfl

/-- Edits whose old texts stand once in the content, at places apart from each other, are replaced at these places in
whatever order they come, exactly when each text is not empty and is counted once behind the normalization. -/
theorem batch_edits_simultaneous_iff (nfkc : Normalize) (content : JsString) (edits : List Edit) (lf : 13 ∉ content)
    (once : ∀ edit ∈ edits, ∃! place, StandsAt edit.oldText content place) (apart : edits.Pairwise (Apart content)) :
    (∃ result, ReplacedAll edits content result) ∧ ∀ result, ReplacedAll edits content result → result ≠ content →
      (Applies nfkc edits content result ↔
        ∀ edit ∈ edits, edit.oldText ≠ [] ∧ countFuzzyOccurrences nfkc content edit.oldText ≤ 1) := by
  have found := found_of_once lf once
  constructor
  · obtain ⟨ordered, same, sorted⟩ := exists_ordered once apart
    obtain ⟨result, replaced⟩ : ∃ result, Replaced ordered (content.drop 0) result := exists_replaced
      (fun edit member => (indexOf?_of_once (once edit (same.mem_iff.mp member))).2) sorted fun _ _ => Nat.zero_le _
    exact ⟨result, ordered, same, replaced⟩
  · rintro result ⟨ordered, same, replaced⟩ changed
    constructor
    · exact fun applies => counted_of_ok found (applies edits (List.Perm.refl _) [])
    · intro counted batch order path
      have once_ : ∀ edit ∈ ordered, ∃! place, StandsAt edit.oldText content place :=
        fun edit member => once edit (same.mem_iff.mp member)
      obtain ⟨pieces, matched, -, before, folded⟩ := foldr_of_replaced replaced []
      obtain rfl := target_of_forall₂ once_ matched
      have found_ : Found content batch := fun edit member => found edit (order.mem_iff.mp member)
      exact applies_of_counted found_ (order.trans same.symm) before folded changed
        fun edit member => counted edit (order.mem_iff.mp member)

end Simultaneous

section Examples

/-- The places of a text. -/
def places (text content : JsString) : List ℕ :=
  (List.range (content.length + 1)).filter fun place => text.isPrefixOf (content.drop place)

private theorem standsAt_iff_mem_places {text content : JsString} {place : ℕ} :
    StandsAt text content place ↔ place ∈ places text content := by
  rw [places, List.mem_filter, List.mem_range, List.isPrefixOf_iff_prefix]
  constructor
  · rintro ⟨front, back, rfl, rfl⟩
    refine ⟨by simp only [List.length_append]; omega, back, ?_⟩
    rw [List.append_assoc, List.drop_left]
  · rintro ⟨within, back, rest⟩
    refine ⟨content.take place, back, ?_, List.length_take_of_le (by omega)⟩
    rw [List.append_assoc, rest, List.take_append_drop]

private theorem once_of_places {text content : JsString} {place : ℕ} (single : places text content = [place]) :
    ∃! place, StandsAt text content place := by
  simp only [standsAt_iff_mem_places, single]
  exact ⟨place, List.mem_singleton_self _, fun _ => List.mem_singleton.mp⟩

private def swapped : List Edit := [⟨js "b", js "a"⟩, ⟨js "a", js "b"⟩]

theorem batch_edits_simultaneous_iff_swapped :
    (∃ result, ReplacedAll swapped (js "a-b") result) ∧ ∀ result, ReplacedAll swapped (js "a-b") result →
      result ≠ js "a-b" → (Applies id swapped (js "a-b") result ↔
        ∀ edit ∈ swapped, edit.oldText ≠ [] ∧ countFuzzyOccurrences id (js "a-b") edit.oldText ≤ 1) := by
  have last : places (js "b") (js "a-b") = [2] := by decide
  have first : places (js "a") (js "a-b") = [0] := by decide
  refine batch_edits_simultaneous_iff id (js "a-b") swapped (by decide) ?_ ?_
  · exact List.forall_mem_cons.mpr ⟨once_of_places last, List.forall_mem_singleton.mpr (once_of_places first)⟩
  · refine List.pairwise_pair.mpr fun i j stands other => .inr ?_
    have atLast : i ∈ places (js "b") (js "a-b") := (standsAt_iff_mem_places).mp stands
    have atFirst : j ∈ places (js "a") (js "a-b") := (standsAt_iff_mem_places).mp other
    rw [last, List.mem_singleton] at atLast
    rw [first, List.mem_singleton] at atFirst
    rw [atLast, atFirst]
    decide

/-- A text that stands once between straight quotes, and once between curly ones, is not replaced. -/
theorem quoted_text_is_refused : ¬∀ content edits, 13 ∉ content →
    (∀ edit ∈ edits, ∃! place, StandsAt edit.oldText content place) → edits.Pairwise (Apart content) →
    ∀ result, ReplacedAll edits content result → result ≠ content → Applies id edits content result := by
  intro always
  have single : places (js "\"x\"") (js "\"x\" “x”") = [0] := by decide
  have applies := always (js "\"x\" “x”") [⟨js "\"x\"", js "y"⟩] (by decide)
    (List.forall_mem_singleton.mpr (once_of_places single)) (List.pairwise_singleton _ _) (js "y “x”")
    ⟨_, .refl _, .cons [] ⟨js "\"x\"", js "y"⟩ (.nil (js " “x”"))⟩ (by decide)
  have refused : (applyEditsToNormalizedContent id (js "\"x\" “x”") [⟨js "\"x\"", js "y"⟩] (js "f")).toOption = none := by
    decide
  have applied := congrArg Except.toOption (applies _ (List.Perm.refl _) (js "f"))
  cases refused.symm.trans applied

end Examples

end PieAgent.Soundness.BatchEdits
