import PieAgent.Framing.Core.Frames

/-! # Substrings of a string

The places of a substring are those that `indexOf` finds one after another, each behind the end of the one
before it. `split` cuts at these places, and joining the pieces replaces the substring everywhere.
-/

namespace JavaScript

open Framing

variable {α : Type} [DecidableEq α] {needle text front back : List α}

/-- What stands before and behind the first place of a substring. -/
def cut? (needle : List α) : List α → Option (List α × List α)
  | [] => if needle = [] then some ([], []) else none
  | c :: text =>
    if needle <+: c :: text then some ([], (c :: text).drop needle.length)
    else (cut? needle text).map fun (front, back) => (c :: front, back)

/-- `text.indexOf(needle)`, absent for -1. -/
def indexOf? (needle text : List α) : Option ℕ := (cut? needle text).map (·.1.length)

/-- `text.split(needle)` for a `needle` that is not empty. -/
def splitAtAll (needle text : List α) : List (List α) := (frames (cut? needle) text).1 ++ [(frames (cut? needle) text).2]

/-- How often `indexOf` finds a `needle` that is not empty. -/
def occurrences (needle text : List α) : ℕ := (frames (cut? needle) text).1.length

theorem eq_of_cut? (cut : cut? needle text = some (front, back)) : text = front ++ needle ++ back := by
  induction text generalizing front with
  | nil =>
    rw [cut?] at cut
    split at cut
    next empty =>
      cases cut
      rw [empty]
      rfl
    · cases cut
  | cons c text ih =>
    rw [cut?] at cut
    split at cut
    next starts =>
      cases cut
      obtain ⟨rest, same⟩ := starts
      rw [← same, List.drop_left]
      rfl
    · obtain ⟨found, some_, same⟩ := Option.map_eq_some_iff.mp cut
      cases same
      rw [ih some_]
      rfl

theorem cut?_shortens (nonempty : needle ≠ []) : Shortens (cut? needle) where
  shorter {text front back} cut := by
    have length := congrArg List.length (eq_of_cut? cut)
    have some_ := List.length_pos_of_ne_nil nonempty
    rw [List.length_append, List.length_append] at length
    omega

/-- A substring is found. -/
theorem cut?_ne_none (front back : List α) : cut? needle (front ++ needle ++ back) ≠ none := by
  induction front with
  | nil =>
    intro none_
    rw [List.nil_append] at none_
    cases whole : needle ++ back with
    | nil =>
      rw [whole, cut?, if_pos (List.append_eq_nil_iff.mp whole).1] at none_
      cases none_
    | cons c text =>
      rw [whole, cut?, if_pos (whole ▸ List.prefix_append needle back)] at none_
      cases none_
  | cons c front ih =>
    rw [List.cons_append, List.cons_append, cut?]
    split
    · nofun
    · exact fun none_ => ih (Option.map_eq_none_iff.mp none_)

/-- A substring is found when it is there. -/
theorem cut?_eq_none : cut? needle text = none ↔ ¬needle <:+: text := by
  constructor
  · rintro none_ ⟨front, back, same⟩
    exact cut?_ne_none front back (same ▸ none_)
  · intro absent
    cases found : cut? needle text with
    | none => rfl
    | some place => exact absurd ⟨place.1, place.2, (eq_of_cut? found).symm⟩ absent

/-- The first place is the one that no other ends before. -/
theorem cut?_eq_some (nonempty : needle ≠ []) : cut? needle text = some (front, back) ↔
    text = front ++ needle ++ back ∧ ¬needle <:+: (front ++ needle).dropLast := by
  induction front generalizing text with
  | nil =>
    have short : ¬needle <:+: ([] ++ needle).dropLast := by
      intro inside
      have length := inside.length_le
      have some_ := List.length_pos_of_ne_nil nonempty
      rw [List.nil_append, List.length_dropLast] at length
      omega
    rw [and_iff_left short]
    constructor
    · exact eq_of_cut?
    · rintro rfl
      cases whole : needle ++ back with
      | nil => exact absurd (List.append_eq_nil_iff.mp whole).1 nonempty
      | cons c text =>
        rw [List.nil_append, whole, cut?, if_pos (whole ▸ List.prefix_append needle back), ← whole, List.drop_left]
  | cons c front ih =>
    have last (front : List α) : (front ++ needle).dropLast = front ++ needle.dropLast :=
      List.dropLast_append_of_ne_nil nonempty
    have inside : needle <:+: (c :: front ++ needle).dropLast ↔
        needle <+: (c :: front ++ needle).dropLast ∨ needle <:+: (front ++ needle).dropLast := by
      rw [last, last, List.cons_append]
      exact List.infix_cons_iff
    constructor
    · intro found
      have whole := eq_of_cut? found
      refine ⟨whole, ?_⟩
      rw [whole] at found
      rw [List.cons_append, List.cons_append, cut?] at found
      split_ifs at found with starts
      · cases (Prod.mk.inj (Option.some.inj found)).1
      · obtain ⟨⟨_, _⟩, found, same⟩ := Option.map_eq_some_iff.mp found
        cases same
        rw [inside, not_or]
        refine ⟨fun front_ => starts ?_, (ih.mp found).2⟩
        exact (front_.trans (List.dropLast_prefix _)).trans (List.prefix_append _ _)
    · rintro ⟨rfl, first⟩
      rw [inside, not_or] at first
      rw [List.cons_append, List.cons_append, cut?, if_neg, ih.mpr ⟨rfl, first.2⟩]
      · rfl
      · intro starts
        refine first.1 (List.prefix_of_prefix_length_le starts ?_ ?_)
        · exact (List.dropLast_prefix _).trans (List.prefix_append _ _)
        · rw [last, List.length_append, List.length_cons, List.length_dropLast]
          omega

theorem occurrences_of_none (none_ : cut? needle text = none) : occurrences needle text = 0 := by
  rw [occurrences, frames_of_none none_]
  rfl

theorem occurrences_of_cut (nonempty : needle ≠ []) (cut : cut? needle text = some (front, back)) :
    occurrences needle text = occurrences needle back + 1 := by
  rw [occurrences, frames_of_some (cut?_shortens nonempty) cut]
  rfl

theorem splitAtAll_of_none (none_ : cut? needle text = none) : splitAtAll needle text = [text] := by
  rw [splitAtAll, frames_of_none none_]
  rfl

theorem splitAtAll_of_cut (nonempty : needle ≠ []) (cut : cut? needle text = some (front, back)) :
    splitAtAll needle text = front :: splitAtAll needle back := by
  rw [splitAtAll, frames_of_some (cut?_shortens nonempty) cut]
  rfl

theorem length_splitAtAll (needle text : List α) : (splitAtAll needle text).length = occurrences needle text + 1 :=
  List.length_append

theorem intercalate_split (replacement front text : List α) :
    replacement.intercalate (front :: splitAtAll needle text) =
      front ++ replacement ++ replacement.intercalate (splitAtAll needle text) := by
  have more : splitAtAll needle text ≠ [] := by simp [splitAtAll]
  cases pieces : splitAtAll needle text with
  | nil => exact absurd pieces more
  | cons piece pieces => simp [List.intercalate, List.intersperse]

/-- An induction over the places of a substring. -/
theorem cut_induction (nonempty : needle ≠ []) {motive : List α → Prop}
    (uncut : ∀ text, cut? needle text = none → motive text)
    (cut : ∀ text front back, cut? needle text = some (front, back) → motive back → motive text) (text : List α) :
    motive text := by
  induction size : text.length using Nat.strongRecOn generalizing text with
  | _ size ih =>
    cases found : cut? needle text with
    | none => exact uncut text found
    | some place =>
      have shorter := (cut?_shortens nonempty).shorter found
      exact cut text place.1 place.2 found (ih _ (size ▸ shorter) place.2 rfl)

/-- The pieces and the substring between them are the text. -/
theorem intercalate_splitAtAll (nonempty : needle ≠ []) (text : List α) :
    needle.intercalate (splitAtAll needle text) = text := by
  induction text using cut_induction nonempty with
  | uncut text none_ => rw [splitAtAll_of_none none_, List.intercalate_singleton]
  | cut text front back found ih => rw [splitAtAll_of_cut nonempty found, intercalate_split, ih, ← eq_of_cut? found]

/-- Replacing a substring changes the length for each of its places. -/
theorem length_intercalate_splitAtAll (nonempty : needle ≠ []) (replacement text : List α) :
    (replacement.intercalate (splitAtAll needle text)).length + occurrences needle text * needle.length =
      text.length + occurrences needle text * replacement.length := by
  induction text using cut_induction nonempty with
  | uncut text none_ =>
    rw [splitAtAll_of_none none_, occurrences_of_none none_]
    simp
  | cut text front back found ih =>
    have length := congrArg List.length (eq_of_cut? found)
    rw [List.length_append, List.length_append] at length
    rw [splitAtAll_of_cut nonempty found, occurrences_of_cut nonempty found, intercalate_split, List.length_append,
      List.length_append, Nat.add_one_mul, Nat.add_one_mul]
    omega

/-- Replacing a substring adds only what it is replaced by. -/
theorem mem_of_mem_intercalate_splitAtAll (nonempty : needle ≠ []) {replacement : List α} {c : α}
    (mem : c ∈ replacement.intercalate (splitAtAll needle text)) : c ∈ text ∨ c ∈ replacement := by
  induction text using cut_induction nonempty with
  | uncut text none_ =>
    rw [splitAtAll_of_none none_, List.intercalate_singleton] at mem
    exact .inl mem
  | cut text front back found ih =>
    rw [splitAtAll_of_cut nonempty found, intercalate_split, List.append_assoc] at mem
    rw [eq_of_cut? found]
    rcases List.mem_append.mp mem with front_ | mem
    · exact .inl (List.mem_append_left _ (List.mem_append_left _ front_))
    · rcases List.mem_append.mp mem with new | rest
      · exact .inr new
      · exact (ih rest).imp_left (List.mem_append_right _)

/-- Replacing a substring that is there by another text changes the text. -/
theorem intercalate_splitAtAll_ne (nonempty : needle ≠ []) {replacement : List α} (differ : needle ≠ replacement)
    (some_ : occurrences needle text ≠ 0) : replacement.intercalate (splitAtAll needle text) ≠ text := by
  intro same
  have length := length_intercalate_splitAtAll nonempty replacement text
  rw [same] at length
  have sizes : needle.length = replacement.length := Nat.eq_of_mul_eq_mul_left (Nat.pos_of_ne_zero some_) (by omega)
  cases found : cut? needle text with
  | none => exact some_ (occurrences_of_none found)
  | some place =>
    have eq := eq_of_cut? found
    rw [← same, splitAtAll_of_cut nonempty found, intercalate_split, List.append_assoc, List.append_assoc] at eq
    exact differ (List.append_inj_left (List.append_cancel_left eq) sizes.symm).symm

end JavaScript

/-! ## The last place of a substring

`lastIndexOf` finds the place that begins behind all others. Unlike the places that `split` cuts at, it may overlap
another one.
-/

namespace JavaScript

variable {α : Type} [DecidableEq α] {needle text front back : List α}

/-- What stands before and behind the place that `text.lastIndexOf(needle)` finds, absent for -1. -/
def lastCut? (needle : List α) : List α → Option (List α × List α)
  | [] => if needle = [] then some ([], []) else none
  | c :: text =>
    match lastCut? needle text with
    | some (front, back) => some (c :: front, back)
    | none => if needle <+: c :: text then some ([], (c :: text).drop needle.length) else none

theorem lastCut?_cons (c : α) : lastCut? needle (c :: text) =
    match lastCut? needle text with
    | some (front, back) => some (c :: front, back)
    | none => if needle <+: c :: text then some ([], (c :: text).drop needle.length) else none := rfl

theorem eq_of_lastCut? (cut : lastCut? needle text = some (front, back)) : text = front ++ needle ++ back := by
  induction text generalizing front with
  | nil =>
    rw [lastCut?] at cut
    split at cut
    next empty =>
      cases cut
      rw [empty]
      rfl
    · cases cut
  | cons c text ih =>
    rw [lastCut?_cons] at cut
    split at cut
    next found =>
      cases cut
      rw [ih found]
      rfl
    · split_ifs at cut with starts
      cases cut
      obtain ⟨rest, same⟩ := starts
      rw [← same, List.drop_left]
      rfl

/-- A substring is found when it is there. -/
theorem lastCut?_eq_none : lastCut? needle text = none ↔ ¬needle <:+: text := by
  constructor
  · intro none_ inside
    induction text with
    | nil =>
      rw [lastCut?, if_pos (List.infix_nil.mp inside)] at none_
      cases none_
    | cons c text ih =>
      rw [lastCut?_cons] at none_
      split at none_
      · cases none_
      next behind =>
        split_ifs at none_ with starts
        exact (List.infix_cons_iff.mp inside).elim starts (ih behind)
  · intro absent
    cases found : lastCut? needle text with
    | none => rfl
    | some place => exact absurd ⟨place.1, place.2, (eq_of_lastCut? found).symm⟩ absent

/-- No place begins behind the last one. -/
theorem le_of_lastCut? (cut : lastCut? needle text = some (front, back)) {before behind : List α}
    (place : text = before ++ needle ++ behind) : before.length ≤ front.length := by
  induction text generalizing front before with
  | nil =>
    have empty := List.append_eq_nil_iff.mp (List.append_eq_nil_iff.mp place.symm).1
    rw [empty.1]
    exact Nat.zero_le _
  | cons c text ih =>
    cases before with
    | nil => exact Nat.zero_le _
    | cons d before =>
      obtain ⟨-, inside⟩ := List.cons.inj place
      rw [lastCut?_cons] at cut
      split at cut
      next found =>
        cases cut
        exact Nat.succ_le_succ (ih found inside)
      next none_ => exact absurd ⟨before, behind, inside.symm⟩ ((lastCut?_eq_none).mp none_)

end JavaScript
