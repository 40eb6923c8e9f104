import Mathlib.Data.List.Nodup
import PieAgent.Model.Core.PromptTemplates

/-! # Whether template arguments are inserted literally and once

A template should be filled in a single pass over its own placeholders. The four passes come to that exactly if none of
them sees a placeholder that is not one of the template, and if the arguments hold nothing that `replace` interprets when
all of them are inserted.

Every character is marked with where it comes from, so that a placeholder that an argument has brought along is told from
one of the template.
-/

namespace PieAgent.Soundness.TemplateArguments

open JavaScript Model.PromptTemplates

section Statements

/-- Where a character comes from. -/
inductive Origin where
  | template (index : ℕ)
  | argument (pass : ℕ)
  /-- `replace` has copied it. -/
  | copied
deriving DecidableEq

structure Marked where
  unit : CodeUnit
  origin : Origin
deriving DecidableEq

def marked : Characters Marked where
  unit := Marked.unit
  inserted pass unit := ⟨unit, .argument pass⟩
  copied character := { character with origin := .copied }

def mark (content : JsString) : List Marked := content.mapIdx fun index unit => ⟨unit, .template index⟩

variable {α : Type} (chars : Characters α) (args : List JsString)

/-- The argument text of a placeholder of one kind at the front of a text, and how long the placeholder is. -/
def filler? (pass : ℕ) (text : List α) : Option (List α × ℕ) :=
  match pass with
  | 1 => (positional? (text.map chars.unit)).map fun hit => ((positionalValue args hit.1).map (chars.inserted 1), hit.2)
  | 2 => (slice? (text.map chars.unit)).map fun hit => ((sliceValue args hit.1.1 hit.1.2).map (chars.inserted 2), hit.2)
  | 3 => (literal? (js "$ARGUMENTS") (text.map chars.unit)).map fun hit => ((allArgs args).map (chars.inserted 3), hit.2)
  | 4 => (literal? (js "$@") (text.map chars.unit)).map fun hit => ((allArgs args).map (chars.inserted 4), hit.2)
  | _ => none

/-- The argument text of a placeholder of one of the first kinds. -/
def fillers? : ℕ → List α → Option (List α × ℕ)
  | 0 => fun _ => none
  | pass + 1 => fun text => fillers? pass text <|> filler? chars args (pass + 1) text

/-- The template with the placeholders of the first kinds filled. -/
def filled (passes : ℕ) (content : List α) : List α := replaceAll (fillers? chars args passes) content

/-- The template with every placeholder filled, in one pass. -/
def expand (content : List α) : List α := filled chars args 4 content

/-- The function inserts the arguments as they are, and every character keeps where it comes from. -/
structure InsertedVerbatim (content : JsString) (args : List JsString) : Prop where
  plain : substituteArgs .plain args content = expand .plain args content
  marked : substituteArgs marked args (mark content) = expand marked args (mark content)

/-- A pair of code units that a replacement string does not stand for itself with. -/
def IsReplacementPattern (first second : CodeUnit) : Prop :=
  first = 0x24 ∧ (second = 0x24 ∨ second = 0x26 ∨ second = 0x60 ∨ second = 0x27)

/-- A text with something that `replace` interprets. -/
def HasReplacementPattern (text : JsString) : Prop :=
  ∃ first second, IsReplacementPattern first second ∧ [first, second] <:+: text

/-- With the earlier kinds filled, the placeholders of a kind are those of the template. -/
def OwnPlaceholders (content : JsString) (args : List JsString) (pass : ℕ) : Prop :=
  ∀ {front rest new length}, filled marked args (pass - 1) (mark content) = front ++ rest →
    filler? marked args pass rest = some (new, length) → rest.take length <:+: mark content

/-- Nothing that the arguments bring along looks like a placeholder or a replacement pattern. -/
structure Unaffected (content : JsString) (args : List JsString) : Prop where
  slices : OwnPlaceholders content args 2
  arguments : OwnPlaceholders content args 3
  all : OwnPlaceholders content args 4
  literal : js "$ARGUMENTS" <:+: content ∨ js "$@" <:+: content → ¬HasReplacementPattern (allArgs args)

end Statements

section Patterns

variable {text front back : JsString} {length : ℕ}

private theorem not_dollar_of_digit {unit : CodeUnit} (digit : isDigitUnit unit = true) : unit ≠ 0x24 := by
  rintro rfl
  exact absurd digit (by decide)

private theorem mem_takeWhile {unit : CodeUnit} (member : unit ∈ text.takeWhile isDigitUnit) : isDigitUnit unit = true :=
  List.mem_takeWhile_imp member

private theorem positional?_delimited : Delimited (· = (0x24 : CodeUnit)) positional? where
  cut {text captures length} found := by
    unfold positional? at found
    split at found
    next rest =>
      dsimp only at found
      split at found
      · cases found
      cases found
      exact ⟨0x24, rest.takeWhile isDigitUnit, rest.dropWhile isDigitUnit,
        by rw [List.cons_append, List.takeWhile_append_dropWhile], rfl, rfl,
        fun unit member => not_dollar_of_digit (mem_takeWhile member)⟩
    · cases found

/-- The texts of a slice. -/
inductive IsSlice : JsString → ℕ × Option ℕ → Prop
  | open (start : JsString) (digits : ∀ unit ∈ start, isDigitUnit unit = true) (some_ : start ≠ []) :
      IsSlice (0x24 :: 0x7B :: 0x40 :: 0x3A :: (start ++ [0x7D])) (digitsValue start, none)
  | closed (start length : JsString) (digits : ∀ unit ∈ start ++ length, isDigitUnit unit = true) (some_ : start ≠ [])
      (some_' : length ≠ []) :
      IsSlice (0x24 :: 0x7B :: 0x40 :: 0x3A :: (start ++ 0x3A :: (length ++ [0x7D])))
        (digitsValue start, some (digitsValue length))

private theorem of_slice? {captures : ℕ × Option ℕ} (found : slice? text = some (captures, length)) :
    ∃ front back, text = front ++ back ∧ length = front.length ∧ IsSlice front captures := by
  unfold slice? at found
  split at found
  swap
  · cases found
  next rest =>
    dsimp only at found
    split at found
    · cases found
    next some_ =>
      split at found
      next more closing =>
        cases found
        refine ⟨_, more, ?_, ?_, .open (rest.takeWhile isDigitUnit) (fun _ => mem_takeWhile) some_⟩
        · rw [List.cons_append, List.cons_append, List.cons_append, List.cons_append, List.append_assoc,
            List.singleton_append, ← closing, List.takeWhile_append_dropWhile]
        · simp
      next more colon =>
        split at found
        · cases found
        next some_' =>
          split at found
          swap
          · cases found
          next last closing =>
            cases found
            refine ⟨_, last, ?_, ?_, .closed (rest.takeWhile isDigitUnit) (more.takeWhile isDigitUnit) (fun _ member =>
              (List.mem_append.mp member).elim mem_takeWhile mem_takeWhile) some_ some_'⟩
            · rw [List.cons_append, List.cons_append, List.cons_append, List.cons_append, List.append_assoc,
                List.cons_append, List.append_assoc, List.singleton_append, ← closing, List.takeWhile_append_dropWhile,
                ← colon, List.takeWhile_append_dropWhile]
            · simp
              omega
      · cases found

private theorem takeWhile_digits {start rest : JsString} {unit : CodeUnit}
    (digits : ∀ unit ∈ start, isDigitUnit unit = true) (stop : isDigitUnit unit = false) :
    (start ++ unit :: rest).takeWhile isDigitUnit = start ∧
      (start ++ unit :: rest).dropWhile isDigitUnit = unit :: rest := by
  rw [List.takeWhile_append_of_pos digits, List.dropWhile_append_of_pos digits,
    List.takeWhile_cons_of_neg (by simp [stop]), List.dropWhile_cons_of_neg (by simp [stop]), List.append_nil]
  exact ⟨rfl, rfl⟩

private theorem slice?_append {captures : ℕ × Option ℕ} (isSlice : IsSlice front captures) (back : JsString) :
    slice? (front ++ back) = some (captures, front.length) := by
  cases isSlice with
  | «open» start digits some_ =>
    obtain ⟨taken, left⟩ := @takeWhile_digits start back 0x7D digits (by decide)
    simp only [List.cons_append, List.append_assoc, List.nil_append]
    simp only [slice?, taken, left, if_neg some_]
    simp
  | closed start length digits some_ some_' =>
    have first := fun unit member => digits unit (List.mem_append_left _ member)
    have second := fun unit member => digits unit (List.mem_append_right _ member)
    obtain ⟨taken, left⟩ := @takeWhile_digits start (length ++ 0x7D :: back) 0x3A first (by decide)
    obtain ⟨taken', left'⟩ := @takeWhile_digits length back 0x7D second (by decide)
    simp only [List.cons_append, List.append_assoc, List.nil_append]
    simp only [slice?, taken, left, if_neg some_, taken', left', if_neg some_']
    simp
    omega

private theorem slice?_delimited : Delimited (· = (0x24 : CodeUnit)) slice? where
  cut {text captures length} found := by
    obtain ⟨front, back, rfl, rfl, isSlice⟩ := of_slice? found
    cases isSlice with
    | «open» start digits some_ =>
      refine ⟨_, _, back, rfl, rfl, rfl, fun unit member => ?_⟩
      simp only [List.mem_cons, List.mem_append, List.not_mem_nil, or_false] at member
      rcases member with rfl | rfl | rfl | member | rfl
      · decide
      · decide
      · decide
      · exact not_dollar_of_digit (digits unit member)
      · decide
    | closed start length digits some_ some_' =>
      refine ⟨_, _, back, rfl, rfl, rfl, fun unit member => ?_⟩
      simp only [List.mem_cons, List.mem_append, List.not_mem_nil, or_false] at member
      rcases member with rfl | rfl | rfl | member | rfl | member | rfl
      · decide
      · decide
      · decide
      · exact not_dollar_of_digit (digits unit (List.mem_append_left _ member))
      · decide
      · exact not_dollar_of_digit (digits unit (List.mem_append_right _ member))
      · decide

private theorem slice?_local : IsLocal slice? where
  keep found back' := by
    obtain ⟨front', back'', same, length, isSlice⟩ := of_slice? found
    obtain ⟨rfl, _⟩ := List.append_inj same length
    exact slice?_append isSlice back'

private theorem literal?_delimited {needle rest : JsString} (dollar : needle = 0x24 :: rest)
    (others : ∀ unit ∈ rest, unit ≠ 0x24) : Delimited (· = (0x24 : CodeUnit)) (literal? needle) where
  cut {text captures length} found := by
    rw [literal?] at found
    split at found
    next starts =>
      obtain ⟨back, rfl⟩ := List.isPrefixOf_iff_prefix.mp starts
      cases found
      subst dollar
      exact ⟨0x24, rest, back, rfl, rfl, rfl, others⟩
    · cases found

private theorem literal?_local (needle : JsString) : IsLocal (literal? needle) where
  keep {front back captures} found back' := by
    rw [literal?] at found
    split at found
    next starts =>
      obtain ⟨more, same⟩ := List.isPrefixOf_iff_prefix.mp starts
      have length : needle.length = front.length := congrArg Prod.snd (Option.some.inj found)
      obtain ⟨rfl, _⟩ := List.append_inj same length
      rw [literal?, if_pos (List.isPrefixOf_iff_prefix.mpr (List.prefix_append ..))]
    · cases found

end Patterns

section Fillers

variable {α : Type} {chars : Characters α} {args : List JsString} {pass passes : ℕ} {text : List α}

private theorem arguments_eq : js "$ARGUMENTS" = 0x24 :: 0x41 :: (js "$ARGUMENTS").drop 2 := by decide

private theorem all_eq : js "$@" = [0x24, 0x40] := by decide

private theorem arguments_others : ∀ unit ∈ 0x41 :: (js "$ARGUMENTS").drop 2, unit ≠ (0x24 : CodeUnit) := by
  have others : (0x41 :: (js "$ARGUMENTS").drop 2).all (· ≠ (0x24 : CodeUnit)) = true := by decide
  simpa only [List.all_eq_true, decide_eq_true_eq] using others

private theorem all_others : ∀ unit ∈ [(0x40 : CodeUnit)], unit ≠ 0x24 := by
  simp only [List.mem_singleton]
  rintro _ rfl
  decide

theorem filler?_delimited (pass : ℕ) : Delimited (chars.unit · = (0x24 : CodeUnit)) (filler? chars args pass) := by
  unfold filler?
  split
  · exact (positional?_delimited).comap.mapCaptures fun num => (positionalValue args num).map (chars.inserted 1)
  · exact (slice?_delimited).comap.mapCaptures fun slice => (sliceValue args slice.1 slice.2).map (chars.inserted 2)
  · exact (literal?_delimited arguments_eq arguments_others).comap.mapCaptures fun _ =>
      (allArgs args).map (chars.inserted 3)
  · exact (literal?_delimited all_eq all_others).comap.mapCaptures fun _ => (allArgs args).map (chars.inserted 4)
  · exact ⟨nofun⟩

theorem fillers?_delimited (passes : ℕ) : Delimited (chars.unit · = (0x24 : CodeUnit)) (fillers? chars args passes) := by
  induction passes with
  | zero => exact ⟨nofun⟩
  | succ pass ih => exact ih.orElse (filler?_delimited _)

theorem filler?_local (later : 2 ≤ pass) : IsLocal (filler? chars args pass) := by
  unfold filler?
  split
  · omega
  · exact (slice?_local).comap.mapCaptures fun slice => (sliceValue args slice.1 slice.2).map (chars.inserted 2)
  · exact (literal?_local _).comap.mapCaptures fun _ => (allArgs args).map (chars.inserted 3)
  · exact (literal?_local _).comap.mapCaptures fun _ => (allArgs args).map (chars.inserted 4)
  · exact ⟨nofun⟩

/-- The second code unit tells the kinds of placeholders apart. -/
private theorem filler?_second {hit : List α × ℕ} (found : filler? chars args pass text = some hit) :
    ∃ unit, (text.map chars.unit)[1]? = some unit ∧
      ((pass = 1 ∧ isDigitUnit unit = true) ∨ (pass = 2 ∧ unit = 0x7B) ∨ (pass = 3 ∧ unit = 0x41) ∨
        (pass = 4 ∧ unit = 0x40)) := by
  generalize units : text.map chars.unit = content
  unfold filler? at found
  rw [units] at found
  split at found
  · obtain ⟨⟨num, length⟩, match_, _⟩ := Option.map_eq_some_iff.mp found
    unfold positional? at match_
    split at match_
    next rest =>
      dsimp only at match_
      split at match_
      · cases match_
      next some_ =>
        cases rest with
        | nil => exact absurd rfl some_
        | cons unit rest =>
          refine ⟨unit, rfl, .inl ⟨rfl, ?_⟩⟩
          by_contra other
          exact some_ (List.takeWhile_cons_of_neg other)
    · cases match_
  · obtain ⟨⟨slice, length⟩, match_, _⟩ := Option.map_eq_some_iff.mp found
    obtain ⟨front, back, rfl, _, isSlice⟩ := of_slice? match_
    cases isSlice <;> exact ⟨0x7B, rfl, .inr (.inl ⟨rfl, rfl⟩)⟩
  · obtain ⟨⟨_, length⟩, match_, _⟩ := Option.map_eq_some_iff.mp found
    rw [literal?] at match_
    split at match_
    next starts =>
      obtain ⟨back, rfl⟩ := List.isPrefixOf_iff_prefix.mp starts
      refine ⟨0x41, ?_, .inr (.inr (.inl ⟨rfl, rfl⟩))⟩
      rw [arguments_eq]
      rfl
    · cases match_
  · obtain ⟨⟨_, length⟩, match_, _⟩ := Option.map_eq_some_iff.mp found
    rw [literal?] at match_
    split at match_
    next starts =>
      obtain ⟨back, rfl⟩ := List.isPrefixOf_iff_prefix.mp starts
      refine ⟨0x40, ?_, .inr (.inr (.inr ⟨rfl, rfl⟩))⟩
      rw [all_eq]
      rfl
    · cases match_
  · cases found

/-- No text begins with placeholders of two kinds. -/
theorem filler?_unique {pass' : ℕ} {hit hit' : List α × ℕ} (found : filler? chars args pass text = some hit)
    (found' : filler? chars args pass' text = some hit') : pass = pass' := by
  obtain ⟨unit, second, kind⟩ := filler?_second found
  obtain ⟨unit', second', kind'⟩ := filler?_second found'
  cases second.symm.trans second'
  have digit : ∀ unit, isDigitUnit unit = true → unit ≠ 0x7B ∧ unit ≠ 0x41 ∧ unit ≠ 0x40 := by
    rintro unit digit
    refine ⟨?_, ?_, ?_⟩ <;> rintro rfl <;> exact absurd digit (by decide)
  rcases kind with ⟨rfl, is⟩ | ⟨rfl, is⟩ | ⟨rfl, is⟩ | ⟨rfl, is⟩ <;>
    rcases kind' with ⟨rfl, is'⟩ | ⟨rfl, is'⟩ | ⟨rfl, is'⟩ | ⟨rfl, is'⟩ <;> grind

private theorem of_fillers? {hit : List α × ℕ} (found : fillers? chars args passes text = some hit) :
    ∃ pass, 1 ≤ pass ∧ pass ≤ passes ∧ filler? chars args pass text = some hit := by
  induction passes with
  | zero => cases found
  | succ passes ih =>
    rw [fillers?] at found
    dsimp only at found
    cases earlier : fillers? chars args passes text with
    | some hit' =>
      rw [earlier] at found
      cases found
      obtain ⟨pass, positive, le, match_⟩ := ih earlier
      exact ⟨pass, positive, le.trans (Nat.le_succ _), match_⟩
    | none =>
      rw [earlier] at found
      exact ⟨passes + 1, Nat.succ_pos _, le_rfl, found⟩

private theorem fillers?_of_filler? {hit : List α × ℕ} (positive : 1 ≤ pass) (le : pass ≤ passes)
    (found : filler? chars args pass text = some hit) : fillers? chars args passes text = some hit := by
  induction passes with
  | zero => omega
  | succ passes ih =>
    rw [fillers?]
    dsimp only
    cases earlier : fillers? chars args passes text with
    | some hit' =>
      obtain ⟨pass', _, _, match_⟩ := of_fillers? earlier
      obtain rfl := filler?_unique found match_
      exact match_.symm.trans found
    | none =>
      rcases Nat.lt_or_ge passes pass with later | sooner
      · obtain rfl : pass = passes + 1 := by omega
        exact found
      · exact absurd (earlier.symm.trans (ih sooner)) nofun

end Fillers

section Marks

variable {args : List JsString} {content : JsString} {pass passes : ℕ} {front rest new : List Marked} {length : ℕ}

theorem unmark_mark (content : JsString) : (mark content).map Marked.unit = content :=
  List.ext_getElem (by simp [mark]) fun _ _ _ => by simp [mark]

private theorem nodup_mark (content : JsString) : (mark content).Nodup := by
  have origins : (mark content).map Marked.origin = (List.range content.length).map .template :=
    List.ext_getElem (by simp [mark]) fun _ _ _ => by simp [mark]
  refine List.Nodup.of_map Marked.origin ?_
  rw [origins]
  exact List.nodup_range.map fun _ _ same => Origin.template.inj same

/-- The index of a character of the template is its place. -/
private theorem origin_mark {c : Marked} (split : mark content = front ++ c :: rest) :
    c.origin = .template front.length := by
  have place : (mark content)[front.length]? = some c := by
    rw [split, List.getElem?_append_right le_rfl, Nat.sub_self]
    rfl
  rw [mark, List.getElem?_mapIdx] at place
  obtain ⟨unit, _, rfl⟩ := Option.map_eq_some_iff.mp place
  rfl

/-- What a placeholder is filled with comes from an argument. -/
private theorem origin_filler? (found : filler? marked args pass rest = some (new, length)) :
    ∀ c ∈ new, c.origin = .argument pass := by
  unfold filler? at found
  split at found
  · obtain ⟨hit, _, same⟩ := Option.map_eq_some_iff.mp found
    cases same
    simp [marked]
  · obtain ⟨hit, _, same⟩ := Option.map_eq_some_iff.mp found
    cases same
    simp [marked]
  · obtain ⟨hit, _, same⟩ := Option.map_eq_some_iff.mp found
    cases same
    simp [marked]
  · obtain ⟨hit, _, same⟩ := Option.map_eq_some_iff.mp found
    cases same
    simp [marked]
  · cases found

private theorem origin_of_mem_mark {c : Marked} (member : c ∈ mark content) : ∃ index, c.origin = .template index := by
  obtain ⟨front, rest, split⟩ := List.append_of_mem member
  exact ⟨_, origin_mark split⟩

private theorem fresh_filler? (found : filler? marked args pass rest = some (new, length)) :
    ∀ c ∈ new, c ∉ mark content := by
  intro c member inside
  obtain ⟨index, origin⟩ := origin_of_mem_mark inside
  cases (origin_filler? found c member).symm.trans origin

private theorem fresh_fillers? (found : fillers? marked args passes rest = some (new, length)) :
    ∀ c ∈ new, c ∉ mark content := by
  obtain ⟨_, _, _, match_⟩ := of_fillers? found
  exact fresh_filler? match_

/-- A further pass fills its own placeholders if it sees no others. -/
theorem filled_succ (later : 1 ≤ passes) (own : OwnPlaceholders content args (passes + 1)) :
    replaceAll (filler? marked args (passes + 1)) (filled marked args passes (mark content)) =
      filled marked args (passes + 1) (mark content) :=
  (fillers?_delimited passes).replaceAll_replaceAll (filler?_delimited _) (filler?_local (by omega)) (nodup_mark _)
    (fun found => fresh_fillers? found) fun split found => own split found

/-- The character is in the template as long as a pass has not come, and stays when only its own placeholders are
filled: it comes from an earlier argument, or it is a dollar sign that begins no placeholder. -/
def Persists (content : JsString) (args : List JsString) (pass : ℕ) (c : Marked) : Bool :=
  match c.origin with
  | .argument earlier => earlier < pass
  | .template index => c.unit = 0x24 && (fillers? marked args 4 ((mark content).drop index)).isNone
  | .copied => false

private theorem persists_argument {c : Marked} {earlier : ℕ} (origin : c.origin = .argument earlier) :
    Persists content args pass c = decide (earlier < pass) := by
  rw [Persists, origin]

private theorem persists_template {c : Marked} (split : mark content = front ++ c :: rest) :
    Persists content args pass c = (c.unit = 0x24 && (fillers? marked args 4 (c :: rest)).isNone) := by
  rw [Persists, origin_mark split]
  dsimp only
  rw [split, List.drop_left]

/-- A character of a filled template is one of the template, or comes from an argument of an earlier pass. -/
private theorem origin_filled {c : Marked} (member : c ∈ filled marked args passes (mark content)) :
    c ∈ mark content ∨ ∃ pass, pass ≤ passes ∧ c.origin = .argument pass := by
  have parts : ∀ text, text <:+: mark content → c ∈ replaceAll (fillers? marked args passes) text →
      c ∈ mark content ∨ ∃ pass, pass ≤ passes ∧ c.origin = .argument pass := by
    intro text
    induction text using (@fillers?_delimited _ marked args passes).scan with
    | nil => exact fun _ => nofun
    | keep c' text none_ ih =>
      intro inside member
      rw [replaceAll_cons none_] at member
      rcases List.mem_cons.mp member with rfl | member
      · exact .inl (inside.subset List.mem_cons_self)
      · exact ih ((List.suffix_cons _ _).isInfix.trans inside) member
    | hit new c' front back found _ _ ih =>
      intro inside member
      rw [replaceAll_of_match (List.cons_ne_nil _ _) found] at member
      rcases List.mem_append.mp member with member | member
      · obtain ⟨pass, _, le, match_⟩ := of_fillers? found
        exact .inr ⟨pass, le, origin_filler? match_ c member⟩
      · exact ih ((List.suffix_append _ _).isInfix.trans inside) member
  exact parts _ (List.infix_refl _) member

/-- A match that is no placeholder of the template holds a character that should stay. -/
private theorem persists_of_foreign (later : 2 ≤ pass) (le : pass ≤ 4)
    (split : filled marked args (pass - 1) (mark content) = front ++ rest)
    (found : filler? marked args pass rest = some (new, length)) (foreign : ¬rest.take length <:+: mark content) :
    ∃ c ∈ rest.take length, Persists content args pass c = true := by
  obtain ⟨c, inner, back, rfl, rfl, dollar, _⟩ := (filler?_delimited pass).cut found
  rw [List.take_left] at foreign ⊢
  by_contra none_
  have gone : ¬Persists content args pass c = true := fun persists => none_ ⟨c, List.mem_cons_self, persists⟩
  have inside : c ∈ mark content := by
    refine (origin_filled (split ▸ List.mem_append_right _ List.mem_cons_self)).resolve_right ?_
    rintro ⟨earlier, le', origin⟩
    rw [persists_argument origin] at gone
    exact gone (decide_eq_true (by omega))
  obtain ⟨pre, more, shape, stays, same⟩ := (fillers?_delimited (pass - 1)).kept
    (fun hit member => fresh_fillers? hit c member inside) split
  rw [persists_template shape] at gone
  obtain ⟨hit, filler⟩ : ∃ hit, fillers? marked args 4 (c :: more) = some hit := by
    refine Option.ne_none_iff_exists'.mp fun absent => gone ?_
    rw [absent, Option.isNone_none, Bool.and_true]
    exact decide_eq_true dollar
  obtain ⟨new', length'⟩ := hit
  obtain ⟨pass', positive, le', match_⟩ := of_fillers? filler
  have late : ¬pass' ≤ pass - 1 := by
    intro early
    rw [fillers?_of_filler? positive early match_] at stays
    cases stays
  obtain ⟨c', inner', back', split', rfl, _, others⟩ := (filler?_delimited pass').cut match_
  obtain ⟨rfl, rfl⟩ : c = c' ∧ more = inner' ++ back' := List.cons.inj split'
  -- the placeholder of the template still stands there
  have rest : inner ++ back = inner' ++ replaceAll (fillers? marked args (pass - 1)) back' :=
    same.trans ((fillers?_delimited _).replaceAll_append others _)
  have again : filler? marked args pass' (c :: inner' ++ replaceAll (fillers? marked args (pass - 1)) back') =
      some (new', (c :: inner').length) := (filler?_local (by omega)).keep match_ _
  rw [List.cons_append, rest] at found
  obtain rfl := filler?_unique found again
  have lengths : (c :: inner).length = (c :: inner').length := by
    have hits := found.symm.trans again
    exact congrArg Prod.snd (Option.some.inj hits)
  obtain ⟨rfl, _⟩ := List.append_inj rest (by simpa using lengths)
  refine foreign ⟨pre, back', ?_⟩
  rw [shape, List.append_assoc, List.cons_append]

/-- Filling further placeholders removes nothing that persists. -/
private theorem countP_filled_succ (le : pass ≤ passes + 1) (last : passes + 1 ≤ 4) :
    (filled marked args (passes + 1) (mark content)).countP (Persists content args pass) =
      (filled marked args passes (mark content)).countP (Persists content args pass) := by
  refine (fillers?_delimited passes).countP_orElse (filler?_delimited _) fun {pre rest new length} split stays found => ?_
  obtain ⟨c, inner, back, rfl, rfl, dollar, others⟩ := (filler?_delimited _).cut found
  have filler : fillers? marked args 4 (c :: (inner ++ back)) = some (new, (c :: inner).length) :=
    fillers?_of_filler? (Nat.succ_pos _) last found
  rw [List.take_left, List.countP_eq_zero, List.countP_eq_zero]
  refine ⟨fun x member => ?_, fun x member => ?_⟩
  · rcases List.mem_cons.mp member with rfl | member
    · rw [List.cons_append] at split
      rw [persists_template split, filler]
      simp
    · obtain ⟨index, origin⟩ := origin_of_mem_mark (split ▸ List.mem_append_right pre
        (List.mem_append_left back (List.mem_cons_of_mem c member)))
      have other : x.unit ≠ 0x24 := others x member
      simp [Persists, origin, other]
  · rw [persists_argument (origin_filler? found x member)]
    simpa using le

private theorem countP_expand (later : 1 ≤ pass) (le : pass ≤ 4) :
    (expand marked args (mark content)).countP (Persists content args pass) =
      (filled marked args (pass - 1) (mark content)).countP (Persists content args pass) := by
  have steps : ∀ n, pass - 1 + n ≤ 4 → (filled marked args (pass - 1 + n) (mark content)).countP
      (Persists content args pass) =
      (filled marked args (pass - 1) (mark content)).countP (Persists content args pass) := by
    intro n
    induction n with
    | zero => exact fun _ => rfl
    | succ n ih =>
      intro last
      rw [← Nat.add_assoc, countP_filled_succ (by omega) (by omega), ih (by omega)]
  have last := steps (4 - (pass - 1)) (by omega)
  rwa [show pass - 1 + (4 - (pass - 1)) = 4 by omega] at last

end Marks

section Passes

variable {args : List JsString} {content needle replacement : JsString} {pass : ℕ}
  {text front rest new before found behind : List Marked} {length : ℕ} {q : Marked → Bool}

/-- Induction along a replacement string, pattern by pattern. -/
private theorem getSubstitution_induction {motive : JsString → Prop} (nil : motive []) (last : ∀ unit, motive [unit])
    (dollars : ∀ first second rest, first = 0x24 ∧ second = 0x24 → motive rest → motive (first :: second :: rest))
    (whole : ∀ first second rest, ¬(first = 0x24 ∧ second = 0x24) → first = 0x24 ∧ second = 0x26 → motive rest →
      motive (first :: second :: rest))
    (before : ∀ first second rest, ¬(first = 0x24 ∧ second = 0x24) → ¬(first = 0x24 ∧ second = 0x26) →
      first = 0x24 ∧ second = 0x60 → motive rest → motive (first :: second :: rest))
    (behind : ∀ first second rest, ¬(first = 0x24 ∧ second = 0x24) → ¬(first = 0x24 ∧ second = 0x26) →
      ¬(first = 0x24 ∧ second = 0x60) → first = 0x24 ∧ second = 0x27 → motive rest → motive (first :: second :: rest))
    (plain : ∀ first second rest, ¬(first = 0x24 ∧ second = 0x24) → ¬(first = 0x24 ∧ second = 0x26) →
      ¬(first = 0x24 ∧ second = 0x60) → ¬(first = 0x24 ∧ second = 0x27) → motive (second :: rest) →
      motive (first :: second :: rest)) (text : JsString) : motive text :=
  getSubstitution.induct motive nil last dollars whole before behind plain text

private theorem getSubstitution_cons {α : Type} (chars : Characters α) (pass : ℕ) (before found behind : List α)
    (first second : CodeUnit) (rest : JsString) : getSubstitution chars pass before found behind (first :: second :: rest) =
    if first = 0x24 ∧ second = 0x24 then chars.inserted pass 0x24 :: getSubstitution chars pass before found behind rest
    else if first = 0x24 ∧ second = 0x26 then found.map chars.copied ++ getSubstitution chars pass before found behind rest
    else if first = 0x24 ∧ second = 0x60 then before.map chars.copied ++ getSubstitution chars pass before found behind rest
    else if first = 0x24 ∧ second = 0x27 then behind.map chars.copied ++ getSubstitution chars pass before found behind rest
    else chars.inserted pass first :: getSubstitution chars pass before found behind (second :: rest) := rfl

/-- What a replacement string stands for is inserted by its pass, or copied. -/
private theorem origin_getSubstitution :
    ∀ c ∈ getSubstitution marked pass before found behind replacement,
      c.origin = .argument pass ∨ c.origin = .copied := by
  have copies : ∀ text : List Marked, ∀ c ∈ text.map marked.copied, c.origin = .copied := by
    intro text c member
    obtain ⟨_, _, rfl⟩ := List.mem_map.mp member
    rfl
  induction replacement using getSubstitution_induction with
  | nil => nofun
  | last unit =>
    intro c member
    obtain rfl := List.mem_singleton.mp member
    exact .inl rfl
  | dollars first second rest dollars ih =>
    rw [getSubstitution_cons, if_pos dollars]
    intro c member
    rcases List.mem_cons.mp member with rfl | member
    · exact .inl rfl
    · exact ih c member
  | whole first second rest _ whole ih =>
    rw [getSubstitution_cons, if_neg ‹_›, if_pos whole]
    intro c member
    exact (List.mem_append.mp member).elim (fun copied => .inr (copies _ c copied)) (ih c)
  | before first second rest _ _ early ih =>
    rw [getSubstitution_cons, if_neg ‹_›, if_neg ‹_›, if_pos early]
    intro c member
    exact (List.mem_append.mp member).elim (fun copied => .inr (copies _ c copied)) (ih c)
  | behind first second rest _ _ _ suffix ih =>
    rw [getSubstitution_cons, if_neg ‹_›, if_neg ‹_›, if_neg ‹_›, if_pos suffix]
    intro c member
    exact (List.mem_append.mp member).elim (fun copied => .inr (copies _ c copied)) (ih c)
  | plain first second rest _ _ _ _ ih =>
    rw [getSubstitution_cons, if_neg ‹_›, if_neg ‹_›, if_neg ‹_›, if_neg ‹_›]
    intro c member
    rcases List.mem_cons.mp member with rfl | member
    · exact .inl rfl
    · exact ih c member

private theorem hasReplacementPattern_cons {first second : CodeUnit} {rest : JsString} :
    HasReplacementPattern (first :: second :: rest) ↔
      IsReplacementPattern first second ∨ HasReplacementPattern (second :: rest) := by
  constructor
  · rintro ⟨dollar, other, pattern, inside⟩
    rcases List.infix_cons_iff.mp inside with starts | later
    · obtain ⟨rfl, more⟩ := List.cons_prefix_cons.mp starts
      obtain ⟨rfl, _⟩ := List.cons_prefix_cons.mp more
      exact .inl pattern
    · exact .inr ⟨dollar, other, pattern, later⟩
  · rintro (pattern | ⟨dollar, other, pattern, inside⟩)
    · exact ⟨first, second, pattern, [], rest, rfl⟩
    · exact ⟨dollar, other, pattern, inside.trans (List.suffix_cons _ _).isInfix⟩

private theorem not_pattern {first second : CodeUnit} (one : ¬(first = 0x24 ∧ second = 0x24))
    (two : ¬(first = 0x24 ∧ second = 0x26)) (three : ¬(first = 0x24 ∧ second = 0x60))
    (four : ¬(first = 0x24 ∧ second = 0x27)) : ¬IsReplacementPattern first second := by
  rintro ⟨dollar, rfl | rfl | rfl | rfl⟩
  · exact one ⟨dollar, rfl⟩
  · exact two ⟨dollar, rfl⟩
  · exact three ⟨dollar, rfl⟩
  · exact four ⟨dollar, rfl⟩

/-- A replacement string without patterns stands for itself. -/
theorem getSubstitution_of_plain {α : Type} (chars : Characters α) (pass : ℕ) (before found behind : List α)
    (plain : ¬HasReplacementPattern replacement) :
    getSubstitution chars pass before found behind replacement = replacement.map (chars.inserted pass) := by
  induction replacement using getSubstitution_induction with
  | nil => rfl
  | last unit => rfl
  | dollars first second rest dollars =>
    exact absurd (hasReplacementPattern_cons.mpr (.inl ⟨dollars.1, .inl dollars.2⟩)) plain
  | whole first second rest _ whole =>
    exact absurd (hasReplacementPattern_cons.mpr (.inl ⟨whole.1, .inr (.inl whole.2)⟩)) plain
  | before first second rest _ _ early =>
    exact absurd (hasReplacementPattern_cons.mpr (.inl ⟨early.1, .inr (.inr (.inl early.2))⟩)) plain
  | behind first second rest _ _ _ late =>
    exact absurd (hasReplacementPattern_cons.mpr (.inl ⟨late.1, .inr (.inr (.inr late.2))⟩)) plain
  | plain first second rest one two three four ih =>
    rw [getSubstitution_cons, if_neg one, if_neg two, if_neg three, if_neg four,
      ih fun later => plain (hasReplacementPattern_cons.mpr (.inr later))]
    rfl

/-- Whether a pass has inserted the character. -/
def IsOf (pass : ℕ) (c : Marked) : Bool := c.origin = .argument pass

private theorem countP_copied (text : List Marked) : (text.map marked.copied).countP (IsOf pass) = 0 := by
  rw [List.countP_eq_zero]
  intro c member
  obtain ⟨_, _, rfl⟩ := List.mem_map.mp member
  simp [IsOf, marked]

private theorem isOf_inserted (unit : CodeUnit) : IsOf pass (marked.inserted pass unit) = true := by
  simp [IsOf, marked]

private theorem countP_inserted (text : JsString) :
    (text.map (marked.inserted pass)).countP (IsOf pass) = text.length := by
  rw [List.countP_map]
  exact List.countP_eq_length.mpr fun unit _ => isOf_inserted unit

/-- A replacement string inserts no more characters than it has, and fewer if it has a pattern. -/
private theorem countP_getSubstitution :
    (getSubstitution marked pass before found behind replacement).countP (IsOf pass) ≤ replacement.length ∧
      (HasReplacementPattern replacement →
        (getSubstitution marked pass before found behind replacement).countP (IsOf pass) < replacement.length) := by
  induction replacement using getSubstitution_induction with
  | nil => exact ⟨le_rfl, fun ⟨_, _, _, inside⟩ => by cases List.infix_nil.mp inside⟩
  | last unit =>
    refine ⟨List.countP_le_length, fun ⟨_, _, _, inside⟩ => ?_⟩
    have length := inside.length_le
    simp at length
  | dollars first second rest dollars ih =>
    rw [getSubstitution_cons, if_pos dollars, List.countP_cons_of_pos (isOf_inserted _)]
    have less := Nat.lt_succ_of_le (Nat.succ_le_succ ih.1)
    exact ⟨less.le, fun _ => less⟩
  | whole first second rest _ whole ih =>
    rw [getSubstitution_cons, if_neg ‹_›, if_pos whole, List.countP_append, countP_copied, Nat.zero_add]
    have less := Nat.lt_succ_of_le (Nat.le_succ_of_le ih.1)
    exact ⟨less.le, fun _ => less⟩
  | before first second rest _ _ early ih =>
    rw [getSubstitution_cons, if_neg ‹_›, if_neg ‹_›, if_pos early, List.countP_append, countP_copied, Nat.zero_add]
    have less := Nat.lt_succ_of_le (Nat.le_succ_of_le ih.1)
    exact ⟨less.le, fun _ => less⟩
  | behind first second rest _ _ _ late ih =>
    rw [getSubstitution_cons, if_neg ‹_›, if_neg ‹_›, if_neg ‹_›, if_pos late, List.countP_append, countP_copied,
      Nat.zero_add]
    have less := Nat.lt_succ_of_le (Nat.le_succ_of_le ih.1)
    exact ⟨less.le, fun _ => less⟩
  | plain first second rest one two three four ih =>
    rw [getSubstitution_cons, if_neg one, if_neg two, if_neg three, if_neg four, List.countP_cons_of_pos (isOf_inserted _)]
    refine ⟨Nat.succ_le_succ ih.1, fun pattern => Nat.succ_lt_succ (ih.2 ?_)⟩
    exact (hasReplacementPattern_cons.mp pattern).resolve_left (not_pattern one two three four)

/-- One of the passes behind the first one. -/
def laterPass (args : List JsString) (pass : ℕ) (text : List Marked) : List Marked :=
  match pass with
  | 2 => slicePass marked args text
  | 3 => literalPass marked 3 (js "$ARGUMENTS") (allArgs args) text
  | 4 => literalPass marked 4 (js "$@") (allArgs args) text
  | _ => text

/-- What the counting arguments need to know of a later pass. -/
private theorem laterPass_shape (later : 2 ≤ pass) (le : pass ≤ 4) :
    ∃ (β : Type) (match? : List Marked → Option (β × ℕ))
      (new' : β → List Marked → List Marked → List Marked → List Marked),
      (∀ text, laterPass args pass text = replaceMatches match? new' [] 0 text) ∧
      Delimited (marked.unit · = (0x24 : CodeUnit)) match? ∧
      (∀ captures before found behind, ∀ c ∈ new' captures before found behind,
        c.origin = .argument pass ∨ c.origin = .copied) ∧
      ∀ {rest new length}, filler? marked args pass rest = some (new, length) →
        ∃ captures, match? rest = some (captures, length) := by
  have hits : ∀ {β γ : Type} {value : β × ℕ → γ} {hit? : Option (β × ℕ)} {new : γ} {length : ℕ},
      hit?.map (fun hit => (value hit, hit.2)) = some (new, length) → ∃ captures, hit? = some (captures, length) := by
    intro β γ value hit? new length found
    obtain ⟨hit, rfl, same⟩ := Option.map_eq_some_iff.mp found
    cases same
    exact ⟨hit.1, rfl⟩
  match pass, later, le with
  | 2, _, _ =>
    refine ⟨_, _, _, fun text => rfl, slice?_delimited.comap, fun slice _ _ _ c member => ?_,
      fun found => hits (show Option.map _ _ = _ from found)⟩
    obtain ⟨unit, _, rfl⟩ := List.mem_map.mp member
    exact .inl rfl
  | 3, _, _ =>
    exact ⟨_, _, _, fun text => rfl, (literal?_delimited arguments_eq arguments_others).comap,
      fun _ _ _ _ => origin_getSubstitution, fun found => hits (show Option.map _ _ = _ from found)⟩
  | 4, _, _ =>
    exact ⟨_, _, _, fun text => rfl, (literal?_delimited all_eq all_others).comap,
      fun _ _ _ _ => origin_getSubstitution, fun found => hits (show Option.map _ _ = _ from found)⟩

private theorem countP_laterPass_le (later : 2 ≤ pass) (le : pass ≤ 4)
    (fresh : ∀ c : Marked, c.origin = .argument pass ∨ c.origin = .copied → q c = false) (text : List Marked) :
    (laterPass args pass text).countP q ≤ text.countP q := by
  obtain ⟨β, match?, new', same, delimited, inserted, _⟩ := @laterPass_shape args pass later le
  rw [same]
  refine delimited.countP_le (fun captures before found behind => ?_) [] text
  rw [List.countP_eq_zero]
  exact fun c member => by simp [fresh c (inserted captures before found behind c member)]

private theorem countP_laterPass_lt (later : 2 ≤ pass) (le : pass ≤ 4)
    (fresh : ∀ c : Marked, c.origin = .argument pass ∨ c.origin = .copied → q c = false)
    (found : filler? marked args pass rest = some (new, length)) (inside : ∃ c ∈ rest.take length, q c = true) :
    (laterPass args pass (front ++ rest)).countP q < (front ++ rest).countP q := by
  obtain ⟨β, match?, new', same, delimited, inserted, hits⟩ := @laterPass_shape args pass later le
  obtain ⟨captures, hit⟩ := hits found
  rw [same]
  refine delimited.countP_lt (fun captures before found behind => ?_) hit inside []
  rw [List.countP_eq_zero]
  exact fun c member => by simp [fresh c (inserted captures before found behind c member)]

private theorem fresh_persists {later : ℕ} (le : pass ≤ later) (c : Marked)
    (origin : c.origin = .argument later ∨ c.origin = .copied) : Persists content args pass c = false := by
  rcases origin with origin | origin
  · rw [persists_argument origin]
    exact decide_eq_false (by omega)
  · rw [Persists, origin]

private theorem fresh_isOf {later : ℕ} (less : pass < later) (c : Marked)
    (origin : c.origin = .argument later ∨ c.origin = .copied) : IsOf pass c = false := by
  rcases origin with origin | origin
  · rw [IsOf, origin]
    refine decide_eq_false fun same => ?_
    cases same
    exact Nat.lt_irrefl _ less
  · simp [IsOf, origin]

/-- If as much persists as should, a pass has seen no placeholders but its own. -/
private theorem own_of_le (later : 2 ≤ pass) (le : pass ≤ 4)
    (persists : (expand marked args (mark content)).countP (Persists content args pass) ≤
      (laterPass args pass (filled marked args (pass - 1) (mark content))).countP (Persists content args pass)) :
    OwnPlaceholders content args pass := by
  intro front rest new length split found
  by_contra foreign
  have less := @countP_laterPass_lt args pass front rest new length _ later le
    (fun c => @fresh_persists args content pass pass le_rfl c) found
    (persists_of_foreign later le split found foreign)
  rw [countP_expand (by omega) le] at persists
  rw [← split] at less
  omega

/-- A placeholder of the template still stands when the earlier kinds have been filled. -/
private theorem still_stands {pre : List Marked} (later : 2 ≤ pass) (split : mark content = pre ++ rest)
    (found : filler? marked args pass rest = some (new, length)) :
    ∃ front rest', filled marked args (pass - 1) (mark content) = front ++ rest' ∧
      filler? marked args pass rest' = some (new, length) := by
  obtain ⟨c, inner, back, rfl, rfl, dollar, others⟩ := (filler?_delimited pass).cut found
  have stays : fillers? marked args (pass - 1) (c :: (inner ++ back)) = none := by
    refine Option.eq_none_iff_forall_not_mem.mpr fun hit filler => ?_
    obtain ⟨earlier, _, le, match_⟩ := of_fillers? filler
    have same := filler?_unique found match_
    omega
  obtain ⟨front, reached⟩ := (@fillers?_delimited _ marked args (pass - 1)).reaches dollar pre (inner ++ back)
  refine ⟨front, (c :: inner) ++ replaceAll (fillers? marked args (pass - 1)) back, ?_,
    (filler?_local later).keep found _⟩
  rw [filled, split, List.cons_append, reached, replaceAll_cons stays, (fillers?_delimited _).replaceAll_append others,
    List.cons_append]

private theorem countP_isOf_filled_succ {passes : ℕ} (le : pass ≤ passes) :
    (filled marked args (passes + 1) (mark content)).countP (IsOf pass) =
      (filled marked args passes (mark content)).countP (IsOf pass) := by
  refine (fillers?_delimited passes).countP_orElse (filler?_delimited _) fun {pre rest new length} split stays found => ?_
  rw [List.countP_eq_zero, List.countP_eq_zero]
  refine ⟨fun x member => ?_, fun x member => ?_⟩
  · obtain ⟨index, origin⟩ := origin_of_mem_mark (split ▸ List.mem_append_right pre (List.mem_of_mem_take member))
    simp [IsOf, origin]
  · simp [IsOf, origin_filler? found x member]
    omega

section Literals

variable (literal : (pass = 3 ∧ needle = js "$ARGUMENTS") ∨ (pass = 4 ∧ needle = js "$@"))

include literal

private theorem filler?_literal (text : List Marked) : filler? marked args pass text =
    (literal? needle (text.map marked.unit)).map fun hit => ((allArgs args).map (marked.inserted pass), hit.2) := by
  rcases literal with ⟨rfl, rfl⟩ | ⟨rfl, rfl⟩ <;> rfl

private theorem laterPass_literal (text : List Marked) :
    laterPass args pass text = literalPass marked pass needle (allArgs args) text := by
  rcases literal with ⟨rfl, rfl⟩ | ⟨rfl, rfl⟩ <;> rfl

private theorem literal_delimited :
    Delimited (marked.unit · = (0x24 : CodeUnit)) fun text => literal? needle (text.map marked.unit) := by
  rcases literal with ⟨rfl, rfl⟩ | ⟨rfl, rfl⟩
  · exact (literal?_delimited arguments_eq arguments_others).comap
  · exact (literal?_delimited all_eq all_others).comap

/-- A pass for a literal text fills the placeholders of the template, if it sees no others and interprets nothing. -/
private theorem laterPass_filled (own : OwnPlaceholders content args pass)
    (plain : needle <:+: content → ¬HasReplacementPattern (allArgs args)) :
    laterPass args pass (filled marked args (pass - 1) (mark content)) = filled marked args pass (mark content) := by
  have two : 2 ≤ pass := by rcases literal with ⟨rfl, _⟩ | ⟨rfl, _⟩ <;> decide
  obtain ⟨passes, rfl⟩ := Nat.exists_eq_add_of_le' (show 1 ≤ pass by omega)
  rw [laterPass_literal literal, ← filled_succ (by omega) own, Nat.add_sub_cancel]
  by_cases pattern : HasReplacementPattern (allArgs args)
  · have absent : ∀ rest, rest <:+ filled marked args passes (mark content) →
        literal? needle (rest.map marked.unit) = none := by
      rintro rest ⟨front, split⟩
      refine Option.eq_none_iff_forall_not_mem.mpr fun hit found => ?_
      obtain ⟨_, length⟩ := hit
      have inside := own split.symm (by rw [filler?_literal literal, Option.mem_def.mp found, Option.map_some])
      have same : (rest.take length).map Marked.unit = needle := by
        have starts := Option.mem_def.mp found
        rw [literal?] at starts
        split at starts
        next starts' =>
          obtain ⟨back, units⟩ := List.isPrefixOf_iff_prefix.mp starts'
          cases starts
          rw [List.map_take, show rest.map Marked.unit = needle ++ back from units.symm, List.take_left]
        · cases starts
      exact plain (by rw [← same, ← unmark_mark content]; exact inside.map _) pattern
    rw [literalPass, replaceMatches_of_none fun c rest suffix => absent _ suffix,
      ← List.append_nil (filled marked args passes (mark content)), JavaScript.replaceAll_append, replaceAll_nil]
    intro c rest suffix
    rw [List.append_nil, filler?_literal literal, absent _ suffix, Option.map_none]
  · have constant : (fun (_ : Unit) before matched behind =>
        getSubstitution marked (passes + 1) before matched behind (allArgs args)) =
        fun _ _ _ _ => (allArgs args).map (marked.inserted (passes + 1)) := by
      funext _ before found behind
      exact getSubstitution_of_plain marked _ before found behind pattern
    rw [literalPass, constant, replaceMatches_eq_replaceAll]
    exact congrArg (replaceAll · _) (funext fun text => (filler?_literal literal text).symm)

/-- If the arguments inserted are as long as they should be, the pass has interpreted nothing. -/
private theorem plain_of_le (own : OwnPlaceholders content args pass)
    (inserted : (expand marked args (mark content)).countP (IsOf pass) ≤
      (laterPass args pass (filled marked args (pass - 1) (mark content))).countP (IsOf pass))
    (occurs : needle <:+: content) : ¬HasReplacementPattern (allArgs args) := by
  intro pattern
  have two : 2 ≤ pass := by rcases literal with ⟨rfl, _⟩ | ⟨rfl, _⟩ <;> decide
  have all : (expand marked args (mark content)).countP (IsOf pass) =
      (filled marked args pass (mark content)).countP (IsOf pass) := by
    rcases literal with ⟨rfl, _⟩ | ⟨rfl, _⟩
    · exact countP_isOf_filled_succ le_rfl
    · rfl
  obtain ⟨pre, post, split⟩ := occurs
  have found : literal? needle (((mark content).drop pre.length).map marked.unit) = some ((), needle.length) := by
    have units : ((mark content).drop pre.length).map Marked.unit = needle ++ post := by
      rw [List.map_drop, unmark_mark, ← split, List.append_assoc, List.drop_left]
    rw [show ((mark content).drop pre.length).map marked.unit = _ from units, literal?,
      if_pos (List.isPrefixOf_iff_prefix.mpr (List.prefix_append ..))]
  obtain ⟨front, rest, stands, again⟩ := @still_stands args content pass ((mark content).drop pre.length) _ _
    ((mark content).take pre.length) two (List.take_append_drop ..).symm (by
      rw [filler?_literal literal, found, Option.map_some])
  rw [filler?_literal literal] at again
  obtain ⟨⟨_, length⟩, hit, _⟩ := Option.map_eq_some_iff.mp again
  have less : (replaceMatches (fun text => literal? needle (text.map marked.unit))
      (fun _ before found behind => getSubstitution marked pass before found behind (allArgs args)) [] 0
      (front ++ rest)).countP (IsOf pass) < (replaceAll (fun text => (literal? needle (text.map marked.unit)).map
        fun hit => ((allArgs args).map (marked.inserted pass), hit.2)) (front ++ rest)).countP (IsOf pass) :=
    (literal_delimited literal).countP_lt_of_new (fun _ _ _ _ =>
      ((countP_getSubstitution).2 pattern).trans_eq (countP_inserted _).symm) hit []
  obtain ⟨passes, rfl⟩ := Nat.exists_eq_add_of_le' (show 1 ≤ pass by omega)
  rw [laterPass_literal literal, literalPass, all, ← filled_succ (by omega) own] at inserted
  rw [Nat.add_sub_cancel] at stands inserted
  rw [← stands] at less
  have fills : replaceAll (filler? marked args (passes + 1)) (filled marked args passes (mark content)) =
      replaceAll (fun text => (literal? needle (text.map marked.unit)).map fun hit =>
        ((allArgs args).map (marked.inserted (passes + 1)), hit.2)) (filled marked args passes (mark content)) :=
    congrArg (replaceAll · _) (funext fun text => filler?_literal literal text)
  rw [fills] at inserted
  exact absurd inserted (Nat.not_le.mpr less)

end Literals

private theorem positionalPass_filled (content : List Marked) :
    positionalPass marked args content = filled marked args 1 content := by
  rw [positionalPass, replaceMatches_eq_replaceAll]
  rfl

private theorem slicePass_filled (own : OwnPlaceholders content args 2) :
    laterPass args 2 (filled marked args 1 (mark content)) = filled marked args 2 (mark content) := by
  rw [← filled_succ le_rfl own, laterPass, slicePass, replaceMatches_eq_replaceAll]
  rfl

/-- On marked characters the function is the four passes. -/
private theorem substituteArgs_marked (args : List JsString) (content : List Marked) :
    substituteArgs marked args content =
      laterPass args 4 (laterPass args 3 (laterPass args 2 (filled marked args 1 content))) := by
  rw [substituteArgs, positionalPass_filled]
  rfl

private theorem unaffected_of_marked
    (same : substituteArgs marked args (mark content) = expand marked args (mark content)) :
    Unaffected content args := by
  rw [substituteArgs_marked] at same
  have drops : ∀ {pass later : ℕ} (text : List Marked), 2 ≤ later → later ≤ 4 → pass ≤ later →
      (laterPass args later text).countP (Persists content args pass) ≤ text.countP (Persists content args pass) :=
    fun text two le earlier => countP_laterPass_le two le (fun c => fresh_persists earlier c) text
  have slices : OwnPlaceholders content args 2 := by
    refine own_of_le le_rfl (by decide) ?_
    rw [← same]
    exact (drops _ (by decide) le_rfl (by decide)).trans (drops _ (by decide) (by decide) (by decide))
  rw [slicePass_filled slices] at same
  have arguments : OwnPlaceholders content args 3 := by
    refine own_of_le (by decide) (by decide) ?_
    rw [← same]
    exact drops _ (by decide) le_rfl (by decide)
  have plain : js "$ARGUMENTS" <:+: content → ¬HasReplacementPattern (allArgs args) := by
    refine plain_of_le (.inl ⟨rfl, rfl⟩) arguments ?_
    rw [← same]
    exact countP_laterPass_le (by decide) le_rfl (fun c => fresh_isOf (by decide) c) _
  rw [show filled marked args 2 (mark content) = filled marked args (3 - 1) (mark content) from rfl,
    laterPass_filled (.inl ⟨rfl, rfl⟩) arguments plain] at same
  have all : OwnPlaceholders content args 4 := by
    refine own_of_le (by decide) le_rfl ?_
    rw [← same]
  refine ⟨slices, arguments, all, fun occurs => occurs.elim plain ?_⟩
  refine plain_of_le (.inr ⟨rfl, rfl⟩) all ?_
  rw [← same]

private theorem marked_of_unaffected (calm : Unaffected content args) :
    substituteArgs marked args (mark content) = expand marked args (mark content) := by
  have third := laterPass_filled (.inl ⟨rfl, rfl⟩) calm.arguments fun occurs => calm.literal (.inl occurs)
  have fourth := laterPass_filled (.inr ⟨rfl, rfl⟩) calm.all fun occurs => calm.literal (.inr occurs)
  rw [substituteArgs_marked, slicePass_filled calm.slices]
  exact (congrArg (laterPass args 4) third).trans fourth

end Passes

section Units

variable {args : List JsString}

private theorem map_plain (text : List Marked) :
    (text.map Marked.unit).map Characters.plain.unit = text.map marked.unit :=
  List.map_id _

private theorem map_inserted (pass : ℕ) (text : JsString) :
    (text.map (marked.inserted pass)).map Marked.unit = text.map (Characters.plain.inserted pass) := by
  rw [List.map_map]
  rfl

private theorem map_getSubstitution (pass : ℕ) (before found behind : List Marked) (replacement : JsString) :
    (getSubstitution marked pass before found behind replacement).map Marked.unit =
      getSubstitution .plain pass (before.map Marked.unit) (found.map Marked.unit) (behind.map Marked.unit)
        replacement := by
  have copies : ∀ text : List Marked, (text.map marked.copied).map Marked.unit =
      (text.map Marked.unit).map Characters.plain.copied := by
    intro text
    rw [List.map_map, List.map_map]
    rfl
  induction replacement using getSubstitution_induction with
  | nil => rfl
  | last unit => rfl
  | dollars first second rest dollars ih =>
    rw [getSubstitution_cons, getSubstitution_cons, if_pos dollars, if_pos dollars, List.map_cons, ih]
    rfl
  | whole first second rest one whole ih =>
    rw [getSubstitution_cons, getSubstitution_cons, if_neg one, if_neg one, if_pos whole, if_pos whole, List.map_append, ih, copies]
  | before first second rest one two early ih =>
    rw [getSubstitution_cons, getSubstitution_cons, if_neg one, if_neg one, if_neg two, if_neg two, if_pos early, if_pos early,
      List.map_append, ih, copies]
  | behind first second rest one two three late ih =>
    rw [getSubstitution_cons, getSubstitution_cons, if_neg one, if_neg one, if_neg two, if_neg two, if_neg three, if_neg three,
      if_pos late, if_pos late, List.map_append, ih, copies]
  | plain first second rest one two three four ih =>
    rw [getSubstitution_cons, getSubstitution_cons, if_neg one, if_neg one, if_neg two, if_neg two, if_neg three, if_neg three,
      if_neg four, if_neg four, List.map_cons, ih]
    rfl

private theorem map_literalPass (pass : ℕ) (needle replacement : JsString) (text : List Marked) :
    (literalPass marked pass needle replacement text).map Marked.unit =
      literalPass .plain pass needle replacement (text.map Marked.unit) := by
  refine map_replaceMatches (fun text => ?_)
    (fun _ before found behind => map_getSubstitution pass before found behind replacement) [] 0 text
  rw [map_plain]

/-- Without their marks the characters are those that the function of the source returns. -/
theorem map_substituteArgs (args : List JsString) (content : List Marked) :
    (substituteArgs marked args content).map Marked.unit = substituteArgs .plain args (content.map Marked.unit) := by
  have first : (positionalPass marked args content).map Marked.unit =
      positionalPass .plain args (content.map Marked.unit) := by
    refine map_replaceMatches (fun text => ?_) (fun _ _ _ _ => map_inserted ..) [] 0 content
    rw [map_plain]
  have second : ∀ text, (slicePass marked args text).map Marked.unit = slicePass .plain args (text.map Marked.unit) := by
    intro text
    refine map_replaceMatches (fun text => ?_) (fun _ _ _ _ => map_inserted ..) [] 0 text
    rw [map_plain]
  rw [substituteArgs, substituteArgs, map_literalPass, map_literalPass, second, first]

private theorem map_filler? (pass : ℕ) (text : List Marked) :
    (filler? marked args pass text).map (fun hit => (hit.1.map Marked.unit, hit.2)) =
      filler? .plain args pass (text.map Marked.unit) := by
  unfold filler?
  rw [map_plain]
  split
  · rw [Option.map_map]
    exact congrArg (Option.map · _) (funext fun hit => Prod.ext (map_inserted ..) rfl)
  · rw [Option.map_map]
    exact congrArg (Option.map · _) (funext fun hit => Prod.ext (map_inserted ..) rfl)
  · rw [Option.map_map]
    exact congrArg (Option.map · _) (funext fun hit => Prod.ext (map_inserted ..) rfl)
  · rw [Option.map_map]
    exact congrArg (Option.map · _) (funext fun hit => Prod.ext (map_inserted ..) rfl)
  · rfl

private theorem map_fillers? (passes : ℕ) (text : List Marked) :
    (fillers? marked args passes text).map (fun hit => (hit.1.map Marked.unit, hit.2)) =
      fillers? .plain args passes (text.map Marked.unit) := by
  induction passes with
  | zero => rfl
  | succ passes ih =>
    rw [fillers?, fillers?]
    dsimp only
    rw [← ih, ← map_filler?]
    cases fillers? marked args passes text <;> rfl

end Units

/-- Arguments are inserted literally and once exactly if nothing that they bring along looks like a placeholder of a later
kind or like a replacement pattern. -/
theorem inserted_verbatim_iff (content : JsString) (args : List JsString) :
    InsertedVerbatim content args ↔ Unaffected content args := by
  refine ⟨fun verbatim => unaffected_of_marked verbatim.marked, fun calm => ?_⟩
  have same := marked_of_unaffected calm
  refine ⟨?_, same⟩
  have units := congrArg (List.map Marked.unit) same
  rwa [map_substituteArgs, expand, filled, map_replaceAll (map_fillers? 4), unmark_mark] at units

/-- The placeholder for all arguments that the first argument holds is filled. -/
theorem argument_is_rescanned : ¬InsertedVerbatim (js "$1") [js "$@", js "x"] := by
  intro verbatim
  have plain := verbatim.plain
  revert plain
  decide

end PieAgent.Soundness.TemplateArguments
