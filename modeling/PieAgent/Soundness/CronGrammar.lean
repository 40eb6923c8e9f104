import Mathlib.Data.Finset.Max
import Mathlib.Data.Set.Basic
import PieAgent.JavaScript.Core.Strings
import PieAgent.Model.Triggers.CronExpression

/-! # The language of cron expressions

The grammar says which texts are expressions and which values each part denotes: an item is a star, a value or a
range, perhaps with a step, a field is a list of items, an expression five fields between white space. The parser
accepts exactly these texts, and the minutes that its result matches are those that the grammar denotes.
-/

namespace PieAgent.Soundness.CronGrammar

open JavaScript Model

section Grammar

/-- Decimal digits, perhaps behind a plus sign, and the number they denote. -/
def Numeral (text : JsString) (value : ℕ) : Prop :=
  ∃ figures, (text = figures ∨ text = js "+" ++ figures) ∧ figures ≠ [] ∧ (∀ unit ∈ figures, isDecimal unit = true) ∧
    value = figures.foldl (fun value unit => 10 * value + (unit.toNat - 0x30)) 0

/-- The first and the last value of a star, a value or a range. -/
inductive Range (min max : ℕ) : JsString → ℕ → ℕ → Prop
  | star : Range min max (js "*") min max
  | value {text : JsString} {n : ℕ} (numeral : Numeral text n) (lower : min ≤ n) (upper : n ≤ max) :
      Range min max text n n
  | span {first last : JsString} {a b : ℕ} (start : Numeral first a) (stop : Numeral last b) (lower : min ≤ a)
      (order : a ≤ b) (upper : b ≤ max) : Range min max (first ++ js "-" ++ last) a b

/-- The values of a range, or of those every so many. -/
inductive Item (min max : ℕ) : JsString → Set ℕ → Prop
  | whole {text : JsString} {a b : ℕ} (range : Range min max text a b) : Item min max text {n | a ≤ n ∧ n ≤ b}
  | stepped {text stepText : JsString} {a b step : ℕ} (range : Range min max text a b) (numeral : Numeral stepText step)
      (positive : 0 < step) : Item min max (text ++ js "/" ++ stepText) {n | a ≤ n ∧ n ≤ b ∧ step ∣ n - a}

/-- The values of a list of items. -/
inductive Field (min max : ℕ) : JsString → Set ℕ → Prop
  | item {text : JsString} {values : Set ℕ} (item : Item min max text values) : Field min max text values
  | list {text rest : JsString} {values others : Set ℕ} (item : Item min max text values)
      (list : Field min max rest others) : Field min max (text ++ js "," ++ rest) (values ∪ others)

def White (unit : CodeUnit) : Prop := isWhitespace unit.toNat = true

/-- The words of a text that white space separates. -/
inductive Words : JsString → List JsString → Prop
  | nil {blank : JsString} (white : ∀ unit ∈ blank, White unit) : Words blank []
  | cons {blank word rest : JsString} {words : List JsString} (white : ∀ unit ∈ blank, White unit) (some : word ≠ [])
      (solid : ∀ unit ∈ word, ¬ White unit) (apart : ∀ unit ∈ rest.head?, White unit) (behind : Words rest words) :
      Words (blank ++ word ++ rest) (word :: words)

/-- The values that the five fields denote. -/
structure Schedule where
  minutes : Set ℕ
  hours : Set ℕ
  daysOfMonth : Set ℕ
  months : Set ℕ
  daysOfWeek : Set ℕ

/-- An expression and the values of its fields. -/
inductive Denotes : JsString → Schedule → Prop
  | fields {input minute hour dayOfMonth month dayOfWeek : JsString} {schedule : Schedule}
      (words : Words input [minute, hour, dayOfMonth, month, dayOfWeek]) (minutes : Field 0 59 minute schedule.minutes)
      (hours : Field 0 23 hour schedule.hours) (daysOfMonth : Field 1 31 dayOfMonth schedule.daysOfMonth)
      (months : Field 1 12 month schedule.months) (daysOfWeek : Field 0 7 dayOfWeek schedule.daysOfWeek) :
      Denotes input schedule

/-- The minutes of local time that a schedule denotes: every field admits its part, where Sunday is 0 and 7. -/
def Schedule.Admits (schedule : Schedule) (zone : TimeZone) (time : ℤ) : Prop :=
  (zone.getMinutes time).toNat ∈ schedule.minutes ∧ (zone.getHours time).toNat ∈ schedule.hours ∧
    (zone.getDate time).toNat ∈ schedule.daysOfMonth ∧ (zone.getMonthOfYear time).toNat ∈ schedule.months ∧
    ((zone.getDay time).toNat ∈ schedule.daysOfWeek ∨ (zone.getDay time).toNat = 0 ∧ 7 ∈ schedule.daysOfWeek)

end Grammar

variable {min max a b value step : ℕ} {field text part range : JsString} {values : Set ℕ} {set : Finset ℕ}

section Items

theorem unsigned?_eq_some : unsigned? text = some value ↔ Numeral text value := by
  simp only [unsigned?, Option.ite_none_right_eq_some, Option.some.injEq, Numeral, List.all_eq_true]
  constructor
  · rintro ⟨⟨some, all⟩, rfl⟩
    refine ⟨_, ?_, some, all, rfl⟩
    split_ifs with plus
    · obtain ⟨rest, rfl⟩ := List.head?_eq_some_iff.mp plus
      exact .inr rfl
    · exact .inl rfl
  · rintro ⟨figures, shape, some, all, rfl⟩
    have same : (if text.head? = Option.some 0x2B then text.tail else text) = figures := by
      rcases shape with rfl | rfl
      · refine if_neg fun plus => ?_
        obtain ⟨rest, rfl⟩ := List.head?_eq_some_iff.mp plus
        exact absurd (all _ List.mem_cons_self) (by decide)
      · rfl
    rw [same]
    exact ⟨⟨some, all⟩, rfl⟩

private theorem bind_ok {ε α β : Type} {action : Except ε α} {next : α → Except ε β} {result : β}
    (done : (action >>= next) = .ok result) : ∃ value, action = .ok value ∧ next value = .ok result := by
  cases action with
  | error => cases done
  | ok value => exact ⟨value, rfl, done⟩

private theorem parseNumber_eq_ok : parseNumber field text min max = .ok value ↔
    Numeral text value ∧ min ≤ value ∧ value ≤ max := by
  unfold parseNumber
  rw [← unsigned?_eq_some]
  cases unsigned? text with
  | none => simp
  | some other =>
    dsimp only
    split_ifs with outside
    · simp only [Option.some.injEq, false_iff, not_and, not_le]
      rintro rfl
      omega
    · simp only [Except.ok.injEq, Option.some.injEq]
      constructor
      · rintro rfl
        omega
      · exact And.left

/-- The only units of a numeral are digits and a plus sign. -/
private theorem Numeral.notMem (numeral : Numeral text value) {unit : CodeUnit} (digit : isDecimal unit = false)
    (plus : unit ≠ 0x2B) : unit ∉ text := by
  obtain ⟨figures, shape, _, all, _⟩ := numeral
  have absent : unit ∉ figures := fun member => by simp [all unit member] at digit
  rcases shape with rfl | rfl
  · exact absent
  · exact fun member => (List.mem_cons.mp member).elim plus absent

/-- A text is cut at the first occurrence of a unit. -/
private theorem cut_eq (unit : CodeUnit) {front : JsString} (back : JsString) (absent : unit ∉ front) :
    (front ++ unit :: back).takeWhile (· ≠ unit) = front ∧
      ((front ++ unit :: back).dropWhile (· ≠ unit)).tail = back := by
  have all : ∀ other ∈ front, decide (other ≠ unit) = true := fun other member =>
    decide_eq_true fun same => absent (same ▸ member)
  rw [List.takeWhile_append_of_pos all, List.dropWhile_append_of_pos all]
  simp

private theorem parseRange_eq_ok (ordered : min ≤ max) :
    (parseRange field part min max = .ok (a, b) ∧ a ≤ b) ↔ Range min max part a b := by
  constructor
  · rintro ⟨parsed, order⟩
    unfold parseRange at parsed
    split_ifs at parsed with star dash
    · cases parsed
      exact star ▸ .star
    · obtain ⟨front, back, rfl, absent⟩ := List.eq_append_cons_of_mem dash
      obtain ⟨first, last⟩ := cut_eq 0x2D back absent
      rw [first, last] at parsed
      obtain ⟨start, startParsed, parsed⟩ := bind_ok parsed
      obtain ⟨stop, stopParsed, parsed⟩ := bind_ok parsed
      cases parsed
      obtain ⟨startNumeral, lower, _⟩ := (parseNumber_eq_ok).mp startParsed
      obtain ⟨stopNumeral, _, upper⟩ := (parseNumber_eq_ok).mp stopParsed
      have range : Range min max (front ++ js "-" ++ back) a b := .span startNumeral stopNumeral lower order upper
      rwa [List.append_assoc] at range
    · obtain ⟨value, valueParsed, parsed⟩ := bind_ok parsed
      cases parsed
      obtain ⟨numeral, lower, upper⟩ := (parseNumber_eq_ok).mp valueParsed
      exact .value numeral lower upper
  · intro range
    unfold parseRange
    cases range with
    | star => exact ⟨if_pos rfl, ordered⟩
    | value numeral lower upper =>
      have noStar : 0x2A ∉ part := numeral.notMem (by decide) (by decide)
      have star : part ≠ js "*" := fun same => noStar (by rw [same]; decide)
      rw [if_neg star, if_neg (numeral.notMem (by decide) (by decide)), (parseNumber_eq_ok).mpr ⟨numeral, lower, upper⟩]
      exact ⟨rfl, le_rfl⟩
    | @span first last _ _ start stop lower order upper =>
      have star : first ++ js "-" ++ last ≠ js "*" := fun same => by
        have member : (0x2D : CodeUnit) ∈ js "*" := by
          rw [← same]
          exact List.mem_append_left _ (List.mem_append_right _ (by decide))
        exact absurd member (by decide)
      have shape : first ++ js "-" ++ last = first ++ 0x2D :: last := List.append_assoc ..
      obtain ⟨front, back⟩ := cut_eq 0x2D last (start.notMem (by decide) (by decide))
      rw [if_neg star, shape, if_pos (by simp), front, back,
        (parseNumber_eq_ok).mpr ⟨start, lower, order.trans upper⟩, (parseNumber_eq_ok).mpr ⟨stop, lower.trans order, upper⟩]
      exact ⟨rfl, order⟩

/-- A range has no slash. -/
private theorem Range.notMem (range : Range min max part a b) : 0x2F ∉ part := by
  cases range with
  | star => decide
  | value numeral => exact numeral.notMem (by decide) (by decide)
  | span start stop =>
    simp only [List.mem_append, not_or]
    exact ⟨⟨start.notMem (by decide) (by decide), by decide⟩, stop.notMem (by decide) (by decide)⟩

private theorem splitStep_eq_ok : splitStep field part = .ok (range, step) ↔
    (0x2F ∉ part ∧ range = part ∧ step = 1) ∨
      ∃ stepText, part = range ++ js "/" ++ stepText ∧ 0x2F ∉ range ∧ Numeral stepText step ∧ 0 < step := by
  unfold splitStep
  by_cases slash : 0x2F ∈ part
  · obtain ⟨front, back, rfl, absent⟩ := List.eq_append_cons_of_mem slash
    obtain ⟨first, last⟩ := cut_eq 0x2F back absent
    rw [if_pos slash, first, last]
    constructor
    · intro parsed
      split at parsed
      · cases parsed
      · cases parsed
      · next number found positive =>
        cases parsed
        exact .inr ⟨back, by simp [js, ofText, utf16], absent, (unsigned?_eq_some).mp positive,
          Nat.pos_of_ne_zero found⟩
    · rintro (⟨missing, _⟩ | ⟨stepText, same, other, numeral, positive⟩)
      · exact absurd slash missing
      · have shape : range ++ js "/" ++ stepText = range ++ 0x2F :: stepText := List.append_assoc ..
        rw [shape] at same
        obtain ⟨front', back'⟩ := cut_eq 0x2F stepText other
        rw [← same, first] at front'
        rw [← same, last] at back'
        subst front' back'
        rw [(unsigned?_eq_some).mpr numeral]
        cases step with
        | zero => cases positive
        | succ step => rfl
  · rw [if_neg slash]
    constructor
    · intro parsed
      cases parsed
      exact .inl ⟨slash, rfl, rfl⟩
    · rintro (⟨_, rfl, rfl⟩ | ⟨stepText, rfl, _⟩)
      · rfl
      · exact absurd (by simp [js, ofText, utf16]) slash

/-- The values that a loop with a step goes through. -/
private theorem coe_values (order : a ≤ b) (positive : 0 < step) :
    ((((List.range ((b - a) / step + 1)).map fun k => a + k * step).toFinset : Finset ℕ) : Set ℕ) =
      {n | a ≤ n ∧ n ≤ b ∧ step ∣ n - a} := by
  ext n
  simp only [List.coe_toFinset, List.mem_map, List.mem_range, Set.mem_ofPred_eq]
  constructor
  · rintro ⟨k, bound, rfl⟩
    have inside : k * step ≤ b - a := (Nat.le_div_iff_mul_le positive).mp (Nat.le_of_lt_succ bound)
    refine ⟨Nat.le_add_right _ _, by omega, ?_⟩
    rw [Nat.add_sub_cancel_left]
    exact Nat.dvd_mul_left step k
  · rintro ⟨lower, upper, k, same⟩
    refine ⟨k, Nat.lt_succ_of_le ((Nat.le_div_iff_mul_le positive).mpr ?_), ?_⟩
    · rw [Nat.mul_comm, ← same]
      omega
    · rw [Nat.mul_comm, ← same]
      omega

/-- A range that is not split into steps has every value. -/
private theorem every_value : {n | a ≤ n ∧ n ≤ b ∧ 1 ∣ n - a} = {n | a ≤ n ∧ n ≤ b} := by
  ext n
  simp

private theorem item_of_parts (order : min ≤ max) (parsed : parseItem field part min max = .ok set) :
    Item min max part (set : Set ℕ) := by
  unfold parseItem at parsed
  dsimp only at parsed
  split at parsed
  · cases parsed
  obtain ⟨⟨rangePart, step⟩, split_, parsed⟩ := bind_ok parsed
  dsimp only at parsed
  obtain ⟨⟨start, last⟩, ranged, parsed⟩ := bind_ok parsed
  dsimp only at parsed
  split at parsed
  · cases parsed
  next ordered =>
  have inOrder : start ≤ last := Nat.not_lt.mp ordered
  cases parsed
  have range := (parseRange_eq_ok order).mp ⟨ranged, inOrder⟩
  rcases (splitStep_eq_ok).mp split_ with ⟨_, rfl, rfl⟩ | ⟨stepText, rfl, _, numeral, positive⟩
  · rw [coe_values inOrder Nat.one_pos, every_value]
    exact .whole range
  · rw [coe_values inOrder positive]
    exact .stepped range numeral positive

private theorem Range.ne_nil (range : Range min max part a b) : part ≠ [] := by
  cases range with
  | star => decide
  | value numeral =>
    obtain ⟨figures, rfl | rfl, some, _⟩ := numeral
    · exact some
    · exact List.cons_ne_nil _ _
  | span => exact List.append_ne_nil_of_left_ne_nil (List.append_ne_nil_of_right_ne_nil _ (by decide)) _

private theorem parts_of_item (order : min ≤ max) (item : Item min max part values) :
    ∃ set, parseItem field part min max = .ok set ∧ (set : Set ℕ) = values := by
  cases item with
  | @whole _ a b range =>
    obtain ⟨ranged, inOrder⟩ := (@parseRange_eq_ok _ _ _ _ field _ order).mpr range
    refine ⟨((List.range ((b - a) / 1 + 1)).map fun k => a + k * 1).toFinset, ?_, ?_⟩
    · rw [parseItem, if_neg range.ne_nil, (splitStep_eq_ok).mpr (.inl ⟨range.notMem, rfl, rfl⟩)]
      simp only [pure, bind, Except.pure, Except.bind, ranged, if_neg (Nat.not_lt.mpr inOrder)]
    · rw [coe_values inOrder Nat.one_pos, every_value]
  | @stepped text stepText a b step range numeral positive =>
    obtain ⟨ranged, inOrder⟩ := (@parseRange_eq_ok _ _ _ _ field _ order).mpr range
    refine ⟨((List.range ((b - a) / step + 1)).map fun k => a + k * step).toFinset, ?_, coe_values inOrder positive⟩
    rw [parseItem, if_neg (by simp [range.ne_nil]),
      (splitStep_eq_ok).mpr (.inr ⟨stepText, rfl, range.notMem, numeral, positive⟩)]
    simp only [pure, bind, Except.pure, Except.bind, ranged, if_neg (Nat.not_lt.mpr inOrder)]

end Items

section Fields

private theorem trim_of_solid (solid : ∀ unit ∈ text, ¬ White unit) : trim text = text := by
  have none {front : JsString} (solid : ∀ unit ∈ front, ¬ White unit) :
      front.dropWhile (fun unit => isWhitespace unit.toNat) = front := by
    cases front with
    | nil => rfl
    | cons unit rest => exact List.dropWhile_cons_of_neg (solid unit List.mem_cons_self)
  rw [trim, none solid, List.rdropWhile, none fun unit member => solid unit (List.mem_reverse.mp member),
    List.reverse_reverse]

private theorem Item.notMem (item : Item min max part values) : 0x2C ∉ part := by
  have absent {text : JsString} {a b : ℕ} (range : Range min max text a b) : 0x2C ∉ text := by
    cases range with
    | star => decide
    | value numeral => exact numeral.notMem (by decide) (by decide)
    | span start stop =>
      simp only [List.mem_append, not_or]
      exact ⟨⟨start.notMem (by decide) (by decide), by decide⟩, stop.notMem (by decide) (by decide)⟩
  cases item with
  | whole range => exact absent range
  | stepped range numeral =>
    simp only [List.mem_append, not_or]
    exact ⟨⟨absent range, by decide⟩, numeral.notMem (by decide) (by decide)⟩

/-- The loop over the items, from the values found so far. -/
private def parseItems (field : JsString) (min max : ℕ) (out : Finset ℕ) (parts : List JsString) :
    Except CronScheduleError (Finset ℕ) :=
  parts.foldlM (fun out rawPart => (parseItem field (trim rawPart) min max).map (out ∪ ·)) out

private theorem parseItems_cons {out : Finset ℕ} {parts : List JsString} (solid : ∀ unit ∈ part, ¬ White unit) :
    parseItems field min max out (part :: parts) =
      ((parseItem field part min max).map (out ∪ ·)).bind fun next => parseItems field min max next parts := by
  rw [parseItems, List.foldlM_cons, trim_of_solid solid]
  rfl

private theorem field_of_items (order : min ≤ max) {out : Finset ℕ} {parts : List JsString} (some : parts ≠ [])
    (solid : ∀ part ∈ parts, ∀ unit ∈ part, ¬ White unit) (parsed : parseItems field min max out parts = .ok set) :
    ∃ values, Field min max (join (js ",") parts) values ∧ (set : Set ℕ) = (out : Set ℕ) ∪ values := by
  induction parts generalizing out with
  | nil => exact absurd rfl some
  | cons part parts ih =>
    obtain ⟨first, rest⟩ := List.forall_mem_cons.mp solid
    rw [parseItems_cons first] at parsed
    obtain ⟨next, found, parsed⟩ := bind_ok parsed
    cases item : parseItem field part min max with
    | error => simp [item, Except.map] at found
    | ok values =>
      rw [item] at found
      cases found
      have first := item_of_parts order item
      cases parts with
      | nil =>
        cases parsed
        exact ⟨values, .item (by simpa [join] using first), Finset.coe_union _ _⟩
      | cons second parts =>
        obtain ⟨others, list, same⟩ := ih (List.cons_ne_nil _ _) rest parsed
        refine ⟨values ∪ others, ?_, by rw [same, Finset.coe_union, Set.union_assoc]⟩
        have joined : join (js ",") (part :: second :: parts) = part ++ js "," ++ join (js ",") (second :: parts) := by
          simp [join]
        rw [joined]
        exact .list first list

private theorem items_of_field (order : min ≤ max) (denotes : Field min max text values)
    (solid : ∀ unit ∈ text, ¬ White unit) (out : Finset ℕ) :
    ∃ set, parseItems field min max out (text.splitOn 0x2C) = .ok set ∧
      (set : Set ℕ) = (out : Set ℕ) ∪ values := by
  induction denotes generalizing out with
  | @item text values item =>
    obtain ⟨set, parsed, rfl⟩ := @parts_of_item min max field text values order item
    rw [List.splitOn_eq_singleton item.notMem, parseItems_cons solid, parsed]
    exact ⟨out ∪ set, rfl, Finset.coe_union _ _⟩
  | @list text rest values others item _ ih =>
    have shape : text ++ js "," ++ rest = text ++ 0x2C :: rest := List.append_assoc ..
    rw [shape] at solid ⊢
    obtain ⟨set, parsed, rfl⟩ := @parts_of_item min max field text values order item
    obtain ⟨whole, rest, same⟩ := ih (fun unit member => solid unit (by simp [member])) (out ∪ set)
    rw [List.splitOn_append_cons_self_of_not_mem item.notMem,
      parseItems_cons fun unit member => solid unit (List.mem_append_left _ member), parsed]
    exact ⟨whole, rest, by rw [same, Finset.coe_union, Set.union_assoc]⟩

private theorem mem_intercalate {unit separator : CodeUnit} {parts : List JsString} (member : part ∈ parts)
    (inside : unit ∈ part) : unit ∈ [separator].intercalate parts := by
  induction parts with
  | nil => cases member
  | cons first parts ih =>
    cases parts with
    | nil =>
      obtain rfl := List.mem_singleton.mp member
      simpa using inside
    | cons second parts =>
      rw [List.intercalate_cons_cons]
      rcases List.mem_cons.mp member with rfl | later
      · simp [inside]
      · exact List.mem_append_right _ (ih later)

private theorem field_of_parse (order : min ≤ max) (solid : ∀ unit ∈ field, ¬ White unit)
    (parsed : parseField field min max = .ok set) : Field min max field (set : Set ℕ) := by
  have pieces : ∀ part ∈ field.splitOn 0x2C, ∀ unit ∈ part, ¬ White unit := by
    intro part member unit inside
    apply solid
    rw [← @List.intercalate_splitOn _ field _ _ 0x2C]
    exact mem_intercalate member inside
  obtain ⟨values, denotes, same⟩ := field_of_items order (List.splitOn_ne_nil _ _) pieces parsed
  rw [join, show js "," = [0x2C] from rfl, List.intercalate_splitOn] at denotes
  rwa [same, Finset.coe_empty, Set.empty_union]

private theorem parse_of_field (order : min ≤ max) (solid : ∀ unit ∈ field, ¬ White unit)
    (denotes : Field min max field values) : ∃ set, parseField field min max = .ok set ∧ (set : Set ℕ) = values := by
  obtain ⟨set, parsed, same⟩ := @items_of_field min max field field values order denotes solid ∅
  exact ⟨set, parsed, by rw [same, Finset.coe_empty, Set.empty_union]⟩

end Fields

section Expressions

variable {input word rest : JsString} {words : List JsString} {expr : CronExpression} {schedule : Schedule}

private theorem fieldsOf_white {unit : CodeUnit} (white : White unit) : fieldsOf (unit :: rest) = fieldsOf rest := by
  have white : isWhitespace unit.toNat = true := white
  rw [fieldsOf, List.splitOnP_cons_eq_if_modifyHead, if_pos white, List.filter_cons_of_neg (by simp)]
  rfl

private theorem fieldsOf_blank {blank : JsString} (white : ∀ unit ∈ blank, White unit) :
    fieldsOf (blank ++ rest) = fieldsOf rest := by
  induction blank with
  | nil => rfl
  | cons unit blank ih =>
    obtain ⟨first, others⟩ := List.forall_mem_cons.mp white
    rw [List.cons_append, fieldsOf_white first, ih others]

private theorem fieldsOf_word (some : word ≠ []) (solid : ∀ unit ∈ word, ¬ White unit)
    (apart : ∀ unit ∈ rest.head?, White unit) : fieldsOf (word ++ rest) = word :: fieldsOf rest := by
  have none : ∀ unit ∈ word, isWhitespace unit.toNat = false := fun unit member => by
    simpa [White] using solid unit member
  cases rest with
  | nil =>
    rw [List.append_nil, fieldsOf, List.splitOnP_eq_singleton none, List.filter_cons_of_pos (by simpa using some)]
    rfl
  | cons unit rest =>
    have white := apart unit rfl
    rw [fieldsOf_white white, fieldsOf, List.splitOnP_append_cons_of_forall_mem none _ white,
      List.filter_cons_of_pos (by simpa using some)]
    rfl

private theorem Words.fieldsOf_eq (split : Words input words) : fieldsOf input = words := by
  induction split with
  | @nil blank white =>
    rw [← List.append_nil blank, fieldsOf_blank white]
    rfl
  | cons white some solid apart _ ih => rw [List.append_assoc, fieldsOf_blank white, fieldsOf_word some solid apart, ih]

private theorem Words.solid (split : Words input words) : ∀ word ∈ words, ∀ unit ∈ word, ¬ White unit := by
  induction split with
  | nil => nofun
  | cons _ _ solid _ _ ih => exact List.forall_mem_cons.mpr ⟨solid, ih⟩

private theorem Words.blank {unit : CodeUnit} (white : White unit) (split : Words rest words) :
    Words (unit :: rest) words := by
  cases split with
  | nil all => exact .nil (List.forall_mem_cons.mpr ⟨white, all⟩)
  | cons all some solid apart behind => exact .cons (List.forall_mem_cons.mpr ⟨white, all⟩) some solid apart behind

/-- A unit that is not white begins the first word, or is a word of its own. -/
private theorem Words.solid_cons {unit : CodeUnit} (solid : ¬ White unit) (split : Words rest words) :
    ∃ words, Words (unit :: rest) words := by
  by_cases apart : ∀ next ∈ rest.head?, White next
  · exact ⟨_, @Words.cons [] [unit] rest words nofun (List.cons_ne_nil _ _) (by simpa using solid) apart split⟩
  · push Not at apart
    obtain ⟨next, leads, dark⟩ := apart
    obtain ⟨behind, rfl⟩ := List.head?_eq_some_iff.mp leads
    generalize whole : next :: behind = text at split
    cases split with
    | nil all => exact absurd (all next (whole ▸ List.mem_cons_self)) dark
    | @cons blank word rest words white some inner apart later =>
      cases blank with
      | nil =>
        exact ⟨_, @Words.cons [] (unit :: word) rest words nofun (List.cons_ne_nil _ _)
          (List.forall_mem_cons.mpr ⟨solid, inner⟩) apart later⟩
      | cons first blank =>
        cases whole
        exact absurd (white _ List.mem_cons_self) dark

/-- Every text has words. -/
private theorem exists_words (input : JsString) : ∃ words, Words input words := by
  induction input with
  | nil => exact ⟨[], .nil nofun⟩
  | cons unit rest ih =>
    obtain ⟨words, split⟩ := ih
    by_cases white : White unit
    · exact ⟨words, split.blank white⟩
    · exact split.solid_cons white

private theorem words_fieldsOf (input : JsString) : Words input (fieldsOf input) := by
  obtain ⟨words, split⟩ := exists_words input
  rwa [split.fieldsOf_eq]

/-- What the fields of a result hold. -/
private structure Holds (expr : CronExpression) (schedule : Schedule) : Prop where
  minutes : (expr.minutes : Set ℕ) = schedule.minutes
  hours : (expr.hours : Set ℕ) = schedule.hours
  daysOfMonth : (expr.daysOfMonth : Set ℕ) = schedule.daysOfMonth
  months : (expr.months : Set ℕ) = schedule.months
  daysOfWeek : ∃ set : Finset ℕ, (set : Set ℕ) = schedule.daysOfWeek ∧
    expr.daysOfWeek = if 7 ∈ set then insert 0 (set.erase 7) else set

private theorem denotes_of_parse (parsed : parseCronExpression input = .ok expr) :
    ∃ schedule, Denotes input schedule := by
  have split := words_fieldsOf input
  unfold parseCronExpression at parsed
  split at parsed
  · next minute hour dayOfMonth month dayOfWeek shape =>
    rw [shape] at split
    have solid := split.solid
    simp only [List.forall_mem_cons, List.not_mem_nil, false_imp_iff, implies_true, and_true] at solid
    obtain ⟨minuteSolid, hourSolid, daySolid, monthSolid, weekSolid⟩ := solid
    obtain ⟨minutes, minutesParsed, parsed⟩ := bind_ok parsed
    obtain ⟨hours, hoursParsed, parsed⟩ := bind_ok parsed
    obtain ⟨daysOfMonth, daysParsed, parsed⟩ := bind_ok parsed
    obtain ⟨months, monthsParsed, parsed⟩ := bind_ok parsed
    obtain ⟨daysOfWeek, weekParsed, parsed⟩ := bind_ok parsed
    unfold parseDayOfWeek at weekParsed
    cases week : parseField dayOfWeek 0 7 with
    | error => simp [week, Except.map] at weekParsed
    | ok set =>
      exact ⟨⟨minutes, hours, daysOfMonth, months, set⟩, .fields split
        (field_of_parse (by decide) minuteSolid minutesParsed) (field_of_parse (by decide) hourSolid hoursParsed)
        (field_of_parse (by decide) daySolid daysParsed) (field_of_parse (by decide) monthSolid monthsParsed)
        (field_of_parse (by decide) weekSolid week)⟩
  · cases parsed

private theorem parse_of_denotes (denotes : Denotes input schedule) :
    ∃ expr, parseCronExpression input = .ok expr ∧ Holds expr schedule := by
  obtain ⟨split, minutes, hours, daysOfMonth, months, daysOfWeek⟩ := denotes
  have solid := split.solid
  simp only [List.forall_mem_cons, List.not_mem_nil, false_imp_iff, implies_true, and_true] at solid
  obtain ⟨minuteSolid, hourSolid, daySolid, monthSolid, weekSolid⟩ := solid
  obtain ⟨minuteSet, minutesParsed, minutesSame⟩ := parse_of_field (by decide) minuteSolid minutes
  obtain ⟨hourSet, hoursParsed, hoursSame⟩ := parse_of_field (by decide) hourSolid hours
  obtain ⟨daySet, daysParsed, daysSame⟩ := parse_of_field (by decide) daySolid daysOfMonth
  obtain ⟨monthSet, monthsParsed, monthsSame⟩ := parse_of_field (by decide) monthSolid months
  obtain ⟨weekSet, weekParsed, weekSame⟩ := parse_of_field (by decide) weekSolid daysOfWeek
  refine ⟨⟨minuteSet, hourSet, daySet, monthSet, _⟩, ?_, minutesSame, hoursSame, daysSame, monthsSame, weekSet,
    weekSame, rfl⟩
  rw [parseCronExpression, split.fieldsOf_eq]
  simp only [minutesParsed, hoursParsed, daysParsed, monthsParsed, parseDayOfWeek, weekParsed, Except.map, bind,
    Except.bind, pure, Except.pure]
  rfl

private theorem admits_iff (holds : Holds expr schedule) (zone : TimeZone) (time : ℤ) :
    expr.matchesAt zone time = true ↔ schedule.Admits zone time := by
  obtain ⟨minutes, hours, daysOfMonth, months, set, week, same⟩ := holds
  have below : (zone.getDay time).toNat ≠ 7 := by
    rw [TimeZone.getDay, weekDay]
    omega
  rw [Schedule.Admits, ← minutes, ← hours, ← daysOfMonth, ← months, ← week]
  simp only [CronExpression.matchesAt, same, Bool.and_eq_true, decide_eq_true_eq, Finset.mem_coe, and_assoc]
  refine and_congr_right' (and_congr_right' (and_congr_right' (and_congr_right' ?_)))
  split_ifs with sunday
  · simp only [Finset.mem_insert, Finset.mem_erase, ne_eq, below, not_false_eq_true, true_and, sunday, and_true]
    exact or_comm
  · simp [sunday]

end Expressions

end PieAgent.Soundness.CronGrammar
