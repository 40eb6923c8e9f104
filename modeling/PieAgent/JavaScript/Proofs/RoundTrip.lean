import Mathlib.Data.List.TakeDrop
import PieAgent.JavaScript.Core.Json
import PieAgent.JavaScript.Proofs.StringLiterals

/-! # Reading back what `JSON.stringify` wrote

`ReadsAs` says that a parser reads a text as a value, whatever follows it and at any sufficient depth.
The rules below build such texts token by token. Everything the parser accepts is built by them, and so
is everything that `stringify` writes; hence `parse?` inverts `stringify`.
-/

/-! ## Number literals end where they stop

A scanned literal is a prefix of its text, and the scanner returns the same literal whatever follows it,
as long as the continuation cannot extend a number.
-/

namespace JavaScript

/-- The text does not start with a digit. -/
def NoDigit (text : List Char) : Prop := ∀ c, text.head? = some c → isDigit c = false

/-- The text cannot extend a number literal before it. -/
def Stops (text : List Char) : Prop :=
  ∀ c, text.head? = some c → isDigit c = false ∧ c ≠ '.' ∧ c ≠ 'e' ∧ c ≠ 'E'

theorem stops_nil : Stops [] := nofun

theorem stops_cons {c : Char} (rest : List Char) (stop : isDigit c = false ∧ c ≠ '.' ∧ c ≠ 'e' ∧ c ≠ 'E') :
    Stops (c :: rest) := by
  rintro _ ⟨⟩
  exact stop

theorem Stops.noDigit {text : List Char} (stops : Stops text) : NoDigit text := fun c head => (stops c head).1

private theorem span_digits (text : List Char) :
    text = (spanDigits text).1 ++ (spanDigits text).2 ∧ (∀ c ∈ (spanDigits text).1, isDigit c = true) := by
  unfold spanDigits
  rw [List.span_eq_takeWhile_dropWhile]
  exact ⟨(List.takeWhile_append_dropWhile ..).symm, fun c member => List.mem_takeWhile_imp member⟩

private theorem spanDigits_append {digits rest : List Char} (all : ∀ c ∈ digits, isDigit c = true)
    (stop : NoDigit rest) : spanDigits (digits ++ rest) = (digits, rest) := by
  unfold spanDigits
  rw [List.span_eq_takeWhile_dropWhile, List.takeWhile_append_of_pos all, List.dropWhile_append_of_pos all]
  cases rest with
  | nil => simp
  | cons c rest => simp [stop c rfl]

private theorem scanInteger?_spec {text integer rest : List Char} (scanned : scanInteger? text = some (integer, rest)) :
    text = integer ++ rest ∧ (∃ c, integer.head? = some c ∧ isDigit c = true) ∧
      ∀ more, NoDigit more → scanInteger? (integer ++ more) = some (integer, more) := by
  unfold scanInteger? at scanned
  split at scanned
  · cases scanned
    exact ⟨rfl, ⟨'0', rfl, by decide⟩, fun more _ => rfl⟩
  · next c tail nonzero =>
    obtain ⟨digit, same⟩ := Option.ite_none_right_eq_some.mp scanned
    cases same
    obtain ⟨split, all⟩ := span_digits tail
    refine ⟨congrArg (c :: ·) split, ⟨c, rfl, digit⟩, fun more stop => ?_⟩
    rw [List.cons_append, scanInteger?]
    · rw [if_pos digit, spanDigits_append all stop]
    · exact nonzero
  · cases scanned

private theorem scanFraction?_spec {text fraction rest : List Char}
    (scanned : scanFraction? text = some (fraction, rest)) :
    text = fraction ++ rest ∧ (fraction = [] ∨ fraction.head? = some '.') ∧
      ∀ more, NoDigit more → more.head? ≠ some '.' → scanFraction? (fraction ++ more) = some (fraction, more) := by
  unfold scanFraction? at scanned
  split at scanned
  · next tail =>
    obtain ⟨some_, same⟩ := Option.ite_none_left_eq_some.mp scanned
    cases same
    obtain ⟨split, all⟩ := span_digits tail
    refine ⟨congrArg ('.' :: ·) split, Or.inr rfl, fun more stop _ => ?_⟩
    rw [List.cons_append, scanFraction?, spanDigits_append all stop, if_neg some_]
  · cases scanned
    refine ⟨rfl, Or.inl rfl, fun more _ point => ?_⟩
    rw [List.nil_append, scanFraction?]
    rintro tail rfl
    exact point rfl

private theorem scanSign_spec (text : List Char) :
    text = (scanSign text).1 ++ (scanSign text).2 ∧
      ∀ more, (∃ c, more.head? = some c ∧ isDigit c = true) → scanSign ((scanSign text).1 ++ more) = ((scanSign text).1, more) := by
  unfold scanSign
  split
  · exact ⟨rfl, fun _ _ => rfl⟩
  · exact ⟨rfl, fun _ _ => rfl⟩
  · refine ⟨rfl, fun more ⟨c, head, digit⟩ => ?_⟩
    cases more with
    | nil => cases head
    | cons d more =>
      cases head
      dsimp only [List.nil_append]
      split
      · next same => cases same; cases digit
      · next same => cases same; cases digit
      · rfl

private theorem scanExponent?_spec {text exponent rest : List Char}
    (scanned : scanExponent? text = some (exponent, rest)) :
    text = exponent ++ rest ∧ (exponent = [] ∨ exponent.head? = some 'e' ∨ exponent.head? = some 'E') ∧
      ∀ more, Stops more → scanExponent? (exponent ++ more) = some (exponent, more) := by
  have empty : ∀ more, Stops more → scanExponent? ([] ++ more) = some ([], more) := by
    intro more stops
    cases more with
    | nil => rfl
    | cons c more =>
      obtain ⟨_, _, lower, upper⟩ := stops c rfl
      simp [scanExponent?, lower, upper]
  cases text with
  | nil =>
    cases scanned
    exact ⟨rfl, Or.inl rfl, empty⟩
  | cons c tail =>
    rw [scanExponent?] at scanned
    split at scanned
    · next marker =>
      obtain ⟨some_, same⟩ := Option.ite_none_left_eq_some.mp scanned
      cases same
      obtain ⟨signed, keeps⟩ := scanSign_spec tail
      obtain ⟨split, all⟩ := span_digits (scanSign tail).2
      refine ⟨?_, Or.inr (by simpa using marker), fun more stops => ?_⟩
      · rw [List.cons_append, List.cons_append, List.append_assoc, ← split, ← signed]
      · obtain ⟨d, digits, first⟩ : ∃ d digits, (spanDigits (scanSign tail).2).1 = d :: digits := by
          cases read : (spanDigits (scanSign tail).2).1 with
          | nil => simp [read] at some_
          | cons d digits => exact ⟨d, digits, rfl⟩
        have signMore := keeps ((spanDigits (scanSign tail).2).1 ++ more)
          ⟨d, by rw [first]; rfl, all d (by rw [first]; exact List.mem_cons_self)⟩
        rw [List.cons_append, List.cons_append, List.append_assoc, scanExponent?, if_pos marker, signMore]
        dsimp only
        rw [spanDigits_append all stops.noDigit, if_neg some_]
        rfl
    · obtain ⟨rfl, rfl⟩ := Prod.mk.inj (Option.some.inj scanned)
      exact ⟨rfl, Or.inl rfl, empty⟩

private theorem head?_append_of_mem {front rest : List Char} {c : Char} (head : front.head? = some c) :
    (front ++ rest).head? = some c := by
  cases front with
  | nil => cases head
  | cons d front => exact head

private theorem scanUnsigned?_spec {text literal rest : List Char}
    (scanned : scanUnsigned? text = some (literal, rest)) :
    text = literal ++ rest ∧ (∃ c, literal.head? = some c ∧ isDigit c = true) ∧
      ∀ more, Stops more → scanUnsigned? (literal ++ more) = some (literal, more) := by
  obtain ⟨⟨integer, one⟩, first, scanned⟩ := Option.bind_eq_some_iff.mp scanned
  obtain ⟨⟨fraction, two⟩, second, scanned⟩ := Option.bind_eq_some_iff.mp scanned
  obtain ⟨⟨exponent, three⟩, third, same⟩ := Option.map_eq_some_iff.mp scanned
  cases same
  obtain ⟨rfl, ⟨c, head, digit⟩, integers⟩ := scanInteger?_spec first
  dsimp only at second third
  obtain ⟨rfl, point, fractions⟩ := scanFraction?_spec second
  obtain ⟨rfl, marker, exponents⟩ := scanExponent?_spec third
  refine ⟨by simp, ⟨c, head?_append_of_mem (head?_append_of_mem head), digit⟩, fun more stops => ?_⟩
  have afterFraction : NoDigit (exponent ++ more) ∧ (exponent ++ more).head? ≠ some '.' := by
    rcases marker with rfl | lower | upper
    · exact ⟨stops.noDigit, fun point => (stops '.' point).2.1 rfl⟩
    · rw [NoDigit, head?_append_of_mem lower]
      exact ⟨by rintro _ ⟨⟩; decide, by decide⟩
    · rw [NoDigit, head?_append_of_mem upper]
      exact ⟨by rintro _ ⟨⟩; decide, by decide⟩
  have afterInteger : NoDigit (fraction ++ (exponent ++ more)) := by
    rcases point with rfl | point
    · exact afterFraction.1
    · rw [NoDigit, head?_append_of_mem point]
      rintro _ ⟨⟩
      decide
  have split : integer ++ fraction ++ exponent ++ more = integer ++ (fraction ++ (exponent ++ more)) := by simp
  rw [scanUnsigned?, split, integers _ afterInteger, Option.bind_some, fractions _ afterFraction.1 afterFraction.2,
    Option.bind_some, exponents more stops, Option.map_some]

/-- A scanned literal is the front of its text, and it is scanned again before any text that stops it. -/
theorem scanNumber?_spec {text literal rest : List Char} (scanned : scanNumber? text = some (literal, rest)) :
    text = literal ++ rest ∧ (∃ c, literal.head? = some c ∧ (c = '-' ∨ isDigit c = true)) ∧
      ∀ more, Stops more → scanNumber? (literal ++ more) = some (literal, more) := by
  unfold scanNumber? at scanned
  split at scanned
  · obtain ⟨⟨body, left⟩, read, same⟩ := Option.map_eq_some_iff.mp scanned
    cases same
    obtain ⟨rfl, _, again⟩ := scanUnsigned?_spec read
    refine ⟨rfl, ⟨'-', rfl, Or.inl rfl⟩, fun more stops => ?_⟩
    rw [List.cons_append, scanNumber?, again more stops, Option.map_some]
  · obtain ⟨rfl, ⟨c, head, digit⟩, again⟩ := scanUnsigned?_spec scanned
    refine ⟨rfl, ⟨c, head, Or.inr digit⟩, fun more stops => ?_⟩
    rw [scanNumber?, again more stops]
    rintro tail same
    have minus : (literal ++ more).head? = some '-' := by rw [same]; rfl
    rw [head?_append_of_mem head] at minus
    cases minus
    cases digit

end JavaScript

namespace JavaScript

/-- The text may follow the value: after a number it must stop the number. -/
def Json.Fits : Json → List Char → Prop
  | .num _, more => Stops more
  | _, _ => True

/-- The parser reads exactly this text as the value, before every continuation that fits. -/
structure ReadsAs {α : Type} (parser : ℕ → List Char → Option (α × List Char)) (fits : List Char → Prop)
    (used : List Char) (value : α) : Prop where
  opens : ∃ c tail, used = c :: tail ∧ isJsonSpace c = false ∧ c ≠ ']' ∧ c ≠ '\x7d'
  again : ∀ depth more, 2 * used.length ≤ depth → fits more → parser depth (used ++ more) = some (value, more)

abbrev ReadsValue (used : List Char) (value : Json) : Prop := ReadsAs parseValue? value.Fits used value

abbrev ReadsItems (used : List Char) (items : List Json) : Prop := ReadsAs parseItems? (fun _ => True) used items

abbrev ReadsMembers (used : List Char) (members : List (JsString × Json)) : Prop :=
  ReadsAs parseMembers? (fun _ => True) used members

/-- The text of a string literal after its opening quote. -/
def ReadsString (used : List Char) (text : JsString) : Prop := ∀ more, parseString? (used ++ more) = some (text, more)

/-- White space between two tokens. -/
abbrev Spaces (space : List Char) : Prop := ∀ c ∈ space, isJsonSpace c = true

theorem spaces_nil : Spaces [] := nofun

variable {used others space space' space'' : List Char} {c : Char}

theorem skipSpace_append (blank : Spaces space) (solid : isJsonSpace c = false) (rest : List Char) :
    skipSpace (space ++ c :: rest) = c :: rest := by
  unfold skipSpace
  rw [List.dropWhile_append_of_pos blank, List.dropWhile_cons_of_neg (by simp [solid])]

theorem skipSpace_split (text : List Char) : ∃ space, Spaces space ∧ text = space ++ skipSpace text :=
  ⟨text.takeWhile isJsonSpace, fun _ member => List.mem_takeWhile_imp member, (List.takeWhile_append_dropWhile ..).symm⟩

private theorem skipSpace_opens {α : Type} {parser : ℕ → List Char → Option (α × List Char)} {fits : List Char → Prop}
    {value : α} (reads : ReadsAs parser fits used value) (blank : Spaces space) (more : List Char) :
    skipSpace (space ++ (used ++ more)) = used ++ more := by
  obtain ⟨c, tail, rfl, solid, _⟩ := reads.opens
  exact skipSpace_append blank solid (tail ++ more)

private theorem stops_of_space {c : Char} (blank : isJsonSpace c = true) :
    isDigit c = false ∧ c ≠ '.' ∧ c ≠ 'e' ∧ c ≠ 'E' := by
  simp only [isJsonSpace, Bool.or_eq_true, beq_iff_eq] at blank
  rcases blank with ((rfl | rfl) | rfl) | rfl <;> decide

/-- A delimiter after white space fits every value. -/
private theorem fits_delimiter (value : Json) (blank : Spaces space)
    (delimiter : c = ',' ∨ c = ']' ∨ c = '\x7d') (rest : List Char) : value.Fits (space ++ c :: rest) := by
  cases value with
  | num literal =>
    cases space with
    | nil => rcases delimiter with rfl | rfl | rfl <;> exact stops_cons rest (by decide)
    | cons d space => exact stops_cons _ (stops_of_space (blank d List.mem_cons_self))
  | _ => trivial

/-- A text that opens a token needs at least one level of depth. -/
private theorem ReadsAs.of_succ {α : Type} {parser : ℕ → List Char → Option (α × List Char)} {fits : List Char → Prop}
    {value : α} (opens : ∃ c tail, used = c :: tail ∧ isJsonSpace c = false ∧ c ≠ ']' ∧ c ≠ '\x7d')
    (again : ∀ depth more, 2 * used.length ≤ depth + 1 → fits more →
      parser (depth + 1) (used ++ more) = some (value, more)) : ReadsAs parser fits used value := by
  refine ⟨opens, fun depth more enough fit => ?_⟩
  obtain ⟨c, tail, rfl, _⟩ := opens
  cases depth with
  | zero => simp at enough
  | succ depth => exact again depth more enough fit

section Arrays

variable {item : Json} {items : List Json}

theorem readsItems_last (value : ReadsValue used item) (blank : Spaces space) :
    ReadsItems (used ++ space ++ [']']) [item] := by
  obtain ⟨c, tail, same, head⟩ := value.opens
  refine ReadsAs.of_succ ⟨c, tail ++ space ++ [']'], by simp [same], head⟩ fun depth more enough _ => ?_
  have split : used ++ space ++ [']'] ++ more = used ++ (space ++ ']' :: more) := by simp
  rw [split, parseItems?, value.again depth _ (by simp at enough; omega)
    (fits_delimiter item blank (Or.inr (Or.inl rfl)) _)]
  simp only [Option.bind_eq_bind, Option.bind_some]
  rw [skipSpace_append blank (by decide)]
  rfl

theorem readsItems_cons (value : ReadsValue used item) (blank : Spaces space) (blank' : Spaces space')
    (rest : ReadsItems others items) :
    ReadsItems (used ++ space ++ ',' :: space' ++ others) (item :: items) := by
  obtain ⟨c, tail, same, head⟩ := value.opens
  refine ReadsAs.of_succ ⟨c, tail ++ space ++ ',' :: space' ++ others, by simp [same], head⟩ fun depth more enough _ => ?_
  have split : used ++ space ++ ',' :: space' ++ others ++ more =
      used ++ (space ++ ',' :: (space' ++ (others ++ more))) := by simp
  rw [split, parseItems?, value.again depth _ (by simp at enough; omega) (fits_delimiter item blank (Or.inl rfl) _)]
  simp only [Option.bind_eq_bind, Option.bind_some]
  rw [skipSpace_append blank (by decide)]
  simp only
  rw [skipSpace_opens rest blank', rest.again depth more (by simp at enough; omega) trivial]
  rfl

theorem readsValue_nil (blank : Spaces space) : ReadsValue ('[' :: space ++ [']']) (.arr []) := by
  refine ReadsAs.of_succ ⟨'[', _, rfl, by decide⟩ fun depth more enough _ => ?_
  have split : '[' :: space ++ [']'] ++ more = '[' :: (space ++ ']' :: more) := by simp
  rw [split, parseValue?, skipSpace_append blank (by decide)]
  rfl

theorem readsValue_arr (blank : Spaces space) (rest : ReadsItems used items) :
    ReadsValue ('[' :: space ++ used) (.arr items) := by
  refine ReadsAs.of_succ ⟨'[', _, rfl, by decide⟩ fun depth more enough _ => ?_
  rw [List.cons_append, List.cons_append, List.append_assoc, parseValue?, skipSpace_opens rest blank]
  obtain ⟨c, tail, same, _, notEnd, _⟩ := rest.opens
  split
  · next closed =>
    rw [same] at closed
    cases closed
    exact absurd rfl notEnd
  · rw [rest.again depth more (by simp at enough ⊢; omega) trivial]
    rfl

end Arrays

section Objects

variable {key : JsString} {value : Json} {members : List (JsString × Json)} {quoted : List Char}

theorem readsMembers_last (name : ReadsString quoted key) (reads : ReadsValue used value) (blank : Spaces space)
    (blank' : Spaces space') (blank'' : Spaces space'') :
    ReadsMembers ('"' :: quoted ++ space ++ ':' :: space' ++ used ++ space'' ++ ['\x7d']) [(key, value)] := by
  refine ReadsAs.of_succ ⟨'"', _, rfl, by decide⟩ fun depth more enough _ => ?_
  have split : '"' :: quoted ++ space ++ ':' :: space' ++ used ++ space'' ++ ['\x7d'] ++ more =
      '"' :: (quoted ++ (space ++ ':' :: (space' ++ (used ++ (space'' ++ '\x7d' :: more))))) := by simp
  rw [split, parseMembers?, name]
  simp only [Option.bind_eq_bind, Option.bind_some]
  rw [skipSpace_append blank (by decide)]
  simp only
  rw [skipSpace_opens reads blank', reads.again depth _ (by simp at enough; omega)
    (fits_delimiter value blank'' (Or.inr (Or.inr rfl)) _), Option.bind_some]
  simp only
  rw [skipSpace_append blank'' (by decide)]
  rfl

theorem readsMembers_cons (name : ReadsString quoted key) (reads : ReadsValue used value) (blank : Spaces space)
    (blank' : Spaces space') (blank'' : Spaces space'') {gap : List Char} (blankGap : Spaces gap)
    (rest : ReadsMembers others members) :
    ReadsMembers ('"' :: quoted ++ space ++ ':' :: space' ++ used ++ space'' ++ ',' :: gap ++ others)
      ((key, value) :: members) := by
  refine ReadsAs.of_succ ⟨'"', _, rfl, by decide⟩ fun depth more enough _ => ?_
  have split : '"' :: quoted ++ space ++ ':' :: space' ++ used ++ space'' ++ ',' :: gap ++ others ++ more =
      '"' :: (quoted ++ (space ++ ':' :: (space' ++ (used ++ (space'' ++ ',' :: (gap ++ (others ++ more))))))) := by
    simp
  rw [split, parseMembers?, name]
  simp only [Option.bind_eq_bind, Option.bind_some]
  rw [skipSpace_append blank (by decide)]
  simp only
  rw [skipSpace_opens reads blank', reads.again depth _ (by simp at enough; omega)
    (fits_delimiter value blank'' (Or.inl rfl) _), Option.bind_some]
  simp only
  rw [skipSpace_append blank'' (by decide)]
  simp only
  rw [skipSpace_opens rest blankGap, rest.again depth more (by simp at enough; omega) trivial]
  rfl

theorem readsValue_empty (blank : Spaces space) : ReadsValue ('\x7b' :: space ++ ['\x7d']) (.obj []) := by
  refine ReadsAs.of_succ ⟨'\x7b', _, rfl, by decide⟩ fun depth more enough _ => ?_
  have split : '\x7b' :: space ++ ['\x7d'] ++ more = '\x7b' :: (space ++ '\x7d' :: more) := by simp
  rw [split, parseValue?, skipSpace_append blank (by decide)]
  rfl

theorem readsValue_obj (blank : Spaces space) (rest : ReadsMembers used members) :
    ReadsValue ('\x7b' :: space ++ used) (.obj (objectMembers members)) := by
  refine ReadsAs.of_succ ⟨'\x7b', _, rfl, by decide⟩ fun depth more enough _ => ?_
  rw [List.cons_append, List.cons_append, List.append_assoc, parseValue?, skipSpace_opens rest blank]
  obtain ⟨c, tail, same, _, _, notEnd⟩ := rest.opens
  split
  · next closed =>
    rw [same] at closed
    cases closed
    exact absurd rfl notEnd
  · rw [rest.again depth more (by simp at enough ⊢; omega) trivial]
    rfl

end Objects

section Scalars

theorem readsValue_str {quoted : List Char} {text : JsString} (name : ReadsString quoted text) :
    ReadsValue ('"' :: quoted) (.str text) := by
  refine ReadsAs.of_succ ⟨'"', _, rfl, by decide⟩ fun depth more _ _ => ?_
  rw [List.cons_append, parseValue?, name]
  rfl

/-- A number starts like no other value. -/
theorem parseValue?_number {c : Char} (head : c = '-' ∨ isDigit c = true) (depth : ℕ) (rest : List Char) :
    parseValue? (depth + 1) (c :: rest) = parseNumber? (c :: rest) := by
  have other : ∀ d, isDigit d = false → d ≠ '-' → c ≠ d := by
    rintro d plain sign rfl
    rcases head with rfl | digit
    · exact sign rfl
    · cases plain.symm.trans digit
  rw [parseValue?]
  · exact fun _ same => other 'n' (by decide) (by decide) (List.cons.inj same).1
  · exact fun _ same => other 't' (by decide) (by decide) (List.cons.inj same).1
  · exact fun _ same => other 'f' (by decide) (by decide) (List.cons.inj same).1
  · exact fun _ same => other '"' (by decide) (by decide) (List.cons.inj same).1
  · exact fun _ same => other '[' (by decide) (by decide) (List.cons.inj same).1
  · exact fun _ same => other '\x7b' (by decide) (by decide) (List.cons.inj same).1

private theorem numberHead_opens {c : Char} (head : c = '-' ∨ isDigit c = true) :
    isJsonSpace c = false ∧ c ≠ ']' ∧ c ≠ '\x7d' := by
  refine ⟨?_, ?_, ?_⟩
  · by_contra blank
    rcases head with rfl | digit
    · exact blank (by decide)
    · cases (stops_of_space (by simpa using blank)).1.symm.trans digit
  · rintro rfl
    rcases head with same | digit
    · cases same
    · cases digit
  · rintro rfl
    rcases head with same | digit
    · cases same
    · cases digit

theorem readsValue_num (literal : NumberLiteral) : ReadsValue literal.val (.num literal) := by
  obtain ⟨_, ⟨c, start, head⟩, again⟩ := scanNumber?_spec literal.property
  obtain ⟨tail, same⟩ : ∃ tail, literal.val = c :: tail := List.head?_eq_some_iff.mp start
  refine ReadsAs.of_succ ⟨c, tail, same, numberHead_opens head⟩ fun depth more _ stops => ?_
  have number : parseValue? (depth + 1) (literal.val ++ more) = parseNumber? (literal.val ++ more) := by
    rw [same, List.cons_append, parseValue?_number head]
  rw [number, parseNumber?, again more stops]
  exact dif_pos literal.property

theorem readsValue_null : ReadsValue ['n', 'u', 'l', 'l'] .null :=
  ReadsAs.of_succ ⟨'n', _, rfl, by decide⟩ fun _ _ _ _ => rfl

theorem readsValue_true : ReadsValue ['t', 'r', 'u', 'e'] (.bool true) :=
  ReadsAs.of_succ ⟨'t', _, rfl, by decide⟩ fun _ _ _ _ => rfl

theorem readsValue_false : ReadsValue ['f', 'a', 'l', 's', 'e'] (.bool false) :=
  ReadsAs.of_succ ⟨'f', _, rfl, by decide⟩ fun _ _ _ _ => rfl

end Scalars

section Parser

variable {text rest : List Char}

private theorem readsValue_of_parseNumber? {value : Json} (read : parseNumber? text = some (value, rest)) :
    ∃ used, text = used ++ rest ∧ ReadsValue used value ∧ ∀ members, value ≠ .obj members := by
  unfold parseNumber? at read
  split at read
  · cases read
  · next literal left scanned =>
    obtain ⟨complete, same⟩ := Option.dite_none_right_eq_some.mp read
    cases same
    exact ⟨literal, (scanNumber?_spec scanned).1, readsValue_num ⟨literal, complete⟩, nofun⟩

/-- What parsing at one depth accepts is built by the rules, and an object ends with its brace. -/
private def Sound (depth : ℕ) : Prop :=
  (∀ text value rest, parseValue? depth text = some (value, rest) → ∃ used, text = used ++ rest ∧ ReadsValue used value ∧
      ∀ members, value = .obj members → used.getLast? = some '\x7d') ∧
    (∀ text items rest, parseItems? depth text = some (items, rest) → ∃ used, text = used ++ rest ∧ ReadsItems used items) ∧
    ∀ text members rest, parseMembers? depth text = some (members, rest) →
      ∃ used, text = used ++ rest ∧ ReadsMembers used members ∧ used.getLast? = some '\x7d'

private theorem sound_items {depth : ℕ} (sound : Sound depth) {items : List Json}
    (read : parseItems? (depth + 1) text = some (items, rest)) :
    ∃ used, text = used ++ rest ∧ ReadsItems used items := by
  rw [parseItems?] at read
  obtain ⟨⟨item, left⟩, first, after⟩ := Option.bind_eq_some_iff.mp read
  obtain ⟨used, rfl, value, _⟩ := (sound).1 _ _ _ first
  obtain ⟨space, blank, split⟩ := skipSpace_split left
  dsimp only at after
  split at after
  · next tail closed =>
    cases after
    rw [closed] at split
    exact ⟨used ++ space ++ [']'], by rw [split]; simp, readsItems_last value blank⟩
  · next tail comma =>
    obtain ⟨⟨others, left'⟩, more, same⟩ := Option.bind_eq_some_iff.mp after
    cases same
    obtain ⟨used', same', reads⟩ := (sound).2.1 _ _ _ more
    obtain ⟨space', blank', split'⟩ := skipSpace_split tail
    rw [comma] at split
    rw [same'] at split'
    refine ⟨used ++ space ++ ',' :: space' ++ used', ?_, readsItems_cons value blank blank' reads⟩
    rw [split, split']
    simp
  · cases after

private theorem sound_members {depth : ℕ} (sound : Sound depth) {members : List (JsString × Json)}
    (read : parseMembers? (depth + 1) text = some (members, rest)) :
    ∃ used, text = used ++ rest ∧ ReadsMembers used members ∧ used.getLast? = some '\x7d' := by
  rw [parseMembers?.eq_def] at read
  dsimp only at read
  split at read
  · next body =>
    obtain ⟨⟨key, left⟩, first, afterKey⟩ := Option.bind_eq_some_iff.mp read
    obtain ⟨quoted, rfl, _, name⟩ := parseString?_spec first
    obtain ⟨space, blank, split⟩ := skipSpace_split left
    dsimp only at afterKey
    split at afterKey
    · next afterColon colon =>
      obtain ⟨⟨value, left'⟩, second, afterValue⟩ := Option.bind_eq_some_iff.mp afterKey
      obtain ⟨used, same, reads, _⟩ := (sound).1 _ _ _ second
      obtain ⟨space', blank', split'⟩ := skipSpace_split afterColon
      obtain ⟨space'', blank'', split''⟩ := skipSpace_split left'
      rw [colon] at split
      rw [same] at split'
      dsimp only at afterValue
      split at afterValue
      · next tail closed =>
        cases afterValue
        rw [closed] at split''
        refine ⟨_, ?_, readsMembers_last name reads blank blank' blank'', List.getLast?_concat⟩
        rw [split, split', split'']
        simp
      · next tail comma =>
        obtain ⟨⟨others, left''⟩, more, same⟩ := Option.bind_eq_some_iff.mp afterValue
        cases same
        obtain ⟨used', same', rest', ends⟩ := (sound).2.2 _ _ _ more
        obtain ⟨gap, blankGap, splitGap⟩ := skipSpace_split tail
        rw [comma] at split''
        rw [same'] at splitGap
        refine ⟨_, ?_, readsMembers_cons name reads blank blank' blank'' blankGap rest', ?_⟩
        · rw [split, split', split'', splitGap]
          simp
        · rw [List.getLast?_append, ends]
          rfl
      · cases afterValue
    · cases afterKey
  · cases read

private theorem sound_value {depth : ℕ} (sound : Sound depth) {value : Json}
    (read : parseValue? (depth + 1) text = some (value, rest)) :
    ∃ used, text = used ++ rest ∧ ReadsValue used value ∧
      ∀ members, value = .obj members → used.getLast? = some '\x7d' := by
  rw [parseValue?.eq_def] at read
  dsimp only at read
  split at read
  · cases read
    exact ⟨['n', 'u', 'l', 'l'], rfl, readsValue_null, nofun⟩
  · cases read
    exact ⟨['t', 'r', 'u', 'e'], rfl, readsValue_true, nofun⟩
  · cases read
    exact ⟨['f', 'a', 'l', 's', 'e'], rfl, readsValue_false, nofun⟩
  · obtain ⟨⟨text, left⟩, first, same⟩ := Option.map_eq_some_iff.mp read
    cases same
    obtain ⟨quoted, rfl, _, name⟩ := parseString?_spec first
    exact ⟨'"' :: quoted, rfl, readsValue_str name, nofun⟩
  · next body =>
    obtain ⟨space, blank, split⟩ := skipSpace_split body
    split at read
    · next tail closed =>
      cases read
      rw [closed] at split
      exact ⟨'[' :: space ++ [']'], by rw [split]; simp, readsValue_nil blank, nofun⟩
    · obtain ⟨⟨items, left⟩, more, same⟩ := Option.map_eq_some_iff.mp read
      cases same
      obtain ⟨used, same', reads⟩ := (sound).2.1 _ _ _ more
      rw [same'] at split
      exact ⟨'[' :: space ++ used, by rw [split]; simp, readsValue_arr blank reads, nofun⟩
  · next body =>
    obtain ⟨space, blank, split⟩ := skipSpace_split body
    split at read
    · next tail closed =>
      cases read
      rw [closed] at split
      exact ⟨'\x7b' :: space ++ ['\x7d'], by rw [split]; simp, readsValue_empty blank, fun _ _ =>
        List.getLast?_concat⟩
    · obtain ⟨⟨members, left⟩, more, same⟩ := Option.map_eq_some_iff.mp read
      cases same
      obtain ⟨used, same', reads, ends⟩ := (sound).2.2 _ _ _ more
      rw [same'] at split
      refine ⟨'\x7b' :: space ++ used, by rw [split]; simp, readsValue_obj blank reads, fun _ _ => ?_⟩
      rw [List.getLast?_append, ends]
      rfl
  · obtain ⟨used, same, reads, other⟩ := readsValue_of_parseNumber? read
    exact ⟨used, same, reads, fun members same => absurd same (other members)⟩

private theorem sound (depth : ℕ) : Sound depth := by
  induction depth with
  | zero => exact ⟨nofun, nofun, nofun⟩
  | succ depth ih =>
    exact ⟨fun _ _ _ read => sound_value ih read, fun _ _ _ read => sound_items ih read,
      fun _ _ _ read => sound_members ih read⟩

/-- The parser reads a value from the front of a text, independently of the rest. -/
theorem readsValue_of_parseValue? {depth : ℕ} {value : Json} (read : parseValue? depth text = some (value, rest)) :
    ∃ used, text = used ++ rest ∧ ReadsValue used value ∧
      ∀ members, value = .obj members → used.getLast? = some '\x7d' :=
  (sound depth).1 text value rest read

end Parser

section Writer

theorem readsString_quoteBody (text : JsString) : ReadsString (quoteBody text ++ ['"']) text := by
  intro more
  rw [List.append_assoc]
  exact parseString?_quoteBody text more

mutual

/-- The text that `stringify` writes for an ordinary value is read as that value. -/
theorem readsValue_stringify : ∀ value : Json, value.ordinary = true → ReadsValue (stringify value) value
  | .null, _ => readsValue_null
  | .bool true, _ => readsValue_true
  | .bool false, _ => readsValue_false
  | .num literal, _ => readsValue_num literal
  | .str text, _ => readsValue_str (readsString_quoteBody text)
  | .arr [], _ => readsValue_nil spaces_nil
  | .arr (item :: items), ordinary => by
    rw [Json.ordinary, ordinaryItems, Bool.and_eq_true] at ordinary
    have reads := readsValue_arr spaces_nil
      (readsItems_stringify item (readsValue_stringify item ordinary.1) items ordinary.2)
    exact reads
  | .obj [], _ => readsValue_empty spaces_nil
  | .obj ((key, value) :: members), ordinary => by
    rw [Json.ordinary, Bool.and_eq_true, decide_eq_true_eq, ordinaryMembers, Bool.and_eq_true] at ordinary
    obtain ⟨enumerated, first, rest⟩ := ordinary
    have reads := readsValue_obj spaces_nil
      (readsMembers_stringify key (readsValue_stringify value first) members rest)
    rw [enumerated] at reads
    exact reads

theorem readsItems_stringify (item : Json) (first : ReadsValue (stringify item) item) :
    ∀ items, ordinaryItems items = true → ReadsItems (stringify item ++ stringifyMoreItems items) (item :: items)
  | [], _ => by
    have reads := readsItems_last first spaces_nil
    rwa [List.append_nil] at reads
  | next :: items, ordinary => by
    rw [ordinaryItems, Bool.and_eq_true] at ordinary
    have reads := readsItems_cons first spaces_nil spaces_nil
      (readsItems_stringify next (readsValue_stringify next ordinary.1) items ordinary.2)
    simpa [stringifyMoreItems] using reads

theorem readsMembers_stringify (key : JsString) {value : Json} (first : ReadsValue (stringify value) value) :
    ∀ members, ordinaryMembers members = true →
      ReadsMembers (quote key ++ ':' :: stringify value ++ stringifyMoreMembers members) ((key, value) :: members)
  | [], _ => by
    have reads := readsMembers_last (readsString_quoteBody key) first spaces_nil spaces_nil spaces_nil
    simpa [quote, stringifyMoreMembers] using reads
  | (next, other) :: members, ordinary => by
    rw [ordinaryMembers, Bool.and_eq_true] at ordinary
    have reads := readsMembers_cons (readsString_quoteBody key) first spaces_nil spaces_nil spaces_nil spaces_nil
      (readsMembers_stringify next (readsValue_stringify other ordinary.1) members ordinary.2)
    simpa [quote, stringifyMoreMembers] using reads

end

end Writer

section Parse

variable {text : List Char} {value : Json}

theorem skipSpace_eq_nil (text : List Char) : skipSpace text = [] ↔ Spaces text := by
  unfold skipSpace
  rw [List.dropWhile_eq_nil_iff]

/-- What `JSON.parse` accepts is a value between white space. -/
theorem parse?_eq_some : parse? text = some value →
    ∃ space used space', text = space ++ used ++ space' ∧ Spaces space ∧ Spaces space' ∧ ReadsValue used value ∧
      ∀ members, value = .obj members → used.getLast? = some '\x7d' := by
  intro parsed
  unfold parse? at parsed
  split at parsed
  · next other rest read =>
    obtain ⟨blank, same⟩ := Option.ite_none_right_eq_some.mp parsed
    cases same
    obtain ⟨used, split, reads, ends⟩ := readsValue_of_parseValue? read
    obtain ⟨space, blank', whole⟩ := skipSpace_split text
    refine ⟨space, used, rest, ?_, blank', (skipSpace_eq_nil rest).mp blank, reads, ends⟩
    rw [List.append_assoc, ← split, ← whole]
  · cases parsed

theorem fits_of_spaces {rest : List Char} (blank : Spaces rest) : value.Fits rest := by
  cases value with
  | num literal =>
    cases rest with
    | nil => exact stops_nil
    | cons c rest => exact stops_cons rest (stops_of_space (blank c List.mem_cons_self))
  | _ => trivial

/-- The depth that `parse?` allows is always enough. -/
theorem parse?_of_parseValue? {depth : ℕ} {rest : List Char}
    (read : parseValue? depth (skipSpace text) = some (value, rest)) (blank : Spaces rest) : parse? text = some value := by
  obtain ⟨used, split, reads, _⟩ := readsValue_of_parseValue? read
  obtain ⟨space, _, whole⟩ := skipSpace_split text
  have shorter : used.length ≤ text.length := by
    rw [whole, split]
    simp only [List.length_append]
    omega
  have again := reads.again (2 * text.length + 1) rest (by omega) (fits_of_spaces blank)
  rw [parse?, split, again]
  exact if_pos ((skipSpace_eq_nil rest).mpr blank)

/-- White space before a value is skipped. -/
theorem parse?_spaces {space : List Char} (blank : Spaces space) (parsed : parse? text = some value) :
    parse? (space ++ text) = some value := by
  obtain ⟨space', used, space'', rfl, blank', blank'', reads, _⟩ := parse?_eq_some parsed
  have start : skipSpace (space ++ (space' ++ used ++ space'')) = used ++ space'' := by
    rw [List.append_assoc, ← List.append_assoc]
    exact skipSpace_opens reads (List.forall_mem_append.mpr ⟨blank, blank'⟩) space''
  refine @parse?_of_parseValue? _ _ (2 * used.length) space'' ?_ blank''
  rw [start]
  exact reads.again _ _ le_rfl (fits_of_spaces blank'')

/-- What is parsed is still parsed without the white space before it. -/
theorem parse?_skipSpace (parsed : parse? text = some value) : parse? (skipSpace text) = some value := by
  obtain ⟨space, used, space', rfl, blank, blank', reads, _⟩ := parse?_eq_some parsed
  have start : skipSpace (space ++ used ++ space') = used ++ space' := by
    rw [List.append_assoc]
    exact skipSpace_opens reads blank space'
  have again : skipSpace (used ++ space') = used ++ space' := skipSpace_opens reads spaces_nil space'
  refine @parse?_of_parseValue? _ _ (2 * used.length) space' ?_ blank'
  rw [start, again]
  exact reads.again _ _ le_rfl (fits_of_spaces blank')

/-- A text that is read as a value and nothing else is parsed as that value. -/
theorem parse?_of_reads {used : List Char} (reads : ReadsValue used value) : parse? used = some value := by
  obtain ⟨c, tail, same, solid, _⟩ := reads.opens
  have start : skipSpace used = used := by
    rw [same]
    exact skipSpace_append spaces_nil solid tail
  have read := reads.again (2 * used.length) [] le_rfl (fits_of_spaces spaces_nil)
  rw [List.append_nil, ← start] at read
  exact parse?_of_parseValue? (by rw [start] at read ⊢; exact read) spaces_nil

/-- `JSON.parse` inverts `JSON.stringify` on ordinary values. -/
theorem parse?_stringify (ordinary : value.ordinary = true) : parse? (stringify value) = some value :=
  parse?_of_reads (readsValue_stringify value ordinary)

end Parse

end JavaScript
