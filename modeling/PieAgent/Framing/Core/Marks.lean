import Mathlib.Data.List.Basic
import Mathlib.Tactic.Common

/-! # Marks in a text

A text is read from left to right: where a mark begins the mark is one piece, and elsewhere one character is. When a
mark is found whatever follows it, any stretch of the pieces of a text is read again in the same way, and marks may be
put before it.
-/

namespace Framing

variable {α : Type}

inductive Piece (α : Type)
  | mark (text : List α)
  | char (unit : α)

namespace Piece

def text : Piece α → List α
  | .mark text => text
  | .char unit => [unit]

def char? : Piece α → Option α
  | .mark _ => none
  | .char unit => some unit

@[simp] theorem text_mark (text : List α) : (mark text).text = text := rfl
@[simp] theorem text_char (unit : α) : (char unit).text = [unit] := rfl
@[simp] theorem char?_mark (text : List α) : (mark text).char? = none := rfl
@[simp] theorem char?_char (unit : α) : (char unit).char? = some unit := rfl

end Piece

section SelfDelimiting

variable {mark? : List α → Option (List α)} {text mark more : List α}

/-- A mark stands at the front of the text and is found there whatever follows it. -/
structure SelfDelimiting (mark? : List α → Option (List α)) : Prop where
  starts : ∀ {text mark}, mark? text = some mark → mark <+: text
  nonempty : ∀ {text mark}, mark? text = some mark → mark ≠ []
  whatever : ∀ {text mark}, mark? text = some mark → ∀ more, mark? (mark ++ more) = some mark

theorem SelfDelimiting.append (delimited : SelfDelimiting mark?) (found : mark? text = some mark) (more : List α) :
    mark? (text ++ more) = some mark := by
  obtain ⟨rest, rfl⟩ := delimited.starts found
  rw [List.append_assoc]
  exact delimited.whatever found _

theorem SelfDelimiting.none_of_append (delimited : SelfDelimiting mark?) (none_ : mark? (text ++ more) = none) :
    mark? text = none := by
  cases found : mark? text with
  | none => rfl
  | some mark =>
    rw [delimited.append found more] at none_
    cases none_

end SelfDelimiting

/-- The pieces of a text behind the given number of characters, which belong to a mark. -/
def piecesFrom (mark? : List α → Option (List α)) : ℕ → List α → List (Piece α)
  | _, [] => []
  | skip + 1, _ :: rest => piecesFrom mark? skip rest
  | 0, unit :: rest =>
    match mark? (unit :: rest) with
    | some mark => .mark mark :: piecesFrom mark? (mark.length - 1) rest
    | none => .char unit :: piecesFrom mark? 0 rest

def pieces (mark? : List α → Option (List α)) (text : List α) : List (Piece α) := piecesFrom mark? 0 text

def render (pieces : List (Piece α)) : List α := pieces.flatMap Piece.text

/-- What is left of a text without its marks. -/
def chars (pieces : List (Piece α)) : List α := pieces.filterMap Piece.char?

section Rendering

variable {first second : List (Piece α)}

@[simp] theorem render_nil : render ([] : List (Piece α)) = [] := rfl

@[simp] theorem render_cons (piece : Piece α) (rest : List (Piece α)) :
    render (piece :: rest) = piece.text ++ render rest := rfl

@[simp] theorem render_append : render (first ++ second) = render first ++ render second := List.flatMap_append

@[simp] theorem chars_nil : chars ([] : List (Piece α)) = [] := rfl

@[simp] theorem chars_mark (text : List α) (rest : List (Piece α)) : chars (.mark text :: rest) = chars rest := rfl

@[simp] theorem chars_char (unit : α) (rest : List (Piece α)) : chars (.char unit :: rest) = unit :: chars rest := rfl

@[simp] theorem chars_append : chars (first ++ second) = chars first ++ chars second := List.filterMap_append

@[simp] theorem render_map_char (text : List α) : render (text.map .char) = text := by
  induction text with
  | nil => rfl
  | cons unit rest ih => rw [List.map_cons, render_cons, ih]; rfl

@[simp] theorem chars_map_char (text : List α) : chars (text.map .char) = text := by
  induction text with
  | nil => rfl
  | cons unit rest ih => rw [List.map_cons, chars_char, ih]

@[simp] theorem chars_map_mark (marks : List (List α)) : chars (marks.map .mark) = [] := by
  induction marks with
  | nil => rfl
  | cons mark rest ih => rw [List.map_cons, chars_mark, ih]

end Rendering

variable {mark? : List α → Option (List α)} {text mark : List α}

theorem piecesFrom_eq_drop (skip : ℕ) (text : List α) : piecesFrom mark? skip text = pieces mark? (text.drop skip) := by
  induction text generalizing skip with
  | nil => cases skip <;> rfl
  | cons unit rest ih =>
    cases skip with
    | zero => rfl
    | succ skip => exact ih skip

@[simp] theorem pieces_nil : pieces mark? [] = [] := rfl

theorem pieces_cons (unit : α) (rest : List α) : pieces mark? (unit :: rest) =
    match mark? (unit :: rest) with
    | some mark => .mark mark :: piecesFrom mark? (mark.length - 1) rest
    | none => .char unit :: piecesFrom mark? 0 rest := rfl

theorem pieces_of_none {unit : α} {rest : List α} (none_ : mark? (unit :: rest) = none) :
    pieces mark? (unit :: rest) = .char unit :: pieces mark? rest := by
  rw [pieces_cons, none_]
  rfl

theorem SelfDelimiting.pieces_append (delimited : SelfDelimiting mark?) (found : mark? text = some mark)
    (more : List α) : pieces mark? (mark ++ more) = .mark mark :: pieces mark? more := by
  obtain ⟨unit, rest, rfl⟩ := List.exists_cons_of_ne_nil (delimited.nonempty found)
  have again := delimited.whatever found more
  rw [List.cons_append] at again ⊢
  rw [pieces_cons, again]
  dsimp only
  rw [piecesFrom_eq_drop, List.length_cons, Nat.add_sub_cancel, List.drop_left]

/-- The pieces of some text, as a condition on the pieces alone. -/
def Lexed (mark? : List α → Option (List α)) : List (Piece α) → Prop
  | [] => True
  | .mark mark :: rest => mark? mark = some mark ∧ Lexed mark? rest
  | .char unit :: rest => mark? (unit :: render rest) = none ∧ Lexed mark? rest

namespace SelfDelimiting

variable (delimited : SelfDelimiting mark?) {first second : List (Piece α)}

include delimited

theorem self (found : mark? text = some mark) : mark? mark = some mark := by
  have found := delimited.whatever found []
  rwa [List.append_nil] at found

/-- Reading a text in pieces. -/
theorem induction {motive : List α → Prop} (nil : motive [])
    (marked : ∀ mark rest, mark? mark = some mark → motive rest → motive (mark ++ rest))
    (plain : ∀ unit rest, mark? (unit :: rest) = none → motive rest → motive (unit :: rest)) (text : List α) :
    motive text := by
  induction length : text.length using Nat.strongRecOn generalizing text with
  | ind length_ ih =>
    subst length
    cases text with
    | nil => exact nil
    | cons unit rest =>
      cases found : mark? (unit :: rest) with
      | none => exact plain unit rest found (ih rest.length (Nat.lt_succ_self _) rest rfl)
      | some mark =>
        obtain ⟨behind, whole⟩ := delimited.starts found
        have shorter := congrArg List.length whole
        have some_ := List.length_pos_of_ne_nil (delimited.nonempty found)
        rw [List.length_append] at shorter
        rw [← whole]
        exact marked mark behind (delimited.self found) (ih behind.length (by omega) behind rfl)

theorem render_pieces (text : List α) : render (pieces mark? text) = text := by
  induction text using delimited.induction with
  | nil => rfl
  | marked mark rest found ih => rw [delimited.pieces_append found, render_cons, ih]; rfl
  | plain unit rest none_ ih => rw [pieces_of_none none_, render_cons, ih]; rfl

theorem lexed_pieces (text : List α) : Lexed mark? (pieces mark? text) := by
  induction text using delimited.induction with
  | nil => trivial
  | marked mark rest found ih => rw [delimited.pieces_append found]; exact ⟨found, ih⟩
  | plain unit rest none_ ih =>
    rw [pieces_of_none none_]
    exact ⟨by rwa [delimited.render_pieces], ih⟩

/-- Pieces of a text are read again as they are. -/
theorem pieces_render (lexed : Lexed mark? first) : pieces mark? (render first) = first := by
  induction first with
  | nil => rfl
  | cons piece rest ih =>
    cases piece with
    | mark mark => rw [render_cons, Piece.text_mark, delimited.pieces_append lexed.1, ih lexed.2]
    | char unit =>
      rw [render_cons, Piece.text_char, List.singleton_append, pieces_of_none lexed.1, ih lexed.2]

theorem lexed_of_append (lexed : Lexed mark? (first ++ second)) : Lexed mark? first ∧ Lexed mark? second := by
  induction first with
  | nil => exact ⟨trivial, lexed⟩
  | cons piece rest ih =>
    cases piece with
    | mark mark => exact ⟨⟨lexed.1, (ih lexed.2).1⟩, (ih lexed.2).2⟩
    | char unit =>
      have here : mark? (unit :: render (rest ++ second)) = none := lexed.1
      rw [render_append, ← List.cons_append] at here
      exact ⟨⟨delimited.none_of_append here, (ih lexed.2).1⟩, (ih lexed.2).2⟩

omit delimited in
theorem lexed_marks_append {marks : List (List α)} (each : ∀ mark ∈ marks, mark? mark = some mark)
    (lexed : Lexed mark? second) : Lexed mark? (marks.map .mark ++ second) := by
  induction marks with
  | nil => exact lexed
  | cons mark rest ih =>
    exact ⟨each mark List.mem_cons_self, ih fun mark member => each mark (List.mem_cons_of_mem _ member)⟩

end SelfDelimiting

end Framing
