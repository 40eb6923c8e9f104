import Mathlib.Data.List.Basic
import Mathlib.Tactic.Common

/-! # Frames at the front of a text

A reader takes frames off the front of what has arrived and keeps the rest for later. When a frame is found
whatever follows it, the frames of a text do not depend on how it arrives: reading a front first and the
rest of the text behind what the front has left gives the same frames and leaves the same rest.
-/

namespace Framing

variable {α β : Type} {take? : List α → Option (β × List α)} {text rest more : List α} {frame : β}

/-- A frame takes something away. -/
structure Shortens (take? : List α → Option (β × List α)) : Prop where
  shorter : ∀ {text frame rest}, take? text = some (frame, rest) → rest.length < text.length

/-- A frame is found whatever follows it. -/
structure PrefixStable (take? : List α → Option (β × List α)) : Prop extends Shortens take? where
  append : ∀ {text frame rest} more, take? text = some (frame, rest) → take? (text ++ more) = some (frame, rest ++ more)

/-- Take off frames as long as there is one. -/
def drain (take? : List α → Option (β × List α)) : ℕ → List α → List β × List α
  | 0, text => ([], text)
  | fuel + 1, text =>
    match take? text with
    | none => ([], text)
    | some (frame, rest) => (frame :: (drain take? fuel rest).1, (drain take? fuel rest).2)

/-- The frames of a text, and what is left of it. -/
def frames (take? : List α → Option (β × List α)) (text : List α) : List β × List α := drain take? text.length text

theorem Shortens.nil (shortens : Shortens take?) : take? [] = none := by
  cases taken : take? [] with
  | none => rfl
  | some found => exact absurd (shortens.shorter taken) (Nat.not_lt_zero _)

theorem drain_succ (fuel : ℕ) (text : List α) : drain take? (fuel + 1) text =
    match take? text with
    | none => ([], text)
    | some (frame, rest) => (frame :: (drain take? fuel rest).1, (drain take? fuel rest).2) := rfl

theorem drain_nil (shortens : Shortens take?) (fuel : ℕ) : drain take? fuel [] = ([], []) := by
  cases fuel with
  | zero => rfl
  | succ fuel => rw [drain_succ, shortens.nil]

/-- More fuel than there is text makes no difference. -/
theorem drain_congr (shortens : Shortens take?) {fuel other : ℕ} (enough : text.length ≤ fuel)
    (enough' : text.length ≤ other) : drain take? fuel text = drain take? other text := by
  induction fuel generalizing text other with
  | zero =>
    obtain rfl := List.length_eq_zero_iff.mp (Nat.le_zero.mp enough)
    rw [drain_nil shortens, drain_nil shortens]
  | succ fuel ih =>
    cases other with
    | zero =>
      obtain rfl := List.length_eq_zero_iff.mp (Nat.le_zero.mp enough')
      rw [drain_nil shortens, drain_nil shortens]
    | succ other =>
      rw [drain_succ, drain_succ]
      cases taken : take? text with
      | none => rfl
      | some found =>
        have less := shortens.shorter taken
        simp only [ih (show found.2.length ≤ fuel by omega) (show found.2.length ≤ other by omega)]

theorem drain_of_le (shortens : Shortens take?) {fuel : ℕ} (enough : text.length ≤ fuel) :
    drain take? fuel text = frames take? text :=
  drain_congr shortens enough (Nat.le_refl _)

theorem frames_of_none (none_ : take? text = none) : frames take? text = ([], text) := by
  unfold frames
  cases text with
  | nil => rfl
  | cons head tail => rw [List.length_cons, drain_succ, none_]

theorem frames_of_some (shortens : Shortens take?) (taken : take? text = some (frame, rest)) :
    frames take? text = (frame :: (frames take? rest).1, (frames take? rest).2) := by
  have less := shortens.shorter taken
  cases text with
  | nil => exact absurd less (Nat.not_lt_zero _)
  | cons head tail =>
    rw [frames, List.length_cons, drain_succ, taken]
    simp only [drain_of_le shortens (show rest.length ≤ tail.length from Nat.le_of_lt_succ less)]

/-- No frame is left behind. -/
theorem take?_frames (shortens : Shortens take?) (text : List α) : take? (frames take? text).2 = none := by
  induction size : text.length using Nat.strongRecOn generalizing text with
  | _ size ih =>
    cases taken : take? text with
    | none => rw [frames_of_none taken, taken]
    | some found =>
      rw [frames_of_some shortens taken]
      exact ih found.2.length (size ▸ shortens.shorter taken) found.2 rfl

/-- Frames that are cut out of the text cover it up to what is left of it. -/
theorem flatten_frames {take? : List α → Option (List α × List α)} (shortens : Shortens take?)
    (cuts : ∀ {text frame rest}, take? text = some (frame, rest) → frame ++ rest = text) (text : List α) :
    (frames take? text).1.flatten ++ (frames take? text).2 = text := by
  induction size : text.length using Nat.strongRecOn generalizing text with
  | _ size ih =>
    cases taken : take? text with
    | none => rw [frames_of_none taken, List.flatten_nil, List.nil_append]
    | some found =>
      obtain ⟨frame, rest⟩ := found
      rw [frames_of_some shortens taken, List.flatten_cons, List.append_assoc,
        ih rest.length (size ▸ shortens.shorter taken) rest rfl, cuts taken]

/-- Frames do not depend on how the text arrives. -/
theorem frames_append (stable : PrefixStable take?) (text more : List α) :
    frames take? (text ++ more) = ((frames take? text).1 ++ (frames take? ((frames take? text).2 ++ more)).1,
      (frames take? ((frames take? text).2 ++ more)).2) := by
  induction size : text.length using Nat.strongRecOn generalizing text with
  | _ size ih =>
    cases taken : take? text with
    | none => rw [frames_of_none taken, List.nil_append]
    | some found =>
      obtain ⟨frame, rest⟩ := found
      rw [frames_of_some stable.toShortens taken, frames_of_some stable.toShortens (stable.append more taken),
        ih rest.length (size ▸ stable.shorter taken) rest rfl]
      rfl

end Framing
