import Mathlib.Algebra.Ring.Nat
import Mathlib.Data.Nat.Basic
import Mathlib.Tactic.Common

/-! # Numbers in lexicographic order

The places of two numbers, the highest first, stand in lexicographic order as the numbers do. Mathlib's digits begin
with the lowest place and have no leading zeros.
-/

namespace List

variable {α : Type*} [LT α] {first second rest more : List α}

/-- A strict order is decided before two lists of one length end. -/
theorem append_lt_append (less : first < second) (same : first.length = second.length) :
    first ++ rest < second ++ more := by
  induction first generalizing second with
  | nil =>
    obtain rfl := List.length_eq_zero_iff.mp same.symm
    exact absurd less (List.not_lt_nil _)
  | cons a first ih =>
    cases second with
    | nil => cases same
    | cons b second =>
      rw [List.cons_append, List.cons_append, List.cons_lt_cons_iff]
      rcases List.cons_lt_cons_iff.mp less with before | ⟨equal, behind⟩
      · exact .inl before
      · exact .inr ⟨equal, ih behind (Nat.succ.inj same)⟩

end List

namespace Nat

/-- The lowest places of a number in a base, the highest of them first. -/
def places (base : ℕ) : ℕ → ℕ → List ℕ
  | 0, _ => []
  | count + 1, n => n / base ^ count % base :: places base count n

@[simp]
theorem length_places (base count n : ℕ) : (places base count n).length = count := by
  induction count with
  | zero => rfl
  | succ count ih => rw [places, List.length_cons, ih]

/-- A smaller number has smaller places. -/
theorem places_lt {base count n m : ℕ} (less : n % base ^ count < m % base ^ count) :
    places base count n < places base count m := by
  induction count with
  | zero => simp [Nat.mod_one] at less
  | succ count ih =>
    rw [Nat.mod_pow_succ, Nat.mod_pow_succ] at less
    rw [places, places, List.cons_lt_cons_iff]
    rcases Nat.lt_trichotomy (n / base ^ count % base) (m / base ^ count % base) with before | same | behind
    · exact .inl before
    · rw [same] at less
      exact .inr ⟨same, ih (Nat.lt_of_add_lt_add_right less)⟩
    · have positive : 0 < base ^ count := by
        refine Nat.pos_of_ne_zero fun zero => ?_
        simp [zero] at behind
      have lower : base ^ count * (m / base ^ count % base + 1) ≤ base ^ count * (n / base ^ count % base) :=
        Nat.mul_le_mul_left _ behind
      have small := Nat.mod_lt m positive
      rw [Nat.mul_add, Nat.mul_one] at lower
      generalize n % base ^ count = low at less
      omega

end Nat
