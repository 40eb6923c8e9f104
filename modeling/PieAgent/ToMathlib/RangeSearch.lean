import Mathlib.Data.List.Range
import Mathlib.Order.Bounds.Basic

/-! # Searching a range of indices

A loop over an index range that returns at its first hit finds the least index that passes the
test, and the same loop run downwards finds the greatest. Mathlib states the first fact with an
explicit minimality clause and has no counterpart for the second.
-/

namespace List

variable {first count : ℕ} {test : ℕ → Bool}

theorem find?_reverse_range'_isGreatest {found : ℕ} :
    (range' first count).reverse.find? test = some found ↔
      IsGreatest {i | first ≤ i ∧ i < first + count ∧ test i} found := by
  induction count with
  | zero =>
    simp only [range'_zero, reverse_nil, find?_nil, reduceCtorEq, false_iff]
    rintro ⟨⟨lower, upper, _⟩, _⟩
    omega
  | succ count ih =>
    rw [range'_concat, reverse_append, reverse_singleton, singleton_append, find?_cons]
    cases hit : test (first + 1 * count) with
    | true =>
      simp only [Nat.one_mul] at hit ⊢
      constructor
      · rintro ⟨⟩
        exact ⟨⟨by omega, by omega, hit⟩, fun other member => by have := member.2.1; omega⟩
      · rintro ⟨⟨_, upper, _⟩, greatest⟩
        have := greatest (a := first + count) ⟨by omega, by omega, hit⟩
        have : found = first + count := by omega
        rw [this]
    | false =>
      simp only [Nat.one_mul] at hit ⊢
      rw [ih]
      have same : {i | first ≤ i ∧ i < first + (count + 1) ∧ test i} =
          {i | first ≤ i ∧ i < first + count ∧ test i} := by
        ext i
        constructor
        · rintro ⟨lower, upper, other⟩
          have : i ≠ first + count := by
            rintro rfl
            simp [hit] at other
          exact ⟨lower, by omega, other⟩
        · rintro ⟨lower, upper, other⟩
          exact ⟨lower, by omega, other⟩
      rw [same]

theorem find?_reverse_range'_eq_none_iff :
    (range' first count).reverse.find? test = none ↔
      ∀ i, first ≤ i → i < first + count → test i = false := by
  simp [find?_eq_none, mem_range'_1]

end List
