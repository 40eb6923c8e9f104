import Mathlib.Data.List.Nodup
import Mathlib.Tactic.Common

/-! # Maps in insertion order

A map keeps its keys in the order of their first insertion. Setting a known key keeps its place. What a
map holds after an operation is stated by what each key yields, so that no proof depends on the order.
-/

namespace JavaScript

universe u v

/-- A `Map`: its entries in enumeration order, each key once. -/
structure JsMap (κ : Type u) (α : Type v) where
  entries : List (κ × α)
  nodup : (entries.map (·.1)).Nodup
deriving DecidableEq

namespace JsMap

variable {κ : Type u} {α : Type v}

def empty : JsMap κ α := ⟨[], List.nodup_nil⟩

def size (map : JsMap κ α) : ℕ := map.entries.length

def keys (map : JsMap κ α) : List κ := map.entries.map (·.1)

def values (map : JsMap κ α) : List α := map.entries.map (·.2)

/-- Delete every entry that a test does not pass. -/
def filter (map : JsMap κ α) (keep : κ → α → Bool) : JsMap κ α where
  entries := map.entries.filter fun entry => keep entry.1 entry.2
  nodup := map.nodup.sublist (List.filter_sublist.map _)

variable [DecidableEq κ]

def get? (map : JsMap κ α) (key : κ) : Option α := (map.entries.find? fun entry => entry.1 = key).map (·.2)

def delete (map : JsMap κ α) (key : κ) : JsMap κ α := map.filter fun known _ => known ≠ key

/-- The entries after a key is set. -/
def setEntries (entries : List (κ × α)) (key : κ) (value : α) : List (κ × α) :=
  if key ∈ entries.map (·.1) then entries.map fun entry => if entry.1 = key then (key, value) else entry
  else entries ++ [(key, value)]

private theorem keys_setEntries (entries : List (κ × α)) (key : κ) (value : α) :
    (setEntries entries key value).map (·.1) =
      if key ∈ entries.map (·.1) then entries.map (·.1) else entries.map (·.1) ++ [key] := by
  unfold setEntries
  split
  · rw [List.map_map]
    apply List.map_congr_left
    intro entry _
    by_cases same : entry.1 = key
    · simp [same]
    · simp [same]
  · simp

def set (map : JsMap κ α) (key : κ) (value : α) : JsMap κ α where
  entries := setEntries map.entries key value
  nodup := by
    rw [keys_setEntries]
    split
    · exact map.nodup
    · next fresh => exact List.nodup_append.mpr ⟨map.nodup, List.nodup_singleton key, by
        intro known member other isKey same
        obtain rfl := List.mem_singleton.mp isKey
        exact fresh (same ▸ member)⟩

variable {map : JsMap κ α} {key other : κ} {value found : α}

/-- A key yields a value exactly when the map has the entry. -/
theorem get?_eq_some : map.get? key = some value ↔ (key, value) ∈ map.entries := by
  unfold get?
  constructor
  · intro yields
    obtain ⟨entry, hit, same⟩ := Option.map_eq_some_iff.mp yields
    have isKey : entry.1 = key := by simpa using List.find?_some hit
    rw [← isKey, ← same]
    exact List.mem_of_find?_eq_some hit
  · intro member
    have unique : ∀ entry ∈ map.entries, entry.1 = key → entry = (key, value) := by
      intro entry known same
      exact List.inj_on_of_nodup_map map.nodup known member same
    cases hit : map.entries.find? fun entry => entry.1 = key with
    | none => simpa using List.find?_eq_none.mp hit _ member
    | some entry =>
      rw [unique entry (List.mem_of_find?_eq_some hit) (by simpa using List.find?_some hit)]
      rfl

theorem get?_eq_none : map.get? key = none ↔ key ∉ map.keys := by
  rw [← Option.not_isSome_iff_eq_none, Option.isSome_iff_exists]
  simp [get?_eq_some, keys]

/-- Maps that yield the same for every value agree on a key. -/
private theorem get?_congr {other : Option α} (same : ∀ value, (key, value) ∈ map.entries ↔ other = some value) :
    map.get? key = other := by
  ext value
  exact (get?_eq_some).trans (same value)

@[simp] theorem get?_empty (key : κ) : (empty : JsMap κ α).get? key = none := rfl

theorem get?_filter (map : JsMap κ α) (keep : κ → α → Bool) (key : κ) :
    (map.filter keep).get? key = (map.get? key).filter (keep key) := by
  apply get?_congr
  intro value
  rw [Option.filter_eq_some_iff, get?_eq_some]
  exact List.mem_filter

@[simp] theorem get?_delete_self (map : JsMap κ α) (key : κ) : (map.delete key).get? key = none := by
  rw [delete, get?_filter]
  cases map.get? key <;> simp

theorem get?_delete_of_ne (map : JsMap κ α) (differ : other ≠ key) : (map.delete key).get? other = map.get? other := by
  rw [delete, get?_filter]
  cases map.get? other <;> simp [differ]

@[simp] theorem get?_set_self (map : JsMap κ α) (key : κ) (value : α) : (map.set key value).get? key = some value := by
  apply (get?_eq_some).mpr
  show (key, value) ∈ setEntries map.entries key value
  unfold setEntries
  split
  · next known =>
    obtain ⟨entry, member, same⟩ := List.mem_map.mp known
    exact List.mem_map.mpr ⟨entry, member, if_pos same⟩
  · exact List.mem_append_right _ (List.mem_singleton_self _)

theorem get?_set_of_ne (map : JsMap κ α) (value : α) (differ : other ≠ key) :
    (map.set key value).get? other = map.get? other := by
  apply get?_congr
  intro found
  rw [get?_eq_some]
  show (other, found) ∈ setEntries map.entries key value ↔ _
  unfold setEntries
  split
  · rw [List.mem_map]
    constructor
    · rintro ⟨entry, member, same⟩
      split at same
      · cases same
        exact absurd rfl differ
      · exact same ▸ member
    · intro member
      exact ⟨_, member, if_neg differ⟩
  · simp [differ]

end JsMap

end JavaScript
