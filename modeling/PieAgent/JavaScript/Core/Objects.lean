import PieAgent.JavaScript.Core.Strings
import PieAgent.JavaScript.Core.Maps

/-! # Objects as lists of their own fields

Assigning `undefined` to a field and deleting it are the same to `JSON.stringify`, so that both delete it here. What an
object holds after an assignment is stated by what each field yields.
-/

namespace JavaScript

/-- The own fields of an object in their order. -/
abbrev JsObject := List (JsString × JsonValue)

/-- `object[key]`, absent for `undefined`. -/
def getField (object : JsObject) (key : JsString) : Option JsonValue :=
  (object.find? fun entry => entry.1 = key).map (·.2)

/-- `object[key] = value`. -/
def assign (object : JsObject) (key : JsString) : Option JsonValue → JsObject
  | some value => JsMap.setEntries object key value
  | none => object.filter fun entry => entry.1 ≠ key

/-- The fields that `{ ...value }` copies. -/
def spread : JsonValue → JsObject
  | .obj members => members
  | .arr items => items.mapIdx fun index item => (digits index, item)
  | .str text => text.mapIdx fun index unit => (digits index, .str [unit])
  | _ => []

/-- `typeof value === "object" && value !== null` -/
def isObject : JsonValue → Bool
  | .obj _ | .arr _ => true
  | _ => false

def isTruthy : JsonValue → Bool
  | .null => false
  | .bool value => value
  | .num value => value ≠ .finite 0
  | .str text => text ≠ []
  | .arr _ | .obj _ => true

variable {object : JsObject} {key other : JsString} {value : JsonValue}

@[simp] theorem getField_nil (key : JsString) : getField [] key = none := rfl

theorem getField_cons (entry : JsString × JsonValue) (object : JsObject) (key : JsString) :
    getField (entry :: object) key = if entry.1 = key then some entry.2 else getField object key := by
  rw [getField, List.find?_cons]
  by_cases same : entry.1 = key
  · rw [if_pos same]
    simp only [same, decide_true, Option.map_some]
  · rw [if_neg same]
    simp only [same, decide_false]
    rfl

theorem getField_append (front back : JsObject) (key : JsString) :
    getField (front ++ back) key = (getField front key).or (getField back key) := by
  induction front with
  | nil => rfl
  | cons entry front ih =>
    rw [List.cons_append, getField_cons, getField_cons, ih]
    split
    · rfl
    · rfl

theorem getField_eq_none : getField object key = none ↔ ∀ entry ∈ object, entry.1 ≠ key := by
  rw [getField, Option.map_eq_none_iff, List.find?_eq_none]
  simp only [decide_eq_true_eq, ne_eq]

private theorem getField_filter (object : JsObject) (key other : JsString) :
    getField (object.filter fun entry => entry.1 ≠ key) other = if other = key then none else getField object other := by
  induction object with
  | nil => simp
  | cons entry object ih =>
    by_cases deleted : entry.1 = key
    · rw [List.filter_cons_of_neg (by simpa using deleted), ih, getField_cons, deleted]
      by_cases same : other = key
      · rw [if_pos same, if_pos same]
      · rw [if_neg same, if_neg same, if_neg (Ne.symm same)]
    · rw [List.filter_cons_of_pos (by simpa using deleted), getField_cons, getField_cons, ih]
      by_cases same : other = key
      · rw [if_pos same, if_pos same, if_neg (same ▸ deleted)]
      · rw [if_neg same, if_neg same]

private theorem getField_replace_self (known : key ∈ object.map (·.1)) :
    getField (object.map fun entry => if entry.1 = key then (key, value) else entry) key = some value := by
  induction object with
  | nil => cases known
  | cons entry object ih =>
    rw [List.map_cons, getField_cons]
    by_cases here : entry.1 = key
    · rw [if_pos here, if_pos rfl]
    · rw [if_neg here, if_neg here]
      exact ih ((List.mem_cons.mp known).resolve_left (Ne.symm here))

private theorem getField_replace_of_ne (differs : other ≠ key) :
    getField (object.map fun entry => if entry.1 = key then (key, value) else entry) other = getField object other := by
  induction object with
  | nil => rfl
  | cons entry object ih =>
    rw [List.map_cons, getField_cons, getField_cons, ih]
    by_cases here : entry.1 = key
    · rw [if_pos here, if_neg differs.symm, if_neg (here ▸ differs.symm)]
    · rw [if_neg here]

/-- A field yields what was assigned to it last. -/
theorem getField_assign (object : JsObject) (key : JsString) (value : Option JsonValue) (other : JsString) :
    getField (assign object key value) other = if other = key then value else getField object other := by
  cases value with
  | none => exact getField_filter object key other
  | some value =>
    rw [assign, JsMap.setEntries]
    split
    next known =>
      by_cases same : other = key
      · rw [if_pos same, same, getField_replace_self known]
      · rw [if_neg same, getField_replace_of_ne same]
    next fresh =>
      rw [getField_append, getField_cons, getField_nil]
      by_cases same : other = key
      · have absent : getField object key = none :=
          (getField_eq_none).mpr fun entry member same => fresh (same ▸ List.mem_map_of_mem member)
        rw [if_pos same, if_pos same.symm, same, absent, Option.none_or]
      · rw [if_neg same, if_neg (Ne.symm same), Option.or_none]

@[simp] theorem getField_assign_self (object : JsObject) (key : JsString) (value : Option JsonValue) :
    getField (assign object key value) key = value := by
  rw [getField_assign, if_pos rfl]

theorem getField_assign_of_ne (object : JsObject) (value : Option JsonValue) (differs : other ≠ key) :
    getField (assign object key value) other = getField object other := by
  rw [getField_assign, if_neg differs]

/-- Assigning one field after another, each from the same source. -/
theorem getField_foldl_assign (keys : List JsString) (source : JsString → Option JsonValue) (object : JsObject)
    (other : JsString) :
    getField (keys.foldl (fun object key => assign object key (source key)) object) other =
      if other ∈ keys then source other else getField object other := by
  induction keys generalizing object with
  | nil => rfl
  | cons key keys ih =>
    rw [List.foldl_cons, ih, getField_assign]
    by_cases here : other = key
    · subst here
      simp
    · simp [here]

private theorem getField_mapIdx {α : Type} {key : JsString} (items : List α) (value : α → JsonValue)
    (other : ∃ unit ∈ key, ¬unit ≤ 0x39) :
    getField (items.mapIdx fun index item => (digits index, value item)) key = none := by
  refine (getField_eq_none).mpr fun entry member same => ?_
  obtain ⟨index, _, rfl⟩ := List.mem_mapIdx.mp member
  obtain ⟨unit, unit_, above⟩ := other
  have decimal := isDecimal_of_mem_digits (same ▸ unit_)
  rw [isDecimal, Bool.and_eq_true, decide_eq_true_eq, decide_eq_true_eq] at decimal
  exact above decimal.2

/-- Items are copied under their indices. -/
theorem getField_spread (value : JsonValue) (other : ∃ unit ∈ key, ¬unit ≤ 0x39)
    (absent : ∀ fields, value = .obj fields → getField fields key = none) : getField (spread value) key = none := by
  cases value with
  | obj fields => exact absent fields rfl
  | arr items => exact getField_mapIdx items id other
  | str text => exact getField_mapIdx text (fun unit => .str [unit]) other
  | null => rfl
  | bool _ => rfl
  | num _ => rfl

end JavaScript
