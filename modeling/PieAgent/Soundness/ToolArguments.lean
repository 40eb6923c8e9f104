import PieAgent.Model.Core.ToolValidation

/-! # Validated arguments satisfy their schema

Coercion turns records into records and other values into others. Records are checked after all coercions, whichever
references they are; a value that is no record and has been coerced is returned unchecked when the coerced one fails.
What coercion makes of such a value is described by rules of its own.
-/

namespace PieAgent.Soundness.ToolArguments

open JavaScript Model ToolValidation

variable {κ ν : Type} (numbers : Numbers ν) (library : Library κ ν)

/-- Validation throws, or returns a value that the compiled schema accepts. -/
def Validates (tool : Tool κ) (toolCall : ToolCall ν) : Prop :=
  ∀ value, validateToolArguments numbers library tool toolCall = .ok value →
    ∃ check, library.compile tool.parameters = some check ∧ check value = true

section Rules

variable (compile : JsonSchema κ → Option (Value ν → Bool))

/-- A value takes the types of a schema: it stays when one of several types is its own or when no type changes it, and
the first type that changes it decides otherwise. -/
inductive TakesType (types : List JsString) (value : Value ν) : Value ν → Prop where
  | matches (several : 1 < types.length) (own : ∃ type ∈ types, matchesJsonType numbers value type = true) :
      TakesType types value value
  | stays (other : types.length ≤ 1 ∨ ∀ type ∈ types, matchesJsonType numbers value type = false)
      (unchanged : ∀ type ∈ types, strictEquals numbers true (coercePrimitiveByType numbers value type) value = true) :
      TakesType types value value
  | changes (before later : List JsString) (type : JsString) (split : types = before ++ type :: later)
      (other : types.length ≤ 1 ∨ ∀ type ∈ types, matchesJsonType numbers value type = false)
      (unchanged : ∀ type ∈ before, strictEquals numbers true (coercePrimitiveByType numbers value type) value = true)
      (changed : strictEquals numbers true (coercePrimitiveByType numbers value type) value = false) :
      TakesType types value (coercePrimitiveByType numbers value type)

mutual

/-- What a schema makes of a value that is no record. -/
inductive Becomes : JsonSchema κ → Value ν → Value ν → Prop where
  | bool (value : Bool) (args : Value ν) : Becomes (.bool value) args args
  | object {types : List JsString} {properties : List (JsString × JsonSchema κ)} {items : Items κ}
      {additionalProperties : Option (JsonSchema κ)} {allOf anyOf oneOf : List (JsonSchema κ)} {others : κ}
      {args first second third last : Value ν} (all : BecomesAll allOf args first) (any : BecomesOne anyOf first second)
      (one : BecomesOne oneOf second third) (typed : TakesType numbers types third last) :
      Becomes (.object types properties items additionalProperties allOf anyOf oneOf others) args last

/-- One schema after another. -/
inductive BecomesAll : List (JsonSchema κ) → Value ν → Value ν → Prop where
  | nil (args : Value ν) : BecomesAll [] args args
  | cons {schema : JsonSchema κ} {rest : List (JsonSchema κ)} {args next last : Value ν} (head : Becomes schema args next)
      (tail : BecomesAll rest next last) : BecomesAll (schema :: rest) args last

/-- The first schema that accepts what it makes of the value. -/
inductive BecomesOne : List (JsonSchema κ) → Value ν → Value ν → Prop where
  | nil (args : Value ν) : BecomesOne [] args args
  | accepted {schema : JsonSchema κ} {rest : List (JsonSchema κ)} {args next : Value ν} (head : Becomes schema args next)
      (accepted : accepts compile schema next = true) : BecomesOne (schema :: rest) args next
  | rejected {schema : JsonSchema κ} {rest : List (JsonSchema κ)} {args next last : Value ν}
      (head : Becomes schema args next) (rejected : accepts compile schema next = false)
      (tail : BecomesOne rest args last) : BecomesOne (schema :: rest) args last

end

end Rules

section Types

private theorem coercePrimitiveByType_record {value : Value ν} (record : isRecord value = true) (type : JsString) :
    coercePrimitiveByType numbers value type = value := by
  unfold coercePrimitiveByType
  cases value with
  | arr items => repeat' (split <;> try rfl)
  | obj members => repeat' (split <;> try rfl)
  | _ => cases record

private theorem isRecord_coerceToNumber {value : Value ν} (plain : isRecord value = false) (accepts : ν → Bool) :
    isRecord (coerceToNumber numbers accepts value) = false := by
  cases value with
  | null => rfl
  | bool flag => cases flag <;> rfl
  | num number => rfl
  | str text =>
    rw [coerceToNumber]
    split <;> rfl
  | _ => cases plain

private theorem isRecord_coerceToBoolean {value : Value ν} (plain : isRecord value = false) :
    isRecord (coerceToBoolean numbers value) = false := by
  cases value with
  | null => rfl
  | bool flag => rfl
  | num number =>
    rw [coerceToBoolean]
    split
    · rfl
    · split <;> rfl
  | str text =>
    rw [coerceToBoolean]
    split
    · rfl
    · split <;> rfl
  | _ => cases plain

private theorem isRecord_coerceToString {value : Value ν} (plain : isRecord value = false) :
    isRecord (coerceToString numbers value) = false := by
  cases value with
  | bool flag => cases flag <;> rfl
  | null | num _ | str _ => rfl
  | _ => cases plain

private theorem isRecord_coerceToNull {value : Value ν} (plain : isRecord value = false) :
    isRecord (coerceToNull numbers value) = false := by
  cases value with
  | null => rfl
  | bool flag => cases flag <;> rfl
  | num number =>
    rw [coerceToNull]
    split <;> rfl
  | str text => cases text <;> rfl
  | _ => cases plain

/-- Conversion to a type turns records into records and other values into others. -/
private theorem isRecord_coercePrimitiveByType (value : Value ν) (type : JsString) :
    isRecord (coercePrimitiveByType numbers value type) = isRecord value := by
  cases kind : isRecord value with
  | true => rw [coercePrimitiveByType_record numbers kind, kind]
  | false =>
    unfold coercePrimitiveByType
    split
    · exact isRecord_coerceToNumber numbers kind _
    split
    · exact isRecord_coerceToNumber numbers kind _
    split
    · exact isRecord_coerceToBoolean numbers kind
    split
    · exact isRecord_coerceToString numbers kind
    split
    · exact isRecord_coerceToNull numbers kind
    · exact kind

private theorem coerceByTypes_cases (types : List JsString) (value : Value ν) :
    (coerceByTypes numbers value types = value ∧
        ∀ type ∈ types, strictEquals numbers true (coercePrimitiveByType numbers value type) value = true) ∨
      ∃ before type later, types = before ++ type :: later ∧
        coerceByTypes numbers value types = coercePrimitiveByType numbers value type ∧
        (∀ type ∈ before, strictEquals numbers true (coercePrimitiveByType numbers value type) value = true) ∧
        strictEquals numbers true (coercePrimitiveByType numbers value type) value = false := by
  induction types with
  | nil => exact .inl ⟨rfl, nofun⟩
  | cons type types ih =>
    rw [coerceByTypes]
    split
    · next same =>
      rcases ih with ⟨stays, unchanged⟩ | ⟨before, other, later, rfl, changes, unchanged, changed⟩
      · exact .inl ⟨stays, List.forall_mem_cons.mpr ⟨same, unchanged⟩⟩
      · exact .inr ⟨type :: before, other, later, rfl, changes, List.forall_mem_cons.mpr ⟨same, unchanged⟩, changed⟩
    · next changed => exact .inr ⟨[], type, types, rfl, rfl, nofun, by simpa using changed⟩

private theorem isRecord_coerceToTypes (types : List JsString) (value : Value ν) :
    isRecord (coerceToTypes numbers types value) = isRecord value := by
  unfold coerceToTypes
  split
  · rfl
  · rcases coerceByTypes_cases numbers types value with ⟨stays, _⟩ | ⟨_, type, _, _, changes, _⟩
    · rw [stays]
    · rw [changes, isRecord_coercePrimitiveByType]

/-- The first type of a list that changes the value is the only one. -/
private theorem first_type_unique {value : Value ν} {before before' later later' : List JsString} {type type' : JsString}
    (same : before ++ type :: later = before' ++ type' :: later')
    (unchanged : ∀ type ∈ before, strictEquals numbers true (coercePrimitiveByType numbers value type) value = true)
    (changed : strictEquals numbers true (coercePrimitiveByType numbers value type) value = false)
    (unchanged' : ∀ type ∈ before', strictEquals numbers true (coercePrimitiveByType numbers value type) value = true)
    (changed' : strictEquals numbers true (coercePrimitiveByType numbers value type') value = false) : type = type' := by
  rcases List.append_eq_append_iff.mp same with ⟨more, rfl, rest⟩ | ⟨more, rfl, rest⟩
  · cases more with
    | nil => exact (List.cons.inj rest).1
    | cons other more =>
      obtain rfl := (List.cons.inj rest).1
      have := unchanged' type (by simp)
      exact absurd (this.symm.trans changed) (by decide)
  · cases more with
    | nil => exact (List.cons.inj rest).1.symm
    | cons other more =>
      obtain rfl := (List.cons.inj rest).1
      have := unchanged type' (by simp)
      exact absurd (this.symm.trans changed') (by decide)

private theorem takesType_iff (types : List JsString) (value last : Value ν) :
    TakesType numbers types value last ↔ last = coerceToTypes numbers types value := by
  have other_iff : (types.length ≤ 1 ∨ ∀ type ∈ types, matchesJsonType numbers value type = false) ↔
      ¬(1 < types.length ∧ types.any (matchesJsonType numbers value) = true) := by
    rw [not_and_or, not_lt, Bool.not_eq_true, List.any_eq_false]
    simp only [Bool.not_eq_true]
  constructor
  · intro takes
    rw [coerceToTypes]
    cases takes with
    | «matches» several own => rw [if_pos ⟨several, List.any_eq_true.mpr own⟩]
    | stays other unchanged =>
      rw [if_neg (other_iff.mp other)]
      rcases coerceByTypes_cases numbers types value with ⟨same, _⟩ | ⟨before, type, later, rfl, _, _, changed⟩
      · exact same.symm
      · exact absurd ((unchanged type (by simp)).symm.trans changed) (by decide)
    | changes before later type split other unchanged changed =>
      rw [if_neg (other_iff.mp other)]
      rcases coerceByTypes_cases numbers types value with ⟨_, none_⟩ | ⟨before', type', later', split', same, rest⟩
      · exact absurd ((none_ type (by simp [split])).symm.trans changed) (by decide)
      · rw [same, first_type_unique numbers (split.symm.trans split') unchanged changed rest.1 rest.2]
  · rintro rfl
    rw [coerceToTypes]
    split
    · next own => exact .matches own.1 (List.any_eq_true.mp own.2)
    · next other =>
      rcases coerceByTypes_cases numbers types value with ⟨same, none_⟩ | ⟨before, type, later, split, same, rest⟩
      · rw [same]
        exact .stays (other_iff.mpr other) none_
      · rw [same]
        exact .changes before later type split (other_iff.mpr other) rest.1 rest.2

end Types

section Records

variable (compile : JsonSchema κ → Option (Value ν → Bool))

mutual

/-- Coercion turns records into records and other values into others. -/
private theorem isRecord_coerce : ∀ (schema : JsonSchema κ) (value : Value ν),
    isRecord (coerceWithJsonSchema numbers compile schema value).value = isRecord value
  | .bool _, _ => rfl
  | .object types properties items additionalProperties allOf anyOf oneOf _, value => by
    have all := isRecord_all allOf value
    have any := isRecord_union anyOf (coerceWithAll numbers compile allOf value).value
    have one := isRecord_union oneOf
      (coerceWithUnionSchema numbers compile anyOf (coerceWithAll numbers compile allOf value).value).value
    have typed := isRecord_coerceToTypes numbers types (coerceWithUnionSchema numbers compile oneOf
      (coerceWithUnionSchema numbers compile anyOf (coerceWithAll numbers compile allOf value).value).value).value
    rw [one, any, all] at typed
    rw [coerceWithJsonSchema]
    dsimp only [Coerced.andThen]
    rw [← typed]
    split
    · next same =>
      rw [same]
      split <;> rfl
    · next same =>
      rw [same]
      split <;> rfl
    · rfl

private theorem isRecord_all : ∀ (schemas : List (JsonSchema κ)) (value : Value ν),
    isRecord (coerceWithAll numbers compile schemas value).value = isRecord value
  | [], _ => rfl
  | schema :: rest, value => by
    rw [coerceWithAll, Coerced.andThen, isRecord_all rest, isRecord_coerce schema]

private theorem isRecord_union : ∀ (schemas : List (JsonSchema κ)) (value : Value ν),
    isRecord (coerceWithUnionSchema numbers compile schemas value).value = isRecord value
  | [], _ => rfl
  | schema :: rest, value => by
    rw [coerceWithUnionSchema]
    split
    · exact isRecord_coerce schema value
    · exact isRecord_union rest value

end

mutual

/-- The rules describe the coercion of a value that is no record. -/
private theorem becomes_iff : ∀ (schema : JsonSchema κ) (value last : Value ν), isRecord value = false →
    (Becomes numbers compile schema value last ↔ last = (coerceWithJsonSchema numbers compile schema value).value)
  | .bool _, value, last, _ => by
    rw [coerceWithJsonSchema]
    constructor
    · rintro ⟨⟩
      rfl
    · rintro rfl
      exact .bool _ _
  | .object types properties items additionalProperties allOf anyOf oneOf others, value, last, plain => by
    have all := isRecord_all numbers compile allOf value
    have any := isRecord_union numbers compile anyOf (coerceWithAll numbers compile allOf value).value
    have one := isRecord_union numbers compile oneOf
      (coerceWithUnionSchema numbers compile anyOf (coerceWithAll numbers compile allOf value).value).value
    have typed := isRecord_coerceToTypes numbers types (coerceWithUnionSchema numbers compile oneOf
      (coerceWithUnionSchema numbers compile anyOf (coerceWithAll numbers compile allOf value).value).value).value
    rw [plain] at all
    rw [all] at any
    rw [any] at one
    rw [one] at typed
    have value_ : (coerceWithJsonSchema numbers compile (.object types properties items additionalProperties allOf anyOf
        oneOf others) value).value = coerceToTypes numbers types (coerceWithUnionSchema numbers compile oneOf
          (coerceWithUnionSchema numbers compile anyOf (coerceWithAll numbers compile allOf value).value).value).value := by
      rw [coerceWithJsonSchema]
      dsimp only [Coerced.andThen]
      split
      · next same =>
        rw [same] at typed
        cases typed
      · next same =>
        rw [same] at typed
        cases typed
      · rfl
    rw [value_]
    constructor
    · intro becomes
      cases becomes with
      | object first second third fourth =>
        obtain rfl := (becomesAll_iff allOf _ _ plain).mp first
        obtain rfl := (becomesOne_iff anyOf _ _ all).mp second
        obtain rfl := (becomesOne_iff oneOf _ _ any).mp third
        exact (takesType_iff numbers types _ _).mp fourth
    · rintro rfl
      exact .object ((becomesAll_iff allOf _ _ plain).mpr rfl) ((becomesOne_iff anyOf _ _ all).mpr rfl)
        ((becomesOne_iff oneOf _ _ any).mpr rfl) ((takesType_iff numbers types _ _).mpr rfl)

private theorem becomesAll_iff : ∀ (schemas : List (JsonSchema κ)) (value last : Value ν), isRecord value = false →
    (BecomesAll numbers compile schemas value last ↔ last = (coerceWithAll numbers compile schemas value).value)
  | [], value, last, _ => by
    rw [coerceWithAll]
    constructor
    · rintro ⟨⟩
      rfl
    · rintro rfl
      exact .nil _
  | schema :: rest, value, last, plain => by
    have next := (isRecord_coerce numbers compile schema value).trans plain
    rw [coerceWithAll, Coerced.andThen]
    constructor
    · intro becomes
      cases becomes with
      | cons head tail =>
        obtain rfl := (becomes_iff schema _ _ plain).mp head
        exact (becomesAll_iff rest _ _ next).mp tail
    · rintro rfl
      exact .cons ((becomes_iff schema _ _ plain).mpr rfl) ((becomesAll_iff rest _ _ next).mpr rfl)

private theorem becomesOne_iff : ∀ (schemas : List (JsonSchema κ)) (value last : Value ν), isRecord value = false →
    (BecomesOne numbers compile schemas value last ↔ last = (coerceWithUnionSchema numbers compile schemas value).value)
  | [], value, last, _ => by
    rw [coerceWithUnionSchema]
    constructor
    · rintro ⟨⟩
      rfl
    · rintro rfl
      exact .nil _
  | schema :: rest, value, last, plain => by
    rw [coerceWithUnionSchema]
    constructor
    · intro becomes
      cases becomes with
      | accepted head accepted =>
        obtain rfl := (becomes_iff schema _ _ plain).mp head
        rw [if_pos accepted]
      | rejected head rejected tail =>
        obtain rfl := (becomes_iff schema _ _ plain).mp head
        rw [if_neg (by rw [rejected]; decide)]
        exact (becomesOne_iff rest _ _ plain).mp tail
    · rintro rfl
      split
      · next accepted => exact .accepted ((becomes_iff schema _ _ plain).mpr rfl) accepted
      · next rejected =>
        exact .rejected ((becomes_iff schema _ _ plain).mpr rfl) (by simpa using rejected)
          ((becomesOne_iff rest _ _ plain).mpr rfl)

end

end Records

private theorem isRecord_convert (schema : JsonSchema κ) (value : Value ν) :
    isRecord (convert library schema value) = isRecord value := by
  cases value <;> rfl

private theorem convert_of_plain (schema : JsonSchema κ) {value : Value ν} (plain : isRecord value = false) :
    convert library schema value = value := by
  cases value with
  | arr _ | obj _ => cases plain
  | _ => rfl

private theorem checkArguments_ok {tool : Tool κ} {toolCall : ToolCall ν} {check : Value ν → Bool} {args value : Value ν}
    (returned : checkArguments library tool toolCall check args = .ok value) : check value = true := by
  rw [checkArguments] at returned
  split at returned
  · next passed =>
    cases returned
    exact passed
  · cases returned

private theorem strictEquals_plain {value : Value ν} (plain : isRecord value = false) (reference : Bool)
    (coerced : Value ν) : strictEquals numbers reference coerced value = strictEquals numbers true coerced value := by
  cases value with
  | arr _ | obj _ => cases plain
  | _ => cases coerced <;> rfl

/-- A primitive that coercion changes is returned when the schema does not accept the coerced one. -/
private theorem validateToolArguments_changed {tool : Tool κ} {toolCall : ToolCall ν} {check : Value ν → Bool}
    {coerced : Value ν} (compiles : library.compile tool.parameters = some check) (json : tool.hasTypeBoxMetadata = false)
    (object : isJsonSchemaObject tool.parameters = true) (plain : isRecord toolCall.arguments = false)
    (becomes : Becomes numbers library.compile tool.parameters toolCall.arguments coerced)
    (changed : strictEquals numbers true coerced toolCall.arguments = false) :
    validateToolArguments numbers library tool toolCall =
      .ok (if check coerced then coerced else toolCall.arguments) := by
  obtain rfl := (becomes_iff numbers library.compile tool.parameters _ _ plain).mp becomes
  rw [← strictEquals_plain numbers plain (!(coerceWithJsonSchema numbers library.compile tool.parameters
    toolCall.arguments).fresh)] at changed
  simp only [validateToolArguments, compiles, convert_of_plain library tool.parameters plain, json, object, changed,
    plain, Bool.not_false, Bool.and_self, Bool.false_and, if_true, if_false, Bool.false_eq_true]

/-- In every other case what is returned has been checked. -/
private theorem checked_of_ok {tool : Tool κ} {toolCall : ToolCall ν} {check : Value ν → Bool} {value : Value ν}
    (compiles : library.compile tool.parameters = some check)
    (returned : validateToolArguments numbers library tool toolCall = .ok value)
    (kept : tool.hasTypeBoxMetadata = false → isJsonSchemaObject tool.parameters = true →
      isRecord toolCall.arguments = false →
      strictEquals numbers true (coerceWithJsonSchema numbers library.compile tool.parameters toolCall.arguments).value
        toolCall.arguments = true) : check value = true := by
  rw [validateToolArguments] at returned
  simp only [compiles] at returned
  split at returned
  · next json =>
    rw [Bool.and_eq_true, Bool.not_eq_true'] at json
    split at returned
    · exact checkArguments_ok library returned
    next changed =>
      have record : isRecord toolCall.arguments = true := by
        by_contra plain
        rw [Bool.not_eq_true] at plain
        rw [convert_of_plain library _ plain, strictEquals_plain numbers plain, kept json.1 json.2 plain] at changed
        exact changed rfl
      have both : (isRecord (convert library tool.parameters toolCall.arguments) && isRecord (coerceWithJsonSchema numbers
          library.compile tool.parameters (convert library tool.parameters toolCall.arguments)).value) = true := by
        rw [isRecord_coerce, isRecord_convert, record, Bool.and_self]
      rw [if_pos both] at returned
      exact checkArguments_ok library returned
  · exact checkArguments_ok library returned

/-- Validation is sound exactly when no primitive is turned into another one by the rules of coercion while the schema
accepts neither of the two. -/
theorem validates_iff (tool : Tool κ) (toolCall : ToolCall ν) : Validates numbers library tool toolCall ↔
    ∀ check coerced, library.compile tool.parameters = some check → tool.hasTypeBoxMetadata = false →
      isJsonSchemaObject tool.parameters = true → isRecord toolCall.arguments = false →
      Becomes numbers library.compile tool.parameters toolCall.arguments coerced →
      strictEquals numbers true coerced toolCall.arguments = false →
      check coerced = true ∨ check toolCall.arguments = true := by
  constructor
  · intro validates check coerced compiles json object plain becomes changed
    obtain ⟨check', same, passed⟩ := validates _
      (validateToolArguments_changed numbers library compiles json object plain becomes changed)
    obtain rfl := Option.some.inj (same.symm.trans compiles)
    split at passed
    · exact .inl passed
    · exact .inr passed
  · intro accepted value returned
    cases compiles : library.compile tool.parameters with
    | none => simp [validateToolArguments, compiles] at returned
    | some check =>
      refine ⟨check, rfl, ?_⟩
      by_cases unchecked : tool.hasTypeBoxMetadata = false ∧ isJsonSchemaObject tool.parameters = true ∧
          isRecord toolCall.arguments = false ∧ strictEquals numbers true
            (coerceWithJsonSchema numbers library.compile tool.parameters toolCall.arguments).value
            toolCall.arguments = false
      · obtain ⟨json, object, plain, changed⟩ := unchecked
        have becomes := (becomes_iff numbers library.compile tool.parameters _ _ plain).mpr rfl
        rw [validateToolArguments_changed numbers library compiles json object plain becomes changed] at returned
        cases returned
        split
        · next passed => exact passed
        · next failed =>
          exact (accepted check _ compiles json object plain becomes changed).resolve_left failed
      · refine checked_of_ok numbers library compiles returned fun json object plain => ?_
        by_contra changed
        exact unchecked ⟨json, object, plain, by simpa using changed⟩

/-- Whole numbers and `NaN`. Of the texts only two are read. -/
def exampleNumbers : Numbers (Option ℤ) where
  zero := some 0
  one := some 1
  ofText text := if text = js "0" then some 0 else if text = js "1" then some 1 else none
  toText number := match number with
    | none => js "NaN"
    | some number => (if number < 0 then js "-" else []) ++ digits number.natAbs
  isFinite number := number.isSome
  isInteger number := number.isSome
  same first second := first.isSome && first == second

/-- A library for schemas whose other keyword is `minLength`. -/
def exampleLibrary : Library ℕ (Option ℤ) where
  compile
    | .bool accepted => some fun _ => accepted
    | .object types _ _ _ _ _ _ minLength => some fun value => types.any (matchesJsonType exampleNumbers value) &&
      match value with
      | .str text => minLength ≤ text.length
      | _ => true
  errors _ _ := []
  convertMembers _ members := members
  convertItems _ items := items

/-- The schema of a text that is not empty gets `null`, which becomes the empty text and is returned as `null`. -/
theorem returns_null : ¬ Validates exampleNumbers exampleLibrary
    ⟨.object [js "string"] [] .absent none [] [] [] 1, false⟩ ⟨js "say", .null⟩ := by
  intro validates
  obtain ⟨check, compiles, passed⟩ := validates .null (by rfl)
  obtain rfl := Option.some.inj compiles
  exact absurd passed (by decide)

end PieAgent.Soundness.ToolArguments
