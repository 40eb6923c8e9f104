import PieAgent.JavaScript.Core.Replace
import PieAgent.JavaScript.Core.Strings

/-! # Validation of tool arguments

The coercion of arguments to a JSON schema and the check that follows it. What the schema library does and how numbers
are written are parameters. A record is coerced in place, or replaced by a clone when a member of a union accepts it;
so a coerced value comes with whether it is another reference than the value it was made from.
-/

namespace PieAgent.Model.ToolValidation

open JavaScript

/-- A value of the arguments. -/
inductive Value (ν : Type) where
  | null
  | bool (value : Bool)
  | num (value : ν)
  | str (value : JsString)
  | arr (items : List (Value ν))
  | obj (members : List (JsString × Value ν))

/-- What the program does with numbers. -/
structure Numbers (ν : Type) where
  zero : ν
  one : ν
  /-- `Number(text)`. -/
  ofText : JsString → ν
  /-- `String(number)`. -/
  toText : ν → JsString
  isFinite : ν → Bool
  isInteger : ν → Bool
  /-- `first === second`. -/
  same : ν → ν → Bool

mutual

/-- A JSON schema. The keywords that only the library reads stand for themselves; an absent list is an empty one. -/
inductive JsonSchema (κ : Type) where
  | bool (value : Bool)
  | object (types : List JsString) (properties : List (JsString × JsonSchema κ)) (items : Items κ)
    (additionalProperties : Option (JsonSchema κ)) (allOf anyOf oneOf : List (JsonSchema κ)) (others : κ)

/-- The keyword `items`. -/
inductive Items (κ : Type) where
  | absent
  | each (schema : JsonSchema κ)
  | tuple (schemas : List (JsonSchema κ))

end

/-- An error of a compiled validator. -/
structure LocalizedError where
  keyword : JsString
  instancePath : JsString
  requiredProperties : List JsString
  message : JsString

/-- The schema library. -/
structure Library (κ ν : Type) where
  /-- `Compile(schema)` and its `Check`, absent when it throws. -/
  compile : JsonSchema κ → Option (Value ν → Bool)
  errors : JsonSchema κ → Value ν → List LocalizedError
  /-- What `Value.Convert` makes of the members of an object in place. -/
  convertMembers : JsonSchema κ → List (JsString × Value ν) → List (JsString × Value ν)
  convertItems : JsonSchema κ → List (Value ν) → List (Value ν)

structure Tool (κ : Type) where
  parameters : JsonSchema κ
  /-- The parameters carry the symbol `TypeBox.Kind`. -/
  hasTypeBoxMetadata : Bool

structure ToolCall (ν : Type) where
  name : JsString
  arguments : Value ν

variable {κ ν : Type}

/-- `typeof value === "object" && value !== null`. -/
def isRecord : Value ν → Bool
  | .arr _ | .obj _ => true
  | _ => false

def isJsonSchemaObject : JsonSchema κ → Bool
  | .bool _ => false
  | .object .. => true

section Coercion

variable (numbers : Numbers ν)

/-- `first === second`, given whether two records are the same reference. -/
def strictEquals (reference : Bool) : Value ν → Value ν → Bool
  | .null, .null => true
  | .bool first, .bool second => first == second
  | .num first, .num second => numbers.same first second
  | .str first, .str second => first == second
  | .arr _, .arr _ | .obj _, .obj _ => reference
  | _, _ => false

def matchesJsonType (value : Value ν) (type : JsString) : Bool :=
  match value with
  | .num number => type = js "number" || (type = js "integer" && numbers.isInteger number)
  | .bool _ => type = js "boolean"
  | .str _ => type = js "string"
  | .null => type = js "null"
  | .arr _ => type = js "array"
  | .obj _ => type = js "object"

/-- The branches for `"number"` and `"integer"`, which accept different numbers of a text. -/
def coerceToNumber (accepts : ν → Bool) (value : Value ν) : Value ν :=
  match value with
  | .null => .num numbers.zero
  | .str text => if trim text ≠ [] ∧ accepts (numbers.ofText text) then .num (numbers.ofText text) else value
  | .bool true => .num numbers.one
  | .bool false => .num numbers.zero
  | _ => value

def coerceToBoolean (value : Value ν) : Value ν :=
  match value with
  | .null => .bool false
  | .str text => if text = js "true" then .bool true else if text = js "false" then .bool false else value
  | .num number =>
    if numbers.same number numbers.one then .bool true
    else if numbers.same number numbers.zero then .bool false
    else value
  | _ => value

def coerceToString (value : Value ν) : Value ν :=
  match value with
  | .null => .str []
  | .num number => .str (numbers.toText number)
  | .bool true => .str (js "true")
  | .bool false => .str (js "false")
  | _ => value

def coerceToNull (value : Value ν) : Value ν :=
  match value with
  | .str [] | .bool false => .null
  | .num number => if numbers.same number numbers.zero then .null else value
  | _ => value

def coercePrimitiveByType (value : Value ν) (type : JsString) : Value ν :=
  if type = js "number" then coerceToNumber numbers numbers.isFinite value
  else if type = js "integer" then coerceToNumber numbers numbers.isInteger value
  else if type = js "boolean" then coerceToBoolean numbers value
  else if type = js "string" then coerceToString numbers value
  else if type = js "null" then coerceToNull numbers value
  else value

/-- The loop over the types: the first one that changes the value decides. -/
def coerceByTypes (value : Value ν) : List JsString → Value ν
  | [] => value
  | type :: rest =>
    if strictEquals numbers true (coercePrimitiveByType numbers value type) value then coerceByTypes value rest
    else coercePrimitiveByType numbers value type

/-- The part of the coercion that is about `type`. -/
def coerceToTypes (types : List JsString) (value : Value ν) : Value ν :=
  if 1 < types.length ∧ types.any (matchesJsonType numbers value) then value else coerceByTypes numbers value types

/-- A coerced value, and whether it is another reference than the value it was made from. -/
structure Coerced (ν : Type) where
  value : Value ν
  fresh : Bool

def Coerced.andThen (coerced : Coerced ν) (next : Value ν → Coerced ν) : Coerced ν :=
  ⟨(next coerced.value).value, coerced.fresh || (next coerced.value).fresh⟩

/-- The value of the key is replaced, if there is one. -/
def updateMember (members : List (JsString × Value ν)) (key : JsString) (update : Value ν → Value ν) :
    List (JsString × Value ν) :=
  members.map fun member => if member.1 = key then (member.1, update member.2) else member

variable (compile : JsonSchema κ → Option (Value ν → Bool))

/-- `getSubSchemaValidator(schema)?.Check(value)`. -/
def accepts (schema : JsonSchema κ) (value : Value ν) : Bool :=
  isJsonSchemaObject schema && (compile schema).any (· value)

mutual

def coerceWithJsonSchema : JsonSchema κ → Value ν → Coerced ν
  | .bool _, value => ⟨value, false⟩
  | .object types properties items additionalProperties allOf anyOf oneOf _, value =>
    let nested := (((coerceWithAll allOf value).andThen (coerceWithUnionSchema anyOf)).andThen
      (coerceWithUnionSchema oneOf))
    let nextValue := match coerceToTypes numbers types nested.value with
      | .obj members =>
        if js "object" ∈ types then
          .obj (coerceAdditional additionalProperties (properties.map (·.1)) (coerceProperties properties members))
        else .obj members
      | .arr values => if js "array" ∈ types then .arr (applySchemaArrayCoercion items values) else .arr values
      | other => other
    ⟨nextValue, nested.fresh⟩

/-- The loop over `allOf`. -/
def coerceWithAll : List (JsonSchema κ) → Value ν → Coerced ν
  | [], value => ⟨value, false⟩
  | schema :: rest, value => (coerceWithJsonSchema schema value).andThen (coerceWithAll rest)

/-- The first schema that accepts a coerced clone decides. -/
def coerceWithUnionSchema : List (JsonSchema κ) → Value ν → Coerced ν
  | [], value => ⟨value, false⟩
  | schema :: rest, value =>
    let coerced := (coerceWithJsonSchema schema value).value
    if accepts compile schema coerced then ⟨coerced, true⟩ else coerceWithUnionSchema rest value

/-- The loop over `properties` of `applySchemaObjectCoercion`. -/
def coerceProperties : List (JsString × JsonSchema κ) → List (JsString × Value ν) → List (JsString × Value ν)
  | [], members => members
  | (key, schema) :: rest, members =>
    coerceProperties rest (updateMember members key fun value => (coerceWithJsonSchema schema value).value)

/-- The loop over the other keys of `applySchemaObjectCoercion`. -/
def coerceAdditional : Option (JsonSchema κ) → List JsString → List (JsString × Value ν) → List (JsString × Value ν)
  | none, _, members => members
  | some schema, definedKeys, members =>
    members.map fun member =>
      if member.1 ∈ definedKeys then member else (member.1, (coerceWithJsonSchema schema member.2).value)

def applySchemaArrayCoercion : Items κ → List (Value ν) → List (Value ν)
  | .absent, values => values
  | .each schema, values => values.map fun value => (coerceWithJsonSchema schema value).value
  | .tuple schemas, values => coerceTuple schemas values

def coerceTuple : List (JsonSchema κ) → List (Value ν) → List (Value ν)
  | schema :: rest, value :: values => (coerceWithJsonSchema schema value).value :: coerceTuple rest values
  | _, values => values

end

end Coercion

section Validation

variable (numbers : Numbers ν) (library : Library κ ν)

/-- `path.replace(/^\//, "").replace(/\//g, ".")`. -/
def dottedPath (instancePath : JsString) : JsString :=
  let path := if (js "/").isPrefixOf instancePath then instancePath.drop 1 else instancePath
  path.map fun unit => if [unit] = js "/" then 0x2E else unit

def formatValidationPath (error : LocalizedError) : JsString :=
  match if error.keyword = js "required" then error.requiredProperties.head?.filter (· ≠ []) else none with
  | some requiredProperty =>
    let basePath := dottedPath error.instancePath
    if basePath ≠ [] then basePath ++ js "." ++ requiredProperty else requiredProperty
  | none => orElse (some (dottedPath error.instancePath)) (js "root")

/-- How validation throws. -/
inductive Failure (ν : Type) where
  /-- The schema does not compile. -/
  | compile
  | invalid (toolName : JsString) (errors : JsString) (received : Value ν)

/-- The text of the error, given how `JSON.stringify` prints the arguments. -/
def Failure.message (print : Value ν → JsString) : Failure ν → Option JsString
  | .compile => none
  | .invalid toolName errors received =>
    some (js "Validation failed for tool \"" ++ toolName ++ js "\":\n" ++ errors ++ js "\n\nReceived arguments:\n" ++
      print received)

/-- `Value.Convert` on a clone: it changes records in place, and its result is not used. -/
def convert (schema : JsonSchema κ) : Value ν → Value ν
  | .obj members => .obj (library.convertMembers schema members)
  | .arr items => .arr (library.convertItems schema items)
  | primitive => primitive

/-- `Object.assign` to a record whose keys have been deleted. The key `__proto__` sets no field. -/
def replaceContents (args coerced : Value ν) : Value ν :=
  match args, coerced with
  | .obj _, .obj members => .obj (members.filter fun member => member.1 ≠ js "__proto__")
  | _, other => other

/-- The check of the arguments at the end. -/
def checkArguments (tool : Tool κ) (toolCall : ToolCall ν) (check : Value ν → Bool) (args : Value ν) :
    Except (Failure ν) (Value ν) :=
  if check args then .ok args
  else
    let errors := join (js "\n") ((library.errors tool.parameters args).map fun error =>
      js "  - " ++ formatValidationPath error ++ js ": " ++ error.message)
    .error (.invalid toolCall.name (orElse (some errors) (js "Unknown validation error")) toolCall.arguments)

def validateToolArguments (tool : Tool κ) (toolCall : ToolCall ν) : Except (Failure ν) (Value ν) :=
  let args := convert library tool.parameters toolCall.arguments
  match library.compile tool.parameters with
  | none => .error .compile
  | some check =>
    if !tool.hasTypeBoxMetadata && isJsonSchemaObject tool.parameters then
      let coerced := coerceWithJsonSchema numbers library.compile tool.parameters args
      if strictEquals numbers (!coerced.fresh) coerced.value args then
        checkArguments library tool toolCall check (if isRecord args then coerced.value else args)
      else if isRecord args && isRecord coerced.value then
        checkArguments library tool toolCall check (replaceContents args coerced.value)
      else .ok (if check coerced.value then coerced.value else args)
    else checkArguments library tool toolCall check args

end Validation

end PieAgent.Model.ToolValidation
