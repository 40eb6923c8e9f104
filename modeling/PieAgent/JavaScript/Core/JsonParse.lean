import Mathlib.Data.List.Sort
import PieAgent.JavaScript.Core.Json

/-! # `JSON.parse`

The parser takes a bound on the depth of its recursion; twice the length of the text is always enough.
An object keeps the last value of every key, and enumerates array indices before the other keys.
-/

namespace JavaScript

/-- The white space that JSON allows between tokens. -/
def isJsonSpace (c : Char) : Bool := c == ' ' || c == '\t' || c == '\n' || c == '\r'

def skipSpace (text : List Char) : List Char := text.dropWhile isJsonSpace

def hexValue? (c : Char) : Option ℕ :=
  if '0' ≤ c ∧ c ≤ '9' then some (c.toNat - 48)
  else if 'a' ≤ c ∧ c ≤ 'f' then some (c.toNat - 87)
  else if 'A' ≤ c ∧ c ≤ 'F' then some (c.toNat - 55)
  else none

/-- The code unit of the four digits of a `\u` escape. -/
def escapedUnit? (a b c d : Char) : Option CodeUnit := do
  let first ← hexValue? a
  let second ← hexValue? b
  let third ← hexValue? c
  let fourth ← hexValue? d
  some (UInt16.ofNat (first * 4096 + second * 256 + third * 16 + fourth))

/-- The code unit of an escape with one character. -/
def simpleEscape? : Char → Option CodeUnit
  | '"' => some 0x22
  | '\\' => some 0x5C
  | '/' => some 0x2F
  | 'b' => some 0x08
  | 'f' => some 0x0C
  | 'n' => some 0x0A
  | 'r' => some 0x0D
  | 't' => some 0x09
  | _ => none

/-- Read the rest of a string literal, up to and including the closing quote. -/
def parseString? : List Char → Option (JsString × List Char)
  | [] => none
  | '"' :: rest => some ([], rest)
  | '\\' :: 'u' :: a :: b :: c :: d :: rest => do
    let unit ← escapedUnit? a b c d
    let (text, rest) ← parseString? rest
    some (unit :: text, rest)
  | '\\' :: c :: rest => do
    let unit ← simpleEscape? c
    let (text, rest) ← parseString? rest
    some (unit :: text, rest)
  | c :: rest =>
    if c.toNat < 0x20 || c == '\\' then none
    else do
      let (text, rest) ← parseString? rest
      some (utf16 c ++ text, rest)

/-- Read a number literal. -/
def parseNumber? (text : List Char) : Option (Json × List Char) :=
  match scanNumber? text with
  | none => none
  | some (literal, rest) =>
    if complete : scanNumber? literal = some (literal, []) then some (.num ⟨literal, complete⟩, rest) else none

/-- The number of a key that is an array index. -/
def arrayIndex? (key : JsString) : Option ℕ :=
  let value := key.foldl (fun value unit => value * 10 + (unit.toNat - 48)) 0
  if key ≠ [] ∧ key.all (fun unit => 48 ≤ unit && unit ≤ 57) ∧ (key.length = 1 ∨ key.head? ≠ some 48) ∧
      value < 4294967295 then some value
  else none

/-- Give an object a property: a known key keeps its place. -/
def setMember (members : List (JsString × Json)) (member : JsString × Json) : List (JsString × Json) :=
  if members.any (·.1 == member.1) then members.map fun known => if known.1 = member.1 then member else known
  else members ++ [member]

/-- The own properties in enumeration order. -/
def enumerate (members : List (JsString × Json)) : List (JsString × Json) :=
  (members.filter fun member => (arrayIndex? member.1).isSome).insertionSort
      (fun first second => (arrayIndex? first.1).getD 0 ≤ (arrayIndex? second.1).getD 0) ++
    members.filter fun member => (arrayIndex? member.1).isNone

/-- The object that an object literal with these members evaluates to. -/
def objectMembers (members : List (JsString × Json)) : List (JsString × Json) :=
  enumerate (members.foldl setMember [])

mutual

/-- Read a value at the front of a text, without white space before it. -/
def parseValue? : ℕ → List Char → Option (Json × List Char)
  | 0, _ => none
  | depth + 1, text =>
    match text with
    | 'n' :: 'u' :: 'l' :: 'l' :: rest => some (.null, rest)
    | 't' :: 'r' :: 'u' :: 'e' :: rest => some (.bool true, rest)
    | 'f' :: 'a' :: 'l' :: 's' :: 'e' :: rest => some (.bool false, rest)
    | '"' :: rest => (parseString? rest).map fun (text, rest) => (.str text, rest)
    | '[' :: rest =>
      match skipSpace rest with
      | ']' :: rest => some (.arr [], rest)
      | rest => (parseItems? depth rest).map fun (items, rest) => (.arr items, rest)
    | '\x7b' :: rest =>
      match skipSpace rest with
      | '\x7d' :: rest => some (.obj [], rest)
      | rest => (parseMembers? depth rest).map fun (members, rest) => (.obj (objectMembers members), rest)
    | text => parseNumber? text

/-- Read the items of an array up to and including the closing bracket. -/
def parseItems? : ℕ → List Char → Option (List Json × List Char)
  | 0, _ => none
  | depth + 1, text => do
    let (item, rest) ← parseValue? depth text
    match skipSpace rest with
    | ']' :: rest => some ([item], rest)
    | ',' :: rest => do
      let (items, rest) ← parseItems? depth (skipSpace rest)
      some (item :: items, rest)
    | _ => none

/-- Read the members of an object up to and including the closing brace. -/
def parseMembers? : ℕ → List Char → Option (List (JsString × Json) × List Char)
  | 0, _ => none
  | depth + 1, text =>
    match text with
    | '"' :: rest => do
      let (key, rest) ← parseString? rest
      match skipSpace rest with
      | ':' :: rest => do
        let (value, rest) ← parseValue? depth (skipSpace rest)
        match skipSpace rest with
        | '\x7d' :: rest => some ([(key, value)], rest)
        | ',' :: rest => do
          let (members, rest) ← parseMembers? depth (skipSpace rest)
          some ((key, value) :: members, rest)
        | _ => none
      | _ => none
    | _ => none

end

/-- `JSON.parse`; absent when it throws. -/
def parse? (text : List Char) : Option Json :=
  match parseValue? (2 * text.length + 1) (skipSpace text) with
  | some (value, rest) => if skipSpace rest = [] then some value else none
  | none => none

mutual

/-- Every object in the value has the members that it enumerates. -/
def Json.ordinary : Json → Bool
  | .arr items => ordinaryItems items
  | .obj members => objectMembers members = members && ordinaryMembers members
  | _ => true

def ordinaryItems : List Json → Bool
  | [] => true
  | item :: rest => item.ordinary && ordinaryItems rest

def ordinaryMembers : List (JsString × Json) → Bool
  | [] => true
  | (_, value) :: rest => value.ordinary && ordinaryMembers rest

end

/-- An object literal whose keys are distinct names keeps its members in order. -/
theorem objectMembers_of_plain {members : List (JsString × Json)} (distinct : (members.map (·.1)).Nodup)
    (plain : ∀ key ∈ members.map (·.1), arrayIndex? key = none) : objectMembers members = members := by
  have folded : ∀ known : List (JsString × Json), ((known ++ members).map (·.1)).Nodup →
      members.foldl setMember known = known ++ members := by
    clear plain distinct
    induction members with
    | nil => simp
    | cons member members ih =>
      intro known nodup
      have fresh : setMember known member = known ++ [member] := by
        refine if_neg fun seen => ?_
        obtain ⟨other, found, same⟩ := List.any_eq_true.mp seen
        rw [List.map_append, List.map_cons, List.nodup_append] at nodup
        exact nodup.2.2 _ (List.mem_map_of_mem found) _ List.mem_cons_self (by simpa using same)
      rw [List.foldl_cons, fresh, ih _ (by simpa using nodup)]
      simp
  have none_ : members.filter (fun member => (arrayIndex? member.1).isSome) = [] :=
    List.filter_eq_nil_iff.mpr fun member found => by simp [plain _ (List.mem_map_of_mem found)]
  have all : members.filter (fun member => (arrayIndex? member.1).isNone) = members :=
    List.filter_eq_self.mpr fun member found => by simp [plain _ (List.mem_map_of_mem found)]
  rw [objectMembers, folded [] (by simpa using distinct), enumerate, List.nil_append, none_, all]
  rfl

/-- An object literal whose keys are distinct names is ordinary when its members are. -/
theorem ordinary_obj_of_plain {members : List (JsString × Json)} (distinct : (members.map (·.1)).Nodup)
    (plain : ∀ key ∈ members.map (·.1), arrayIndex? key = none) (ordinary : ordinaryMembers members = true) :
    (Json.obj members).ordinary = true := by
  rw [Json.ordinary, objectMembers_of_plain distinct plain, ordinary]
  simp

end JavaScript
