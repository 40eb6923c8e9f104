import PieAgent.JavaScript.Core.Strings

/-! # JSON values and the text `JSON.stringify` writes for them

A number is kept as the literal that `JSON.stringify` prints for it, an object as the list of its
own members in enumeration order. `stringify` is the well-formed variant of the language standard:
the text it returns holds scalar values only, a lone surrogate inside a string is escaped.
-/

namespace JavaScript

def isDigit (c : Char) : Bool := '0' ≤ c && c ≤ '9'

/-- Split off the longest run of digits. -/
def spanDigits (text : List Char) : List Char × List Char := text.span isDigit

/-- The integer part of a number literal: a single zero, or digits without a leading zero. -/
def scanInteger? : List Char → Option (List Char × List Char)
  | '0' :: rest => some (['0'], rest)
  | c :: rest => if isDigit c then some (c :: (spanDigits rest).1, (spanDigits rest).2) else none
  | [] => none

/-- An optional fraction. A point without a digit after it is an error. -/
def scanFraction? : List Char → Option (List Char × List Char)
  | '.' :: rest =>
    if (spanDigits rest).1.isEmpty then none
    else some ('.' :: (spanDigits rest).1, (spanDigits rest).2)
  | rest => some ([], rest)

/-- The optional sign of an exponent. -/
def scanSign : List Char → List Char × List Char
  | '+' :: rest => (['+'], rest)
  | '-' :: rest => (['-'], rest)
  | rest => ([], rest)

/-- An optional exponent. -/
def scanExponent? : List Char → Option (List Char × List Char)
  | c :: rest =>
    if c == 'e' || c == 'E' then
      if (spanDigits (scanSign rest).2).1.isEmpty then none
      else some (c :: (scanSign rest).1 ++ (spanDigits (scanSign rest).2).1, (spanDigits (scanSign rest).2).2)
    else some ([], c :: rest)
  | [] => some ([], [])

/-- Read a number literal without a sign. -/
def scanUnsigned? (text : List Char) : Option (List Char × List Char) :=
  (scanInteger? text).bind fun integer =>
    (scanFraction? integer.2).bind fun fraction =>
      (scanExponent? fraction.2).map fun exponent => (integer.1 ++ fraction.1 ++ exponent.1, exponent.2)

/-- Read a number literal from the front of a text. -/
def scanNumber? : List Char → Option (List Char × List Char)
  | '-' :: rest => (scanUnsigned? rest).map fun (literal, rest) => ('-' :: literal, rest)
  | rest => scanUnsigned? rest

/-- A complete number literal. -/
abbrev NumberLiteral := { text : List Char // scanNumber? text = some (text, []) }

inductive Json where
  | null
  | bool (value : Bool)
  | num (literal : NumberLiteral)
  | str (value : JsString)
  | arr (items : List Json)
  | obj (members : List (JsString × Json))
deriving Repr

mutual

private def Json.decEq : (first second : Json) → Decidable (first = second)
  | .null, .null => isTrue rfl
  | .bool a, .bool b => decidable_of_iff (a = b) (by simp)
  | .num a, .num b => decidable_of_iff (a = b) (by simp)
  | .str a, .str b => decidable_of_iff (a = b) (by simp)
  | .arr a, .arr b =>
    have := Json.decEqItems a b
    decidable_of_iff (a = b) (by simp)
  | .obj a, .obj b =>
    have := Json.decEqMembers a b
    decidable_of_iff (a = b) (by simp)
  | .null, .bool _ | .null, .num _ | .null, .str _ | .null, .arr _ | .null, .obj _ => isFalse nofun
  | .bool _, .null | .bool _, .num _ | .bool _, .str _ | .bool _, .arr _ | .bool _, .obj _ => isFalse nofun
  | .num _, .null | .num _, .bool _ | .num _, .str _ | .num _, .arr _ | .num _, .obj _ => isFalse nofun
  | .str _, .null | .str _, .bool _ | .str _, .num _ | .str _, .arr _ | .str _, .obj _ => isFalse nofun
  | .arr _, .null | .arr _, .bool _ | .arr _, .num _ | .arr _, .str _ | .arr _, .obj _ => isFalse nofun
  | .obj _, .null | .obj _, .bool _ | .obj _, .num _ | .obj _, .str _ | .obj _, .arr _ => isFalse nofun

private def Json.decEqItems : (first second : List Json) → Decidable (first = second)
  | [], [] => isTrue rfl
  | [], _ :: _ | _ :: _, [] => isFalse nofun
  | a :: as, b :: bs =>
    have := Json.decEq a b
    have := Json.decEqItems as bs
    decidable_of_iff (a = b ∧ as = bs) (by simp)

private def Json.decEqMembers : (first second : List (JsString × Json)) → Decidable (first = second)
  | [], [] => isTrue rfl
  | [], _ :: _ | _ :: _, [] => isFalse nofun
  | (k, a) :: as, (l, b) :: bs =>
    have := Json.decEq a b
    have := Json.decEqMembers as bs
    decidable_of_iff (k = l ∧ a = b ∧ as = bs) (by simp [and_assoc])

end

instance : DecidableEq Json := Json.decEq

/-- The value of an own property, `undefined` when the value is no object or lacks the property. -/
def Json.get? (value : Json) (key : JsString) : Option Json :=
  match value with
  | .obj members => members.lookup key
  | _ => none

/-- `typeof value === "string"`, returning the string. -/
def Json.str? : Json → Option JsString
  | .str value => some value
  | _ => none

/-- A digit of a base up to 36, in lower case. -/
def hexDigit (n : ℕ) : Char := Char.ofNat (if n < 10 then 48 + n else 87 + n)

/-- A `\u` escape of one code unit. -/
def unicodeEscape (unit : CodeUnit) : List Char :=
  let n := unit.toNat
  ['\\', 'u', hexDigit (n / 4096 % 16), hexDigit (n / 256 % 16), hexDigit (n / 16 % 16), hexDigit (n % 16)]

/-- The text of one code unit that is not part of a surrogate pair. -/
def quoteUnit (unit : CodeUnit) : List Char :=
  if unit = 0x08 then ['\\', 'b']
  else if unit = 0x09 then ['\\', 't']
  else if unit = 0x0A then ['\\', 'n']
  else if unit = 0x0C then ['\\', 'f']
  else if unit = 0x0D then ['\\', 'r']
  else if unit = 0x22 then ['\\', '"']
  else if unit = 0x5C then ['\\', '\\']
  else if unit < 0x20 || isHighSurrogate unit || isLowSurrogate unit then unicodeEscape unit
  else [Char.ofNat unit.toNat]

/-- The scalar value of a surrogate pair. -/
def pairChar (high low : CodeUnit) : Char := Char.ofNat (codePoint [high, low])

/-- The body of a string literal. -/
def quoteBody : JsString → List Char
  | [] => []
  | [unit] => quoteUnit unit
  | first :: second :: rest =>
    if isHighSurrogate first && isLowSurrogate second then pairChar first second :: quoteBody rest
    else quoteUnit first ++ quoteBody (second :: rest)

/-- `QuoteJSONString`. -/
def quote (text : JsString) : List Char := '"' :: quoteBody text ++ ['"']

mutual

/-- `JSON.stringify` without indentation. -/
def stringify : Json → List Char
  | .null => ['n', 'u', 'l', 'l']
  | .bool true => ['t', 'r', 'u', 'e']
  | .bool false => ['f', 'a', 'l', 's', 'e']
  | .num literal => literal.val
  | .str value => quote value
  | .arr items => '[' :: stringifyItems items
  | .obj members => '\x7b' :: stringifyMembers members

/-- The items of an array up to and including the closing bracket. -/
def stringifyItems : List Json → List Char
  | [] => [']']
  | item :: rest => stringify item ++ stringifyMoreItems rest

def stringifyMoreItems : List Json → List Char
  | [] => [']']
  | item :: rest => ',' :: stringify item ++ stringifyMoreItems rest

/-- The members of an object up to and including the closing brace. -/
def stringifyMembers : List (JsString × Json) → List Char
  | [] => ['\x7d']
  | (key, value) :: rest => quote key ++ ':' :: stringify value ++ stringifyMoreMembers rest

def stringifyMoreMembers : List (JsString × Json) → List Char
  | [] => ['\x7d']
  | (key, value) :: rest => ',' :: quote key ++ ':' :: stringify value ++ stringifyMoreMembers rest

end

end JavaScript
