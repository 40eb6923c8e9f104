import PieAgent.JavaScript.Core.Replace

/-! # Arguments of prompt templates

`substituteArgs` fills the placeholders of a template in four passes, one for each kind of placeholder. The last two
passes give `replace` a string, in which it interprets some sequences that begin with a dollar sign.

The passes are defined over any characters that stand for code units, so that a character can also tell where it comes
from. Over code units they are the function of the source.
-/

namespace PieAgent.Model.PromptTemplates

open JavaScript

/-- Characters that stand for code units: those that a pass inserts, and those that `replace` copies from its text. -/
structure Characters (α : Type) where
  unit : α → CodeUnit
  inserted : ℕ → CodeUnit → α
  copied : α → α

/-- The code units themselves. -/
def Characters.plain : Characters CodeUnit where
  unit := id
  inserted _ := id
  copied := id

section Patterns

def isDigitUnit (unit : CodeUnit) : Bool := 0x30 ≤ unit && unit ≤ 0x39

/-- `parseInt(digits, 10)` -/
def digitsValue (digits : JsString) : ℕ := digits.foldl (fun value unit => 10 * value + (unit.toNat - 0x30)) 0

/-- `/\$(\d+)/` at the front of a text: the number, and how long the match is. -/
def positional? (text : JsString) : Option (ℕ × ℕ) :=
  match text with
  | 0x24 :: rest =>
    let num := rest.takeWhile isDigitUnit
    if num = [] then none else some (digitsValue num, num.length + 1)
  | _ => none

/-- `/\$\{@:(\d+)(?::(\d+))?\}/` at the front of a text: the start and the length of the slice. -/
def slice? (text : JsString) : Option ((ℕ × Option ℕ) × ℕ) :=
  match text with
  | 0x24 :: 0x7B :: 0x40 :: 0x3A :: rest =>
    let start := rest.takeWhile isDigitUnit
    if start = [] then none
    else
      match rest.dropWhile isDigitUnit with
      | 0x7D :: _ => some ((digitsValue start, none), start.length + 5)
      | 0x3A :: rest =>
        let length := rest.takeWhile isDigitUnit
        if length = [] then none
        else
          match rest.dropWhile isDigitUnit with
          | 0x7D :: _ => some ((digitsValue start, some (digitsValue length)), start.length + length.length + 6)
          | _ => none
      | _ => none
  | _ => none

/-- A pattern that is a literal text. -/
def literal? (needle text : JsString) : Option (Unit × ℕ) :=
  if needle.isPrefixOf text then some ((), needle.length) else none

end Patterns

section Values

variable (args : List JsString)

/-- `args[num - 1] ?? ""` -/
def positionalValue (num : ℕ) : JsString := if num = 0 then [] else args.getD (num - 1) []

/-- `args.slice(start, start + length).join(" ")`, up to the end without a length. -/
def sliceValue (start : ℕ) (length : Option ℕ) : JsString :=
  let rest := args.drop (start - 1)
  join (js " ") (length.elim rest rest.take)

def allArgs : JsString := join (js " ") args

end Values

section Passes

variable {α : Type} (chars : Characters α) (args : List JsString)

def positionalPass (content : List α) : List α :=
  replaceMatches (fun text => positional? (text.map chars.unit))
    (fun num _ _ _ => (positionalValue args num).map (chars.inserted 1)) [] 0 content

def slicePass (content : List α) : List α :=
  replaceMatches (fun text => slice? (text.map chars.unit))
    (fun slice _ _ _ => (sliceValue args slice.1 slice.2).map (chars.inserted 2)) [] 0 content

/-- What a replacement string stands for, given what stands before the match, the match, and what stands behind it. -/
def getSubstitution (pass : ℕ) (before matched behind : List α) : JsString → List α
  | [] => []
  | [unit] => [chars.inserted pass unit]
  | first :: second :: rest =>
    if first = 0x24 ∧ second = 0x24 then chars.inserted pass 0x24 :: getSubstitution pass before matched behind rest
    else if first = 0x24 ∧ second = 0x26 then matched.map chars.copied ++ getSubstitution pass before matched behind rest
    else if first = 0x24 ∧ second = 0x60 then before.map chars.copied ++ getSubstitution pass before matched behind rest
    else if first = 0x24 ∧ second = 0x27 then behind.map chars.copied ++ getSubstitution pass before matched behind rest
    else chars.inserted pass first :: getSubstitution pass before matched behind (second :: rest)

/-- A pass that replaces a literal text by a string. -/
def literalPass (pass : ℕ) (needle replacement : JsString) (content : List α) : List α :=
  replaceMatches (fun text => literal? needle (text.map chars.unit))
    (fun _ before matched behind => getSubstitution chars pass before matched behind replacement) [] 0 content

def substituteArgs (content : List α) : List α :=
  let result := positionalPass chars args content
  -- before the simple `$@`
  let result := slicePass chars args result
  let result := literalPass chars 3 (js "$ARGUMENTS") (allArgs args) result
  literalPass chars 4 (js "$@") (allArgs args) result

end Passes

end PieAgent.Model.PromptTemplates
