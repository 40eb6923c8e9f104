import PieAgent.JavaScript.Core.JsonParse

/-! # Repair of malformed JSON

A model writes tool arguments with raw control characters and stray backslashes in their string literals. `repairJson`
escapes them before the arguments are parsed once more.
-/

namespace PieAgent.Model.JsonRepair

open JavaScript

def VALID_JSON_ESCAPES : List Char := ['"', '\\', '/', 'b', 'f', 'n', 'r', 't', 'u']

def isControlCharacter (char : Char) : Bool := 0x00 ≤ char.toNat && char.toNat ≤ 0x1f

/-- `text.padStart(width, "0")`. -/
def padStart (width : ℕ) (text : List Char) : List Char := List.replicate (width - text.length) '0' ++ text

def escapeControlCharacter (char : Char) : List Char :=
  if char = '\x08' then ['\\', 'b']
  else if char = '\x0c' then ['\\', 'f']
  else if char = '\n' then ['\\', 'n']
  else if char = '\r' then ['\\', 'r']
  else if char = '\t' then ['\\', 't']
  else ['\\', 'u'] ++ padStart 4 (Nat.toDigits 16 char.toNat)

/-- The class `[0-9a-fA-F]`. -/
def isHexDigit (char : Char) : Bool :=
  ('0' ≤ char && char ≤ '9') || ('a' ≤ char && char ≤ 'f') || ('A' ≤ char && char ≤ 'F')

/-- The scan of `repairJson` from one index on; the flag is `inString`. -/
@[simp] def repair : Bool → List Char → List Char
  | _, [] => []
  | false, char :: rest => char :: repair (char == '"') rest
  | true, '"' :: rest => '"' :: repair false rest
  | true, ['\\'] => ['\\', '\\']
  | true, '\\' :: 'u' :: a :: b :: c :: d :: rest =>
    if [a, b, c, d].all isHexDigit then '\\' :: 'u' :: a :: b :: c :: d :: repair true rest
    else if 'u' ∈ VALID_JSON_ESCAPES then '\\' :: 'u' :: repair true (a :: b :: c :: d :: rest)
    else '\\' :: '\\' :: repair true ('u' :: a :: b :: c :: d :: rest)
  | true, '\\' :: nextChar :: rest =>
    if nextChar ∈ VALID_JSON_ESCAPES then '\\' :: nextChar :: repair true rest
    else '\\' :: '\\' :: repair true (nextChar :: rest)
  | true, char :: rest =>
    (if isControlCharacter char then escapeControlCharacter char else [char]) ++ repair true rest

def repairJson (json : List Char) : List Char := repair false json

/-- The value that `parseJsonWithRepair` returns; absent when it throws. -/
def parseJsonWithRepair (json : List Char) : Option Json :=
  match parse? json with
  | some value => some value
  | none => if repairJson json ≠ json then parse? (repairJson json) else none

end PieAgent.Model.JsonRepair
