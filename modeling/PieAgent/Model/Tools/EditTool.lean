import Mathlib.Data.List.Sort
import PieAgent.JavaScript.Core.Search
import PieAgent.JavaScript.Core.Strings
import PieAgent.Model.Triggers.Promotion

/-! # The edit tool and its preview

Executing a call replaces an exact substring of the file. The preview of the call runs the engine of the batch
form: it drops a byte order mark, makes all line ends LF, looks for the old text exactly and then once more
behind a normalization of both texts, and wants it to be unique behind that normalization.

The content of the file is a text; what can go wrong in reading and writing it, and the abort signal, are left out.
A preview that is a diff is kept as the two contents whose diff it renders.
-/

namespace PieAgent.Model.EditTool

open JavaScript

/-- `normalize("NFKC")`. -/
abbrev Normalize := JsString → JsString

structure Edit where
  oldText : JsString
  newText : JsString

structure EditToolInput where
  path : JsString
  old_string : JsString
  new_string : JsString
  replace_all : Option Bool := none

section Execution

structure EditToolDetails where
  path : JsString
  replacements : ℕ
  replaceAll : Bool

/-- The text of the result, its details, and the content that the file is given. -/
structure EditResult where
  content : JsString
  details : EditToolDetails
  newBody : JsString

def countOccurrences (haystack needle : JsString) : ℕ :=
  if needle = [] then (characters haystack).length + 1 else occurrences needle haystack

def replaceAllOccurrences (haystack needle replacement : JsString) : JsString :=
  if needle ≠ [] then join replacement (splitAtAll needle haystack)
  else if haystack = [] then replacement
  else replacement ++ join replacement (characters haystack) ++ replacement

def replaceFirstOccurrence (haystack needle replacement : JsString) : JsString :=
  if needle = [] then replacement ++ haystack
  else match indexOf? needle haystack with
    | none => haystack
    | some start => haystack.take start ++ replacement ++ haystack.drop (start + needle.length)

/-- Rust's `str::lines`. -/
def rustLines (text : JsString) : List JsString :=
  if text = [] then []
  else
    let parts := text.splitOn 10
    (if parts.getLast? = some [] then parts.dropLast else parts).map fun line =>
      if line.getLast? = some 13 then line.dropLast else line

def renderDiffPreview (oldString newString : JsString) : JsString :=
  js "--- before\n" ++ ((rustLines oldString).take 10).flatMap (fun line => js "- " ++ line ++ js "\n") ++
    js "+++ after\n" ++ ((rustLines newString).take 10).flatMap (fun line => js "+ " ++ line ++ js "\n")

def executeOracleEdit (body : JsString) (input : EditToolInput) : Except JsString EditResult :=
  let replaceAll := input.replace_all.getD false
  if input.old_string = input.new_string then .error (js "old_string must differ from new_string")
  else
    let occurrences := countOccurrences body input.old_string
    if occurrences = 0 then .error (js "old_string not found in " ++ input.path)
    else if 1 < occurrences ∧ replaceAll = false then
      .error (js "old_string matched " ++ digits occurrences ++ js " times in " ++ input.path ++
        js "; pass replace_all=true to replace every occurrence, or include more surrounding context to make it unique")
    else .ok
      { content := js "Edited " ++ input.path ++ js " (" ++ digits occurrences ++ js " replacement" ++
          (if occurrences = 1 then [] else js "s") ++ js ").\n" ++ renderDiffPreview input.old_string input.new_string
        details := { path := input.path, replacements := occurrences, replaceAll }
        newBody := if replaceAll then replaceAllOccurrences body input.old_string input.new_string
          else replaceFirstOccurrence body input.old_string input.new_string }

end Execution

section Preview

/-- `text.replace(/\r\n/g, "\n")`. -/
def replaceCrLf : JsString → JsString
  | [] => []
  | [unit] => [unit]
  | first :: second :: rest =>
    if first = 13 ∧ second = 10 then 10 :: replaceCrLf rest else first :: replaceCrLf (second :: rest)

def normalizeToLF (text : JsString) : JsString := (replaceCrLf text).map fun unit => if unit = 13 then 10 else unit

/-- The text without a byte order mark. -/
def stripBom (content : JsString) : JsString := if content.head? = some 0xFEFF then content.drop 1 else content

/-- The ASCII character for a quote, a dash or a space. -/
def plainUnit (unit : CodeUnit) : CodeUnit :=
  if 0x2018 ≤ unit ∧ unit ≤ 0x201B then 0x27
  else if 0x201C ≤ unit ∧ unit ≤ 0x201F then 0x22
  else if (0x2010 ≤ unit ∧ unit ≤ 0x2015) ∨ unit = 0x2212 then 0x2D
  else if unit = 0xA0 ∨ (0x2002 ≤ unit ∧ unit ≤ 0x200A) ∨ unit = 0x202F ∨ unit = 0x205F ∨ unit = 0x3000 then 0x20
  else unit

def normalizeForFuzzyMatch (nfkc : Normalize) (text : JsString) : JsString :=
  (join [10] (((nfkc text).splitOn 10).map fun line => line.rdropWhile fun unit => isWhitespace unit.toNat)).map plainUnit

/-- Where a text is found, and whether it is the normalized text in the normalized content. -/
structure FuzzyMatchResult where
  index : ℕ
  matchLength : ℕ
  usedFuzzyMatch : Bool

def fuzzyFindText (nfkc : Normalize) (content oldText : JsString) : Option FuzzyMatchResult :=
  match indexOf? oldText content with
  | some index => some { index, matchLength := oldText.length, usedFuzzyMatch := false }
  | none =>
    let fuzzyOldText := normalizeForFuzzyMatch nfkc oldText
    (indexOf? fuzzyOldText (normalizeForFuzzyMatch nfkc content)).map fun index =>
      { index, matchLength := fuzzyOldText.length, usedFuzzyMatch := true }

/-- `countOccurrences` of the preview. Splitting at the empty text gives the code units. -/
def countFuzzyOccurrences (nfkc : Normalize) (content oldText : JsString) : ℤ :=
  let fuzzyContent := normalizeForFuzzyMatch nfkc content
  let fuzzyOldText := normalizeForFuzzyMatch nfkc oldText
  if fuzzyOldText = [] then (fuzzyContent.length : ℤ) - 1
  else ((splitAtAll fuzzyOldText fuzzyContent).length : ℤ) - 1

def getEmptyOldTextError (path : JsString) (editIndex totalEdits : ℕ) : JsString :=
  if totalEdits = 1 then js "oldText must not be empty in " ++ path ++ js "."
  else js "edits[" ++ digits editIndex ++ js "].oldText must not be empty in " ++ path ++ js "."

def getNotFoundError (path : JsString) (editIndex totalEdits : ℕ) : JsString :=
  if totalEdits = 1 then
    js "Could not find the exact text in " ++ path ++
      js ". The old text must match exactly including all whitespace and newlines."
  else js "Could not find edits[" ++ digits editIndex ++ js "] in " ++ path ++
    js ". The oldText must match exactly including all whitespace and newlines."

def getDuplicateError (path : JsString) (editIndex totalEdits : ℕ) (occurrences : ℤ) : JsString :=
  if totalEdits = 1 then
    js "Found " ++ js (toString occurrences) ++ js " occurrences of the text in " ++ path ++
      js ". The text must be unique. Please provide more context to make it unique."
  else js "Found " ++ js (toString occurrences) ++ js " occurrences of edits[" ++ digits editIndex ++ js "] in " ++ path ++
    js ". Each oldText must be unique. Please provide more context to make it unique."

def getNoChangeError (path : JsString) (totalEdits : ℕ) : JsString :=
  if totalEdits = 1 then
    js "No changes made to " ++ path ++ js (". The replacement produced identical content. This might indicate " ++
      "an issue with special characters or the text not existing as expected.")
  else js "No changes made to " ++ path ++ js ". The replacements produced identical content."

def getOverlapError (path : JsString) (previous current : ℕ) : JsString :=
  js "edits[" ++ digits previous ++ js "] and edits[" ++ digits current ++ js "] overlap in " ++ path ++
    js ". Merge them into one edit or target disjoint regions."

structure MatchedEdit where
  editIndex : ℕ
  matchIndex : ℕ
  matchLength : ℕ
  newText : JsString

structure AppliedEditsResult where
  baseContent : JsString
  newContent : JsString
deriving DecidableEq

/-- The place of an edit in the content that all of them are applied to. -/
def matchEdit (nfkc : Normalize) (path baseContent : JsString) (totalEdits : ℕ) (edit : Edit × ℕ) :
    Except JsString MatchedEdit :=
  match fuzzyFindText nfkc baseContent edit.1.oldText with
  | none => .error (getNotFoundError path edit.2 totalEdits)
  | some found =>
    let occurrences := countFuzzyOccurrences nfkc baseContent edit.1.oldText
    if 1 < occurrences then .error (getDuplicateError path edit.2 totalEdits occurrences)
    else .ok
      { editIndex := edit.2, matchIndex := found.index, matchLength := found.matchLength, newText := edit.1.newText }

/-- The first two neighbours that overlap, among edits in the order of their places. -/
def findOverlap? : List MatchedEdit → Option (ℕ × ℕ)
  | previous :: current :: rest =>
    if current.matchIndex < previous.matchIndex + previous.matchLength then some (previous.editIndex, current.editIndex)
    else findOverlap? (current :: rest)
  | _ => none

def replaceMatch (edit : MatchedEdit) (content : JsString) : JsString :=
  content.take edit.matchIndex ++ edit.newText ++ content.drop (edit.matchIndex + edit.matchLength)

def applyEditsToNormalizedContent (nfkc : Normalize) (normalizedContent : JsString) (edits : List Edit) (path : JsString) :
    Except JsString AppliedEditsResult := do
  let normalizedEdits := edits.map fun edit =>
    { oldText := normalizeToLF edit.oldText, newText := normalizeToLF edit.newText : Edit }
  match normalizedEdits.findIdx? fun edit => edit.oldText = [] with
  | some editIndex => throw (getEmptyOldTextError path editIndex normalizedEdits.length)
  | none =>
    let initialMatches := normalizedEdits.map fun edit => fuzzyFindText nfkc normalizedContent edit.oldText
    let baseContent :=
      if initialMatches.any fun found => found.any (·.usedFuzzyMatch) then normalizeForFuzzyMatch nfkc normalizedContent
      else normalizedContent
    let matched ← normalizedEdits.zipIdx.mapM (matchEdit nfkc path baseContent normalizedEdits.length)
    let matchedEdits := matched.insertionSort fun first second => first.matchIndex ≤ second.matchIndex
    match findOverlap? matchedEdits with
    | some (previous, current) => throw (getOverlapError path previous current)
    | none =>
      let newContent := matchedEdits.foldr replaceMatch baseContent
      if baseContent = newContent then throw (getNoChangeError path normalizedEdits.length)
      return { baseContent, newContent }

/-- The contents whose diff `computeEditsDiff` renders. -/
def computeEditsDiff (nfkc : Normalize) (path : JsString) (edits : List Edit) (rawContent : JsString) :
    Except JsString AppliedEditsResult :=
  applyEditsToNormalizedContent nfkc (normalizeToLF (stripBom rawContent)) edits path

/-- The arguments that a call may be rendered with, those of older transcripts included. -/
structure RenderableEditArgs where
  path : Option JsString := none
  file_path : Option JsString := none
  edits : Option (List Edit) := none
  oldText : Option JsString := none
  newText : Option JsString := none
  old_string : Option JsString := none
  new_string : Option JsString := none

def getRenderablePreviewInput (args : RenderableEditArgs) : Option (JsString × List Edit) :=
  match args.path.or args.file_path with
  | none | some [] => none
  | some path =>
    match args.edits, args.old_string, args.new_string, args.oldText, args.newText with
    | some (edit :: edits), _, _, _, _ => some (path, edit :: edits)
    | _, some oldText, some newText, _, _ | _, _, _, some oldText, some newText => some (path, [{ oldText, newText }])
    | _, _, _, _, _ => none

/-- The preview that is shown for a call. -/
def editPreview (nfkc : Normalize) (body : JsString) (input : EditToolInput) : Option (Except JsString AppliedEditsResult) :=
  (getRenderablePreviewInput
      { path := some input.path, old_string := some input.old_string, new_string := some input.new_string }).map
    fun (path, edits) => computeEditsDiff nfkc path edits body

end Preview

end PieAgent.Model.EditTool

/-! ## Editing the bytes of a file

The tool decodes the file, edits the text and encodes it again.
-/

namespace PieAgent.Model.EditTool

open JavaScript

/-- `buffer.toString("utf-8")`. -/
def readText (bytes : List UInt8) : JsString := ofText (decodeUtf8 bytes)

/-- The bytes of a file after a call, and the result of the call. -/
def editFile (bytes : List UInt8) (input : EditToolInput) : List UInt8 × Except JsString EditResult :=
  match executeOracleEdit (readText bytes) input with
  | .ok result => (utf8Bytes result.newBody, .ok result)
  | .error error => (bytes, .error error)

end PieAgent.Model.EditTool
