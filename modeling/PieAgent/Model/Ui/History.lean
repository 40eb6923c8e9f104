import PieAgent.Model.Core.Truncate

/-! # The input history

The prompts that were entered, the oldest one first. The file holds one line for each of them and is written again
whenever one is added.
-/

namespace PieAgent.Model.History

open JavaScript Truncate

def MAX_ENTRIES : ℕ := 1000

/-- A store together with its file, which holds the text that reading gives. It is absent until it is written. -/
structure HistoryStore where
  file : Option JsString
  entriesList : List JsString

/-- The carriage return before a line feed belongs to the line break. -/
def dropReturn (line : JsString) : JsString := if line.getLast? = some 0x0D then line.dropLast else line

/-- `text.split(/\r?\n/)`. -/
def splitBreaks (text : JsString) : List JsString :=
  let parts := text.splitOn 0x0A
  parts.dropLast.map dropReturn ++ parts.getLast?.toList

/-- The entries of a file. -/
def readEntries (file : Option JsString) : List JsString :=
  (splitBreaks (file.getD [])).filter fun line => trim line ≠ []

def loadFrom (file : Option JsString) : HistoryStore := ⟨file, readEntries file⟩

namespace HistoryStore

variable (store : HistoryStore)

/-- The file is encoded as UTF-8, which has no unpaired surrogates. -/
def save : HistoryStore :=
  { store with file := some (replaceUnpairedSurrogates (join (js "\n") store.entriesList ++ js "\n")) }

/-- The newest entries, at most `MAX_ENTRIES`. -/
def capped (entries : List JsString) : List JsString := entries.drop (entries.length - MAX_ENTRIES)

def append (prompt : JsString) : HistoryStore :=
  let trimmed := trim prompt
  if trimmed = [] then store
  else if store.entriesList.getLast? = some trimmed then store
  else save { store with entriesList := capped (store.entriesList ++ [trimmed]) }

end HistoryStore

end PieAgent.Model.History
