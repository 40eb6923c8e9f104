import PieAgent.JavaScript.Core.Maps
import PieAgent.JavaScript.Core.Strings
import PieAgent.JavaScript.Core.Utf8

/-! # Reading a session archive

An archive is a tar file. The reader goes from header to header by the size that each header gives for its content, and it
collects the files by name. What has been collected is accepted if each name has a limit and each content is within it.

The offset is an integer or not a number, as the size that it is computed from. A loop over such offsets need not end: a
run is given fuel, and the reader halts if some fuel is enough.
-/

namespace PieAgent.Model.SessionArchive

open JavaScript

abbrev Buffer := List UInt8

/-- The position that `subarray` takes an index for. A negative one counts from the end. -/
def relativeIndex (data : Buffer) (index : ℤ) : ℕ :=
  if index < 0 then (data.length + index).toNat else min index.toNat data.length

def subarray (data : Buffer) (start stop : ℤ) : Buffer :=
  (data.drop (relativeIndex data start)).take (relativeIndex data stop - relativeIndex data start)

def tarBlock : ℕ := 512

section Fields

def isOctal (unit : CodeUnit) : Bool := 0x30 ≤ unit && unit ≤ 0x37

/-- The value of octal digits. -/
def octalValue (digits : JsString) : ℕ := digits.foldl (fun value unit => 8 * value + (unit.toNat - 0x30)) 0

/-- `Number.parseInt(text, 8)`, absent for `NaN`. -/
def parseIntOctal (text : JsString) : Option ℤ :=
  let text := text.dropWhile fun unit => isWhitespace unit.toNat
  let negative := text.head? = some 0x2D
  let digits := (if negative ∨ text.head? = some 0x2B then text.tail else text).takeWhile isOctal
  if digits = [] then none else some (if negative then -octalValue digits else octalValue digits)

def parseOctalField (field : Buffer) : Option ℤ :=
  let str : JsString := (field.takeWhile fun byte => byte ≠ 0 ∧ byte ≠ 0x20).map fun byte => UInt16.ofNat byte.toNat
  let trimmed := trim str
  if trimmed = [] then some 0 else parseIntOctal trimmed

def readCString (field : Buffer) : JsString := ofText (decodeUtf8 (field.takeWhile (· ≠ 0)))

end Fields

abbrev Files := JsMap JsString Buffer

/-- What a header says of an entry, with the content that follows it. -/
structure TarEntry where
  name : JsString
  typeflag : UInt8
  content : Buffer

/-- The checks of an entry, and the files with it. An entry without a name is skipped. -/
def addEntry (files : Files) (entry : TarEntry) : Except String Files :=
  if entry.name = [] then .ok files
  else if entry.typeflag ≠ 0x30 ∧ entry.typeflag ≠ 0 then .error "session archive contains a non-file entry"
  else if (files.get? entry.name).isSome then .error "session archive contains duplicate file paths"
  else .ok (files.set entry.name entry.content)

section Tar

/-- The loop of `readTarArchive`. The offset is absent when it is not a number. -/
structure TarReader where
  offset : Option ℤ := some 0
  files : Files := .empty

inductive TarStep where
  | reading (reader : TarReader)
  | finished (outcome : Except String Files)

def headerAt (data : Buffer) (offset : ℤ) : Buffer := subarray data offset (offset + tarBlock)

def sizeField (header : Buffer) : Buffer := subarray header 124 136

/-- `Math.ceil(size / TAR_BLOCK) * TAR_BLOCK` -/
def paddedSize (size : ℤ) : ℤ := -(-size / tarBlock) * tarBlock

/-- The entry of a header that starts at the offset. -/
def entryAt (data : Buffer) (offset : ℤ) : TarEntry where
  name := readCString (subarray (headerAt data offset) 0 100)
  typeflag := (headerAt data offset).getD 156 0
  content :=
    subarray data (offset + tarBlock)
      (match parseOctalField (sizeField (headerAt data offset)) with
        | some size => offset + tarBlock + size
        | none => 0)

/-- A pass of the loop. -/
def TarReader.next (data : Buffer) (reader : TarReader) : TarStep :=
  match reader.offset with
  | none => .finished (.ok reader.files)
  | some offset =>
    if data.length < offset + tarBlock then .finished (.ok reader.files)
    else if (headerAt data offset).all (· = 0) then .reading { reader with offset := some (offset + tarBlock) }
    else
      let size := parseOctalField (sizeField (headerAt data offset))
      if ∃ bytes ∈ size, data.length < offset + tarBlock + bytes then
        .finished (.error "session archive is truncated or corrupted")
      else
        match addEntry reader.files (entryAt data offset) with
        | .error message => .finished (.error message)
        | .ok files => .reading { offset := size.map fun bytes => offset + tarBlock + paddedSize bytes, files }

/-- `readTarArchive`, absent if the fuel does not suffice. -/
def readTarWith (data : Buffer) : ℕ → TarReader → Option (Except String Files)
  | 0, _ => none
  | fuel + 1, reader =>
    match reader.next data with
    | .finished outcome => some outcome
    | .reading reader => readTarWith data fuel reader

end Tar

section Acceptance

def validateArchivePath (relPath : JsString) : Bool :=
  !((js "/").isPrefixOf relPath || relPath.contains 0x5C || relPath.contains 0) &&
    (relPath.splitOn 0x2F).all fun part => part ≠ [] && part ≠ js "." && part ≠ js ".."

def limits : List (JsString × ℕ) :=
  [(js "manifest.json", 128 * 1024), (js "session.jsonl", 50 * 1024 * 1024),
    (js "sidecars/triggers.json", 2 * 1024 * 1024), (js "sidecars/cron.toml", 2 * 1024 * 1024)]

/-- The properties that every object inherits. None of them is a number. -/
def inheritedProperties : List JsString :=
  ["constructor", "__defineGetter__", "__defineSetter__", "hasOwnProperty", "__lookupGetter__", "__lookupSetter__",
    "isPrototypeOf", "propertyIsEnumerable", "toString", "valueOf", "__proto__", "toLocaleString"].map js

/-- A property of an object of numbers. -/
inductive Property where
  | number (value : ℕ)
  | inherited
deriving DecidableEq

/-- `limits[relPath]` -/
def limitOf (relPath : JsString) : Option Property :=
  match limits.find? fun entry => entry.1 = relPath with
  | some entry => some (.number entry.2)
  | none => if relPath ∈ inheritedProperties then some .inherited else none

/-- `size > limit`. What is no number here converts to `NaN`. -/
def Property.isBelow (size : ℕ) : Property → Bool
  | .number value => value < size
  | .inherited => false

def checkFile (file : JsString × Buffer) : Except String Unit :=
  if ¬validateArchivePath file.1 then .error "session archive contains an unsafe path"
  else
    match limitOf file.1 with
    | none => .error "session archive contains an unexpected file"
    | some limit => if limit.isBelow file.2.length then .error "session archive file is too large" else .ok ()

/-- The checks of `readArchive`. -/
def checkFiles (files : Files) : Except String Files := do
  files.entries.forM checkFile
  pure files

/-- The entries of an archive, one after another. -/
def addEntries (files : Files) (entries : List TarEntry) : Except String Files := entries.foldlM addEntry files

/-- `readArchive` of the entries that an archive consists of. -/
def readArchive (entries : List TarEntry) : Except String Files := addEntries .empty entries >>= checkFiles

end Acceptance

end PieAgent.Model.SessionArchive
