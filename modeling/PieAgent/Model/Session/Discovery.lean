import PieAgent.Model.Session.ArchiveImport

/-! # Finding the most recent session

The quick reader looks for a header in the first bytes of a file; the loader reads the file and looks for a header in
its first line that is not blank. A session is looked up by the start of its file name or of the id of its header.
-/

namespace PieAgent.Model.Discovery

open JavaScript Transcript ArchiveImport

/-- A file of a directory. The content is absent when it cannot be read. -/
structure ListedFile where
  name : JsString
  /-- `statSync(path).mtime.getTime()`. -/
  mtime : ℤ
  content : Option (List UInt8)
deriving DecidableEq

/-- What `readdirSync` lists: no name occurs twice. -/
structure SessionDirectory where
  path : JsString
  files : List ListedFile
  distinct : (files.map (·.name)).Nodup

def joinPath (directory name : JsString) : JsString := directory ++ js "/" ++ name

/-- The size of the buffer of the quick reader. -/
def bufferSize : ℕ := 512

def isValidSessionFile (content : Option (List UInt8)) : Bool :=
  match content with
  | none => false
  | some bytes =>
    match ((decodeUtf8 (bytes.take bufferSize)).splitOn '\n').head? with
    | none | some [] => false
    | some firstLine => (parseSessionHeaderLine firstLine).isSome

/-- The files whose name ends with `.jsonl`. -/
def sessionFiles (directory : SessionDirectory) : List ListedFile :=
  directory.files.filter fun file => (js ".jsonl").isSuffixOf file.name

/-- The directory is absent when it cannot be read. -/
def findMostRecentSession (sessionDir : Option SessionDirectory) : Option JsString :=
  match sessionDir with
  | none => none
  | some directory =>
    let files := ((sessionFiles directory).filter fun file => isValidSessionFile file.content).insertionSort
      fun first second => second.mtime ≤ first.mtime
    files.head?.map fun file => joinPath directory.path file.name

section Lookup

/-- The path of a file of the directory. -/
def locationOf (directory : SessionDirectory) (file : ListedFile) : Location := ⟨directory.path, file.name⟩

/-- A directory that cannot be read lists no file. -/
def listSessionFilesSorted (directory : SessionDirectory) : List ListedFile :=
  (sessionFiles directory).insertionSort fun first second =>
    (locationOf directory first).path ≤ (locationOf directory second).path

/-- The header of a file, from its first 4096 bytes. -/
def readSessionHeader (content : Option (List UInt8)) : Option Transcript.SessionHeader :=
  match content with
  | none => none
  | some bytes =>
    match ((decodeUtf8 (bytes.take 4096)).splitOn '\n').head? with
    | none | some [] => none
    | some firstLine => parseSessionHeaderLine firstLine

/-- `basename(path, ".jsonl")`; the suffix is not removed from a name that consists of it. -/
def stemOf (file : ListedFile) : JsString :=
  if file.name = js ".jsonl" then file.name else file.name.take (file.name.length - 6)

/-- The test of the scan. -/
def answersTo (id : JsString) (file : ListedFile) : Bool :=
  (stemOf file == id || id.isPrefixOf (stemOf file)) ||
    (readSessionHeader file.content).any fun header => header.id == id || id.isPrefixOf header.id

variable (directory : SessionDirectory) (id : JsString)

def findSessionPathById : Option Location :=
  ((listSessionFilesSorted directory).find? (answersTo id)).map (locationOf directory)

/-- The empty string is no id. -/
def resolveResumeSessionPath (explicitId : Option JsString) : Except JsString Location :=
  match (listSessionFilesSorted directory).getLast? with
  | none => .error (js "no sessions to resume in " ++ directory.path)
  | some newest =>
    match explicitId with
    | none | some [] => .ok (locationOf directory newest)
    | some id =>
      match findSessionPathById directory id with
      | none => .error (js "no session matches id " ++ id)
      | some found => .ok found

def endpointSidecarPath (sessionPath : Location) : Location := withSidecarExtension sessionPath (js "endpoints.json")

/-- The path that is returned, and the paths that are unlinked. -/
structure Deletion where
  path : Location
  unlinked : List Location

def deleteSessionById : Except JsString Deletion :=
  match findSessionPathById directory id with
  | none => .error (js "no session matches id " ++ id)
  | some path => .ok ⟨path, [path, triggerSidecarPath path, cronSidecarPath path, endpointSidecarPath path]⟩

end Lookup

end PieAgent.Model.Discovery
