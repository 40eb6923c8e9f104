import PieAgent.JavaScript.Core.Search
import PieAgent.Model.Session.SessionArchive
import PieAgent.Model.Session.Transcript
import PieAgent.Model.Triggers.DynamicTriggers

/-! # Importing a session archive and activating its automation

An import checks the archive, stages the session under a temporary name, writes the sidecars and renames the session into
place. The activation of imported rules and jobs rewrites the sidecars in place, one after the other.

Each operation on a file comes with how it ends; a write that fails may leave anything at its path. A file is named by its
directory and its name there.
-/

namespace PieAgent.Model.ArchiveImport

open JavaScript SessionArchive Transcript

section Locations

/-- A path, as its directory and the name there. -/
structure Location where
  dir : JsString
  fileName : JsString
deriving DecidableEq

def withSidecarExtension (sessionPath : Location) (newExt : JsString) : Location :=
  let stem := ((lastCut? (js ".") sessionPath.fileName).map (·.1)).getD sessionPath.fileName
  { dir := sessionPath.dir, fileName := stem ++ js "." ++ newExt }

def triggerSidecarPath (sessionPath : Location) : Location := withSidecarExtension sessionPath (js "triggers.json")

def cronSidecarPath (sessionPath : Location) : Location := withSidecarExtension sessionPath (js "cron.toml")

/-- `join` of the two parts. -/
def Location.path (location : Location) : JsString := location.dir ++ js "/" ++ location.fileName

end Locations

section Disk

/-- What the paths hold. -/
abbrev Disk := Location → Option Buffer

/-- How a write ends. One that fails leaves something at its path, or nothing. -/
inductive DiskWrite where
  | written
  | failed (left : Option Buffer)

/-- The disk after a write, and whether it was successful. -/
def writeFile (disk : Disk) (path : Location) (content : Buffer) : DiskWrite → Disk × Bool
  | .written => (Function.update disk path (some content), true)
  | .failed left => (Function.update disk path left, false)

def unlink (disk : Disk) (path : Location) : Disk := Function.update disk path none

def rename (disk : Disk) (source target : Location) : Disk :=
  Function.update (Function.update disk target (disk source)) source none

end Disk

inductive ArchiveError where
  | activationAsks
  | missingManifest
  | missingSession
  | manifestSyntax
  /-- A field of `null` or `undefined` is read. -/
  | noObject
  | unsupportedSchema
  | checksum
  | emptyTranscript
  | metadataSyntax
  | missingId
  | entrySyntax (lineNumber : ℕ)
  | duplicateId
  | danglingParent
  | entryCount
  | activeLeaf
  | triggerSyntax
  | triggerSchema
  | cronSyntax
  | cronSchema
  | destinationExists
  | invalidEntry (lineNumber : ℕ)
  /-- An operation on a file fails. -/
  | file
deriving DecidableEq

/-- The text of an error, given what the parser, the validation or the operation says. -/
def ArchiveError.message (detail : JsString) : ArchiveError → JsString
  | .activationAsks =>
    js "activate-triggers=ask requires interactive confirmation and is not implemented yet; use off or on"
  | .missingManifest => js "session archive is missing manifest.json"
  | .missingSession => js "session archive is missing session.jsonl"
  | .manifestSyntax => js "parse session archive manifest: " ++ detail
  | .unsupportedSchema => js "unsupported session archive schema"
  | .checksum => js "session archive checksum mismatch"
  | .emptyTranscript => js "session transcript is empty"
  | .metadataSyntax => js "parse session metadata: " ++ detail
  | .missingId => js "session metadata is missing id"
  | .entrySyntax lineNumber => js "parse session entry line " ++ digits lineNumber ++ js ": " ++ detail
  | .duplicateId => js "session transcript contains duplicate entry id"
  | .danglingParent => js "session transcript contains dangling parent reference"
  | .entryCount => js "session archive entry count mismatch"
  | .activeLeaf => js "session archive active leaf mismatch"
  | .triggerSyntax | .triggerSchema => js "parse trigger sidecar: " ++ detail
  | .cronSyntax | .cronSchema => js "parse cron sidecar: " ++ detail
  | .destinationExists => js "import destination already exists"
  | .invalidEntry _ | .noObject | .file => detail

section Values

/-- What begins a line at a depth. -/
def lineStart (depth : ℕ) : List Char := '\n' :: List.replicate (2 * depth) ' '

mutual

/-- `JSON.stringify(value, null, 2)` at a depth. -/
def stringifyIndented (depth : ℕ) : Json → List Char
  | .arr items => '[' :: indentedItems depth true items
  | .obj members => '\x7b' :: indentedMembers depth true members
  | value => stringify value

/-- The items that are left of an array, up to and including the closing bracket. -/
def indentedItems (depth : ℕ) (isFirst : Bool) : List Json → List Char
  | [] => (if isFirst then [] else lineStart depth) ++ [']']
  | item :: rest =>
    (if isFirst then [] else [',']) ++ lineStart (depth + 1) ++ stringifyIndented (depth + 1) item ++
      indentedItems depth false rest

/-- The members that are left of an object, up to and including the closing brace. -/
def indentedMembers (depth : ℕ) (isFirst : Bool) : List (JsString × Json) → List Char
  | [] => (if isFirst then [] else lineStart depth) ++ ['\x7d']
  | (key, value) :: rest =>
    (if isFirst then [] else [',']) ++ lineStart (depth + 1) ++ quote key ++ [':', ' '] ++
      stringifyIndented (depth + 1) value ++ indentedMembers depth false rest

end

/-- A field that must be a boolean. -/
def boolField? (value : Json) (key : String) : Option Bool :=
  match value.get? (js key) with
  | some (.bool value) => some value
  | _ => none

/-- A field that must be a number. -/
def numberField? (value : Json) (key : String) : Option NumberLiteral :=
  match value.get? (js key) with
  | some (.num value) => some value
  | _ => none

/-- A field that may be absent. -/
def optionally {α : Type} (field? : Json → String → Option α) (value : Json) (key : String) : Option (Option α) :=
  match value.get? (js key) with
  | none => some none
  | some _ => (field? value key).map some

/-- The items of a field that must be an array. -/
def itemsField? (value : Json) (key : String) : Option (List Json) :=
  match value.get? (js key) with
  | some (.arr items) => some items
  | _ => none

/-- A field of a value that may be `undefined`. -/
def property (value : Option Json) (key : String) : Except ArchiveError (Option Json) :=
  match value with
  | none | some .null => .error .noObject
  | some value => .ok (value.get? (js key))

/-- Whether `===` and `Set` compare the value by what it is: an object equals only itself. -/
def isPrimitive : Json → Bool
  | .arr _ | .obj _ => false
  | _ => true

end Values

section Sidecars

structure TriggerFile where
  version : NumberLiteral
  rules : List DynamicTriggerRule

/-- `DynamicTriggerRuleSchema`, with the defaults filled in. -/
def readRule? (value : Json) : Option DynamicTriggerRule := do
  let id ← textField? value "id"
  let condition ← textField? value "condition"
  let action ← textField? value "action"
  let enabled ← boolField? value "enabled"
  let fireOnce ← optionally boolField? value "fire_once"
  let firedAt ← optionally nullableField? value "fired_at"
  let promoteToChat ← optionally boolField? value "promote_to_chat"
  let createdAt ← textField? value "created_at"
  return { id, condition, action, enabled, fireOnce := fireOnce.getD true, firedAt := firedAt.join
           promoteToChat := promoteToChat.getD false, createdAt }

def readTriggerFile? (value : Json) : Option TriggerFile := do
  let version ← numberField? value "version"
  let items ← itemsField? value "rules"
  let rules ← items.mapM readRule?
  return { version, rules }

def parseTriggerSidecarFile (bytes : Buffer) : Except ArchiveError TriggerFile :=
  match parse? (decodeUtf8 bytes) with
  | none => .error .triggerSyntax
  | some value => (readTriggerFile? value).elim (.error .triggerSchema) .ok

def ruleJson (rule : DynamicTriggerRule) : Json :=
  .obj [(js "id", .str rule.id), (js "condition", .str rule.condition), (js "action", .str rule.action),
    (js "enabled", .bool rule.enabled), (js "fire_once", .bool rule.fireOnce),
    (js "fired_at", rule.firedAt.elim .null .str), (js "promote_to_chat", .bool rule.promoteToChat),
    (js "created_at", .str rule.createdAt)]

/-- `JSON.stringify(file, null, 2)` -/
def TriggerFile.bytes (file : TriggerFile) : Buffer :=
  encodeUtf8 (stringifyIndented 0
    (.obj [(js "version", .num file.version), (js "rules", .arr (file.rules.map ruleJson))]))

structure CronJobWire where
  id : JsString
  schedule : JsString
  action : JsString
  enabled : Bool
  runningTraceId : Option JsString
  lastDueAt : Option JsString
  lastFiredAt : Option JsString
  lastCompletedAt : Option JsString
  lastError : Option JsString
  skippedOverlapCount : NumberLiteral
  stateful : Bool
  createdAt : JsString

private theorem scanNumber?_zero : scanNumber? ['0'] = some (['0'], []) := rfl

def zeroLiteral : NumberLiteral := ⟨['0'], scanNumber?_zero⟩

/-- `CronJobSchema`, with the defaults filled in. -/
def readJob? (value : Json) : Option CronJobWire := do
  let id ← textField? value "id"
  let schedule ← textField? value "schedule"
  let action ← textField? value "action"
  let enabled ← boolField? value "enabled"
  let runningTraceId ← optionally textField? value "running_trace_id"
  let lastDueAt ← optionally textField? value "last_due_at"
  let lastFiredAt ← optionally textField? value "last_fired_at"
  let lastCompletedAt ← optionally textField? value "last_completed_at"
  let lastError ← optionally textField? value "last_error"
  let skippedOverlapCount ← optionally numberField? value "skipped_overlap_count"
  let stateful ← optionally boolField? value "stateful"
  let createdAt ← textField? value "created_at"
  return { id, schedule, action, enabled, runningTraceId, lastDueAt, lastFiredAt, lastCompletedAt, lastError
           skippedOverlapCount := skippedOverlapCount.getD zeroLiteral, stateful := stateful.getD false, createdAt }

/-- What the sidecar of the cron jobs is written in, and the hash of a transcript. -/
structure ArchiveLibraries where
  parseToml : List Char → Option Json
  stringifyToml : List CronJobWire → Buffer
  sha256Hex : Buffer → JsString

variable (libraries : ArchiveLibraries)

def parseCronSidecarFile (bytes : Buffer) : Except ArchiveError (List CronJobWire) :=
  match libraries.parseToml (decodeUtf8 bytes) with
  | none => .error .cronSyntax
  | some value =>
    match optionally itemsField? value "jobs" with
    | none => .error .cronSchema
    | some items => ((items.getD []).mapM readJob?).elim (.error .cronSchema) .ok

def rewriteTriggerSidecar (bytes : Buffer) (activate : Bool) : Except ArchiveError TriggerFile := do
  let file ← parseTriggerSidecarFile bytes
  return { file with rules := file.rules.map fun rule => { rule with enabled := rule.enabled && activate } }

def rewriteCronSidecar (bytes : Buffer) (activate : Bool) : Except ArchiveError (List CronJobWire) := do
  let jobs ← parseCronSidecarFile libraries bytes
  return jobs.map fun job =>
    { job with
      enabled := job.enabled && activate, runningTraceId := none, lastDueAt := none, lastError := none
      skippedOverlapCount := zeroLiteral }

def safeOriginallyEnabledTriggers (bytes : Buffer) : List JsString :=
  match parseTriggerSidecarFile bytes with
  | .ok file => (file.rules.filter (·.enabled)).map (·.id)
  | .error _ => []

def safeOriginallyEnabledCron (bytes : Buffer) : List JsString :=
  match parseCronSidecarFile libraries bytes with
  | .ok jobs => (jobs.filter (·.enabled)).map (·.id)
  | .error _ => []

end Sidecars

section Parsing

structure ParsedSession where
  entries : List Json := []
  originalEntryLines : List (List Char) := []
  seen : List (Option Json) := []
  /-- The id of the last entry. -/
  activeLeafId : Option Json := none

/-- `seen.has(id)` -/
def ParsedSession.has (parsed : ParsedSession) (id : Option Json) : Bool := id.all isPrimitive && id ∈ parsed.seen

/-- A line behind the header. -/
def ParsedSession.readLine (parsed : ParsedSession) (lineNumber : ℕ) (line : List Char) :
    Except ArchiveError ParsedSession :=
  if isBlank line then .ok parsed
  else do
    let entry ← (parse? line).elim (.error (.entrySyntax lineNumber)) .ok
    let id ← property (some entry) "id"
    if parsed.has id then .error .duplicateId
    let parsed := { parsed with seen := parsed.seen ++ [id] }
    let parentId ← property (some entry) "parentId"
    if parentId ≠ none ∧ parentId ≠ some .null ∧ ¬parsed.has parentId then .error .danglingParent
    return { parsed with
      entries := parsed.entries ++ [entry], originalEntryLines := parsed.originalEntryLines ++ [line]
      activeLeafId := id }

def ParsedSession.readLines (parsed : ParsedSession) : ℕ → List (List Char) → Except ArchiveError ParsedSession
  | _, [] => .ok parsed
  | lineNumber, line :: lines => do
    let parsed ← parsed.readLine lineNumber line
    parsed.readLines (lineNumber + 1) lines

def parseSessionJsonlForArchive (text : List Char) : Except ArchiveError ParsedSession :=
  match text.splitOn '\n' with
  | [] => .error .emptyTranscript
  | first :: lines =>
    if text = [] then .error .emptyTranscript
    else
      match parse? first with
      | none => .error .metadataSyntax
      | some rawHeader =>
        match parseSessionHeader rawHeader with
        | none => .error .missingId
        | some header =>
          if trim header.id = [] then .error .missingId else ParsedSession.readLines {} 2 lines

def rewriteSessionJsonl (parsed : ParsedSession) (manifest : Json) (newId cwd timestamp : JsString) (path : Location) :
    Except ArchiveError Buffer := do
  let source ← property (some manifest) "source"
  let sessionId ← property source "session_id"
  let sourceCwd ← property source "cwd"
  let exportedAt ← property (some manifest) "created_at"
  let pieVersion ← property (some manifest) "pie_version"
  let header : Transcript.SessionHeader :=
    { version := some currentSessionVersion, id := newId, timestamp := some (.str timestamp), cwd := some (.str cwd)
      parentSession := none
      importedFrom := some (.obj (fields [("sessionId", sessionId), ("cwd", sourceCwd), ("exportedAt", exportedAt),
        ("pieVersion", pieVersion)])) }
  let lines := stringify (serializeSessionHeader header path.path) :: parsed.originalEntryLines
  return encodeUtf8 (lines.flatMap fun line => line ++ ['\n'])

end Parsing

section Import

inductive ActivateTriggers where
  | off
  | ask
  | on
deriving DecidableEq

/-- How the operations of an import end. -/
structure ImportOutcomes where
  makesDir : Bool
  session : DiskWrite
  reads : Bool
  sidecar : Location → DiskWrite
  renames : Bool

/-- `loadEntriesFromFile` for a transcript that must not be salvaged. -/
def validateStaged (path : Location) (content : Buffer) : Except ArchiveError Unit :=
  match loadEntriesFromFile path.path content with
  | .error invalid => .error (.invalidEntry invalid.lineNumber)
  | .ok none => .ok ()
  | .ok (some loaded) => loaded.salvagedLine.elim (.ok ()) fun lineNumber => .error (.invalidEntry lineNumber)

def writeSidecars (outcome : Location → DiskWrite) (disk : Disk) : List (Location × Buffer) → Disk × Bool
  | [] => (disk, true)
  | (path, content) :: rest =>
    match writeFile disk path content (outcome path) with
    | (disk, true) => writeSidecars outcome disk rest
    | (disk, false) => (disk, false)

variable (outcomes : ImportOutcomes)

/-- What `commitImport` tries. -/
def stageImport (disk : Disk) (sessionPath tempPath : Location) (sessionContent : Buffer)
    (sidecars : List (Location × Buffer)) : Disk × Except ArchiveError Unit :=
  match writeFile disk tempPath sessionContent outcomes.session with
  | (disk, false) => (disk, .error .file)
  | (disk, true) =>
    if ¬outcomes.reads then (disk, .error .file)
    else
      match validateStaged tempPath ((disk tempPath).getD []) with
      | .error error => (disk, .error error)
      | .ok () =>
        match writeSidecars outcomes.sidecar disk sidecars with
        | (disk, false) => (disk, .error .file)
        | (disk, true) => if outcomes.renames then (rename disk tempPath sessionPath, .ok ()) else (disk, .error .file)

def commitImport (disk : Disk) (sessionPath tempPath : Location) (sessionContent : Buffer)
    (sidecars : List (Location × Buffer)) : Disk × Except ArchiveError Unit :=
  match stageImport outcomes disk sessionPath tempPath sessionContent sidecars with
  | (disk, .ok ()) => (disk, .ok ())
  | (disk, .error error) =>
    (sidecars.foldl (fun disk sidecar => unlink disk sidecar.1) (unlink disk tempPath), .error error)

structure ImportSummary where
  sessionId : JsString
  sessionPath : Location
  entryCount : ℕ
  triggersImported : ℕ
  cronImported : ℕ
  automationEnabled : Bool
  originallyEnabledTriggers : List JsString
  originallyEnabledCron : List JsString

/-- What an import is asked for. -/
structure ImportRequest where
  sessionsDir : JsString
  /-- The files of the archive. -/
  files : SessionArchive.Files
  cwd : JsString
  activateTriggers : ActivateTriggers
  newId : JsString
  timestamp : JsString

variable (libraries : ArchiveLibraries) (request : ImportRequest)

def ImportRequest.automationEnabled : Bool := request.activateTriggers = .on

def ImportRequest.sessionPath : Location := ⟨request.sessionsDir, request.newId ++ js ".jsonl"⟩

def ImportRequest.tempPath : Location := ⟨request.sessionsDir, request.newId ++ js ".jsonl.tmp"⟩

/-- What an import commits. -/
structure ImportPlan where
  manifest : Json
  parsed : ParsedSession
  triggers : Option TriggerFile
  cron : Option (List CronJobWire)

/-- The file of an archive at a path. -/
def ImportRequest.file? (path : String) : Option Buffer := request.files.get? (js path)

/-- The checks of the manifest against the transcript. -/
def checkManifest (sessionBytes manifestBytes : Buffer) : Except ArchiveError (Json × ParsedSession) := do
  let manifest ← (parse? (decodeUtf8 manifestBytes)).elim (.error .manifestSyntax) .ok
  let schema ← property (some manifest) "schema"
  if schema ≠ some (.str (js "pie.session_export.v1")) then .error .unsupportedSchema
  let content ← property (some manifest) "content"
  let hash ← property content "session_jsonl_sha256"
  if hash ≠ some (.str (libraries.sha256Hex sessionBytes)) then .error .checksum
  let parsed ← parseSessionJsonlForArchive (decodeUtf8 sessionBytes)
  let entryCount ← property content "entry_count"
  if entryCount.bind natural? ≠ some parsed.entries.length then .error .entryCount
  let activeLeafId ← property content "active_leaf_id"
  let leaf := parsed.activeLeafId.getD .null
  if activeLeafId ≠ some leaf ∨ ¬isPrimitive leaf then .error .activeLeaf
  return (manifest, parsed)

/-- What `importSession` does before it touches a file. -/
def planImport : Except ArchiveError ImportPlan := do
  if request.activateTriggers = .ask then .error .activationAsks
  let manifestBytes ← (request.file? "manifest.json").elim (.error .missingManifest) .ok
  let sessionBytes ← (request.file? "session.jsonl").elim (.error .missingSession) .ok
  let (manifest, parsed) ← checkManifest libraries sessionBytes manifestBytes
  let triggers ← (request.file? "sidecars/triggers.json").mapM (rewriteTriggerSidecar · request.automationEnabled)
  let cron ← (request.file? "sidecars/cron.toml").mapM (rewriteCronSidecar libraries · request.automationEnabled)
  return { manifest, parsed, triggers, cron }

/-- The sidecars that are written, in their order. -/
def ImportPlan.sidecars (plan : ImportPlan) : List (Location × Buffer) :=
  (plan.triggers.map fun file => (triggerSidecarPath request.sessionPath, file.bytes)).toList ++
    (plan.cron.map fun jobs => (cronSidecarPath request.sessionPath, libraries.stringifyToml jobs)).toList

def ImportPlan.summary (plan : ImportPlan) : ImportSummary where
  sessionId := request.newId
  sessionPath := request.sessionPath
  entryCount := plan.parsed.entries.length
  triggersImported := (plan.triggers.map (·.rules.length)).getD 0
  cronImported := (plan.cron.map (·.length)).getD 0
  automationEnabled := request.automationEnabled
  originallyEnabledTriggers := ((request.file? "sidecars/triggers.json").map safeOriginallyEnabledTriggers).getD []
  originallyEnabledCron := ((request.file? "sidecars/cron.toml").map (safeOriginallyEnabledCron libraries)).getD []

def importSession (disk : Disk) : Disk × Except ArchiveError ImportSummary :=
  match planImport libraries request with
  | .error error => (disk, .error error)
  | .ok plan =>
    if ¬outcomes.makesDir then (disk, .error .file)
    else if (disk request.sessionPath).isSome then (disk, .error .destinationExists)
    else
      match rewriteSessionJsonl plan.parsed plan.manifest request.newId request.cwd request.timestamp
          request.sessionPath with
      | .error error => (disk, .error error)
      | .ok rewritten =>
        match commitImport outcomes disk request.sessionPath request.tempPath rewritten
            (plan.sidecars libraries request) with
        | (disk, .error error) => (disk, .error error)
        | (disk, .ok ()) => (disk, .ok (plan.summary libraries request))

end Import

section Activation

/-- What an activation is asked for, and how its operations on files end. -/
structure ActivationRequest where
  sessionPath : Location
  triggerIds : List JsString
  cronIds : List JsString
  readsTriggers : Bool
  writesTriggers : DiskWrite
  readsCron : Bool
  writesCron : DiskWrite

variable (libraries : ArchiveLibraries) (request : ActivationRequest)

/-- `readFileSync` of a path. -/
def readFile (disk : Disk) (path : Location) (reads : Bool) : Except ArchiveError Buffer :=
  if reads then (disk path).elim (.error .file) .ok else .error .file

/-- The rules with those enabled that are asked for. -/
def TriggerFile.activate (file : TriggerFile) (ids : List JsString) : TriggerFile :=
  { file with rules := file.rules.map fun rule => if rule.id ∈ ids then { rule with enabled := true } else rule }

/-- How many of the rules are enabled by that. -/
def TriggerFile.activated (file : TriggerFile) (ids : List JsString) : ℕ :=
  file.rules.countP fun rule => rule.id ∈ ids && !rule.enabled

def activateJobs (jobs : List CronJobWire) (ids : List JsString) : List CronJobWire :=
  jobs.map fun job => if job.id ∈ ids then { job with enabled := true } else job

def activatedJobs (jobs : List CronJobWire) (ids : List JsString) : ℕ :=
  jobs.countP fun job => job.id ∈ ids && !job.enabled

/-- The first half of `activateImported`. -/
def activateTriggers (disk : Disk) : Disk × Except ArchiveError ℕ :=
  if request.triggerIds = [] then (disk, .ok 0)
  else
    let path := triggerSidecarPath request.sessionPath
    match readFile disk path request.readsTriggers >>= parseTriggerSidecarFile with
    | .error error => (disk, .error error)
    | .ok file =>
      match writeFile disk path (file.activate request.triggerIds).bytes request.writesTriggers with
      | (disk, true) => (disk, .ok (file.activated request.triggerIds))
      | (disk, false) => (disk, .error .file)

/-- The second half of `activateImported`. -/
def activateCron (disk : Disk) : Disk × Except ArchiveError ℕ :=
  if request.cronIds = [] then (disk, .ok 0)
  else
    let path := cronSidecarPath request.sessionPath
    match readFile disk path request.readsCron >>= parseCronSidecarFile libraries with
    | .error error => (disk, .error error)
    | .ok jobs =>
      match writeFile disk path (libraries.stringifyToml (activateJobs jobs request.cronIds)) request.writesCron with
      | (disk, true) => (disk, .ok (activatedJobs jobs request.cronIds))
      | (disk, false) => (disk, .error .file)

/-- `activateImported`, with how many rules and jobs have been enabled. -/
def activateImported (disk : Disk) : Disk × Except ArchiveError (ℕ × ℕ) :=
  match activateTriggers request disk with
  | (disk, .error error) => (disk, .error error)
  | (disk, .ok triggersEnabled) =>
    match activateCron libraries request disk with
    | (disk, .error error) => (disk, .error error)
    | (disk, .ok cronEnabled) => (disk, .ok (triggersEnabled, cronEnabled))

end Activation

end PieAgent.Model.ArchiveImport
