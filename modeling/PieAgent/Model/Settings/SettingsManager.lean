import Mathlib.Data.Rat.Floor
import PieAgent.JavaScript.Core.Objects

/-! # The settings of a session

A setter changes the settings in memory, marks what it has changed and queues a write. A write reads the file, sets the
marked fields in it from the settings as they were when it was queued, and clears the marks. Other processes do the same
to the same file; the lock keeps apart what is done under it, but a file that does not exist yet is read without it.

The merged view of both scopes, the list of errors and the values that are no settings objects are left out.
-/

namespace PieAgent.Model.Settings

open JavaScript

inductive SettingsScope where
  | global
  | project
deriving DecidableEq

abbrev Settings := JsObject

section Migration

def migrateQueueMode (settings : Settings) : Settings :=
  match getField settings (js "queueMode"), getField settings (js "steeringMode") with
  | some mode, none => assign (assign settings (js "steeringMode") (some mode)) (js "queueMode") none
  | _, _ => settings

def migrateWebsockets (settings : Settings) : Settings :=
  match getField settings (js "transport"), getField settings (js "websockets") with
  | none, some (.bool websockets) =>
    assign (assign settings (js "transport") (some (.str (if websockets then js "websocket" else js "sse"))))
      (js "websockets") none
  | _, _ => settings

def migrateSkills (settings : Settings) : Settings :=
  match getField settings (js "skills") with
  | some (.obj skills) =>
    let settings := match getField skills (js "enableSkillCommands"), getField settings (js "enableSkillCommands") with
      | some enabled, none => assign settings (js "enableSkillCommands") (some enabled)
      | _, _ => settings
    match getField skills (js "customDirectories") with
    | some (.arr (directory :: directories)) => assign settings (js "skills") (some (.arr (directory :: directories)))
    | _ => assign settings (js "skills") none
  | _ => settings

/-- `retry.maxDelayMs` becomes `retry.provider.maxRetryDelayMs`, unless there is one. -/
def migrateRetryFields (retry : JsObject) : JsObject :=
  let provider := (getField retry (js "provider")).filter isObject
  let known := match provider with
    | some (.obj fields) =>
      match getField fields (js "maxRetryDelayMs") with
      | some .null => none
      | known => known
    | _ => none
  let retry := match getField retry (js "maxDelayMs"), known with
    | some (.num delay), none =>
      assign retry (js "provider")
        (some (.obj (assign (spread (provider.getD .null)) (js "maxRetryDelayMs") (some (.num delay)))))
    | _, _ => retry
  assign retry (js "maxDelayMs") none

def migrateRetry (settings : Settings) : Settings :=
  match getField settings (js "retry") with
  | some (.obj retry) => assign settings (js "retry") (some (.obj (migrateRetryFields retry)))
  | _ => settings

def migrateSettings (settings : Settings) : Settings :=
  migrateRetry (migrateSkills (migrateWebsockets (migrateQueueMode settings)))

end Migration

section Setters

/-- The assignment of a setter, to a field or to a key of the object that a field holds. -/
structure Change where
  field : JsString
  nested : Option JsString
  value : Option JsonValue

namespace Change

def ofField (field : String) (value : Option JsonValue) : Change := ⟨js field, none, value⟩

def ofNested (field key : String) (value : JsonValue) : Change := ⟨js field, some (js key), some value⟩

end Change

/-- The calls of the setters. A number is finite. -/
inductive Setter where
  | setLastChangelogVersion (version : JsString)
  | setDefaultProvider (provider : JsString)
  | setDefaultModel (modelId : JsString)
  | setDefaultModelAndProvider (provider modelId : JsString)
  | setSteeringMode (mode : JsString)
  | setFollowUpMode (mode : JsString)
  | setTheme (theme : JsString)
  | setDefaultThinkingLevel (level : JsString)
  | setTransport (transport : JsString)
  | setCompactionEnabled (enabled : Bool)
  | setRetryEnabled (enabled : Bool)
  | setHttpIdleTimeoutMs (timeoutMs : ℚ)
  | setHideThinkingBlock (hide : Bool)
  | setShellPath (path : Option JsString)
  | setQuietStartup (quiet : Bool)
  | setShellCommandPrefix (commandPrefix : Option JsString)
  | setNpmCommand (command : Option (List JsString))
  | setCollapseChangelog (collapse : Bool)
  | setEnableInstallTelemetry (enabled : Bool)
  | setPackages (packages : List JsonValue)
  | setProjectPackages (packages : List JsonValue)
  | setExtensionPaths (paths : List JsString)
  | setProjectExtensionPaths (paths : List JsString)
  | setSkillPaths (paths : List JsString)
  | setProjectSkillPaths (paths : List JsString)
  | setPromptTemplatePaths (paths : List JsString)
  | setProjectPromptTemplatePaths (paths : List JsString)
  | setThemePaths (paths : List JsString)
  | setProjectThemePaths (paths : List JsString)
  | setEnableSkillCommands (enabled : Bool)
  | setShowImages (show_ : Bool)
  | setImageWidthCells (width : ℚ)
  | setClearOnShrink (enabled : Bool)
  | setShowTerminalProgress (enabled : Bool)
  | setImageAutoResize (enabled : Bool)
  | setBlockImages (blocked : Bool)
  | setEnabledModels (patterns : Option (List JsString))
  | setDoubleEscapeAction (action : JsString)
  | setTreeFilterMode (mode : JsString)
  | setShowHardwareCursor (enabled : Bool)
  | setEditorPaddingX (padding : ℚ)
  | setAutocompleteMaxVisible (maxVisible : ℚ)
  | setWarnings (anthropicExtraUsage : Option Bool)

namespace Setter

private def strings (texts : List JsString) : JsonValue := .arr (texts.map .str)

private def integer (n : ℤ) : JsonValue := .num (.finite n)

def scope : Setter → SettingsScope
  | setProjectPackages _ | setProjectExtensionPaths _ | setProjectSkillPaths _ | setProjectPromptTemplatePaths _
  | setProjectThemePaths _ => .project
  | _ => .global

/-- What a setter changes; absent when it refuses its argument. -/
def changes? : Setter → Option (List Change)
  | setLastChangelogVersion version => some [.ofField "lastChangelogVersion" (some (.str version))]
  | setDefaultProvider provider => some [.ofField "defaultProvider" (some (.str provider))]
  | setDefaultModel modelId => some [.ofField "defaultModel" (some (.str modelId))]
  | setDefaultModelAndProvider provider modelId =>
    some [.ofField "defaultProvider" (some (.str provider)), .ofField "defaultModel" (some (.str modelId))]
  | setSteeringMode mode => some [.ofField "steeringMode" (some (.str mode))]
  | setFollowUpMode mode => some [.ofField "followUpMode" (some (.str mode))]
  | setTheme theme => some [.ofField "theme" (some (.str theme))]
  | setDefaultThinkingLevel level => some [.ofField "defaultThinkingLevel" (some (.str level))]
  | setTransport transport => some [.ofField "transport" (some (.str transport))]
  | setCompactionEnabled enabled => some [.ofNested "compaction" "enabled" (.bool enabled)]
  | setRetryEnabled enabled => some [.ofNested "retry" "enabled" (.bool enabled)]
  | setHttpIdleTimeoutMs timeoutMs =>
    if timeoutMs < 0 then none else some [.ofField "httpIdleTimeoutMs" (some (integer ⌊timeoutMs⌋))]
  | setHideThinkingBlock hide => some [.ofField "hideThinkingBlock" (some (.bool hide))]
  | setShellPath path => some [.ofField "shellPath" (path.map .str)]
  | setQuietStartup quiet => some [.ofField "quietStartup" (some (.bool quiet))]
  | setShellCommandPrefix commandPrefix => some [.ofField "shellCommandPrefix" (commandPrefix.map .str)]
  | setNpmCommand command => some [.ofField "npmCommand" (command.map strings)]
  | setCollapseChangelog collapse => some [.ofField "collapseChangelog" (some (.bool collapse))]
  | setEnableInstallTelemetry enabled => some [.ofField "enableInstallTelemetry" (some (.bool enabled))]
  | setPackages packages | setProjectPackages packages => some [.ofField "packages" (some (.arr packages))]
  | setExtensionPaths paths | setProjectExtensionPaths paths => some [.ofField "extensions" (some (strings paths))]
  | setSkillPaths paths | setProjectSkillPaths paths => some [.ofField "skills" (some (strings paths))]
  | setPromptTemplatePaths paths | setProjectPromptTemplatePaths paths =>
    some [.ofField "prompts" (some (strings paths))]
  | setThemePaths paths | setProjectThemePaths paths => some [.ofField "themes" (some (strings paths))]
  | setEnableSkillCommands enabled => some [.ofField "enableSkillCommands" (some (.bool enabled))]
  | setShowImages show_ => some [.ofNested "terminal" "showImages" (.bool show_)]
  | setImageWidthCells width => some [.ofNested "terminal" "imageWidthCells" (integer (max 1 ⌊width⌋))]
  | setClearOnShrink enabled => some [.ofNested "terminal" "clearOnShrink" (.bool enabled)]
  | setShowTerminalProgress enabled => some [.ofNested "terminal" "showTerminalProgress" (.bool enabled)]
  | setImageAutoResize enabled => some [.ofNested "images" "autoResize" (.bool enabled)]
  | setBlockImages blocked => some [.ofNested "images" "blockImages" (.bool blocked)]
  | setEnabledModels patterns => some [.ofField "enabledModels" (patterns.map strings)]
  | setDoubleEscapeAction action => some [.ofField "doubleEscapeAction" (some (.str action))]
  | setTreeFilterMode mode => some [.ofField "treeFilterMode" (some (.str mode))]
  | setShowHardwareCursor enabled => some [.ofField "showHardwareCursor" (some (.bool enabled))]
  | setEditorPaddingX padding => some [.ofField "editorPaddingX" (some (integer (max 0 (min 3 ⌊padding⌋))))]
  | setAutocompleteMaxVisible maxVisible =>
    some [.ofField "autocompleteMaxVisible" (some (integer (max 3 (min 20 ⌊maxVisible⌋))))]
  | setWarnings anthropicExtraUsage =>
    let warnings := match anthropicExtraUsage with
      | some enabled => [(js "anthropicExtraUsage", .bool enabled)]
      | none => []
    some [.ofField "warnings" (some (.obj warnings))]

end Setter

end Setters

/-- The settings of one scope in memory, with the marks of what this session has changed. -/
structure ScopedSettings where
  settings : Settings := []
  modifiedFields : List JsString := []
  modifiedNestedFields : List (JsString × JsString) := []
  loadError : Bool := false

/-- A queued write: the settings and the marks at the time of the call. -/
structure WriteTask where
  scope : SettingsScope
  snapshotSettings : Settings
  modifiedFields : List JsString
  modifiedNestedFields : List (JsString × JsString)

namespace ScopedSettings

variable (memory : ScopedSettings)

/-- `Set.add` -/
def addMark {α : Type} [DecidableEq α] (marks : List α) (mark : α) : List α :=
  if mark ∈ marks then marks else marks ++ [mark]

def markModified (field : JsString) (nestedKey : Option JsString) : ScopedSettings :=
  { memory with
    modifiedFields := addMark memory.modifiedFields field
    modifiedNestedFields := match nestedKey with
      | none => memory.modifiedNestedFields
      | some key => addMark memory.modifiedNestedFields (field, key) }

/-- Assign to a field or to a key of it. A key of a primitive that is true raises a `TypeError`. -/
def assign? (change : Change) : Option Settings :=
  match change.nested with
  | none => some (assign memory.settings change.field change.value)
  | some key =>
    let held := (getField memory.settings change.field).getD .null
    if isTruthy held ∧ ¬isObject held then none
    else
      let fields := if isTruthy held then spread held else []
      some (assign memory.settings change.field (some (.obj (assign fields key change.value))))

def change? (change : Change) : Option ScopedSettings :=
  (memory.assign? change).map fun settings =>
    { memory with settings := settings }.markModified change.field change.nested

def changeAll? : ScopedSettings → List Change → Option ScopedSettings
  | memory, [] => some memory
  | memory, change :: changes => (memory.change? change).bind fun memory => memory.changeAll? changes

def clearModified : ScopedSettings := { memory with modifiedFields := [], modifiedNestedFields := [] }

def writeTask (scope : SettingsScope) : WriteTask :=
  ⟨scope, memory.settings, memory.modifiedFields, memory.modifiedNestedFields⟩

end ScopedSettings

namespace WriteTask

variable (task : WriteTask)

/-- What the field gets: an object keeps the keys of the file that are not marked. -/
def mergedField (currentFileSettings : Settings) (field : JsString) : Option JsonValue :=
  let nestedModified := (task.modifiedNestedFields.filter fun mark => mark.1 = field).map (·.2)
  match getField task.snapshotSettings field with
  | some value =>
    if nestedModified ≠ [] ∧ isObject value then
      let baseNested := spread ((getField currentFileSettings field).getD .null)
      some (.obj (nestedModified.foldl (fun merged key => assign merged key (getField (spread value) key)) baseNested))
    else some value
  | none => none

/-- The settings that `persistScopedSettings` writes over the ones in the file. -/
def mergedSettings (currentFileSettings : Settings) : Settings :=
  task.modifiedFields.foldl (fun merged field => assign merged field (task.mergedField currentFileSettings field))
    currentFileSettings

end WriteTask

/-- A settings file: an object, or a text that does not parse to one. -/
inductive SettingsFile where
  | settings (settings : Settings)
  | invalid

/-- The settings of this session, the files, and what is under way. -/
structure SettingsManager where
  scopes : SettingsScope → ScopedSettings
  files : SettingsScope → Option SettingsFile
  /-- Writes of other processes that have found no file. -/
  creating : SettingsScope → ℕ := fun _ => 0
  writeQueue : List WriteTask := []
  /-- What the first write of the queue has found. -/
  found : Option (Option SettingsFile) := none
  /-- For each reload that waits, the number of writes that it waits for. -/
  reloads : List ℕ := []

/-- What other processes write: settings of their own, changed by setters. -/
structure Foreign where
  scope : SettingsScope
  settings : Settings
  setters : List Setter

inductive Event where
  | set (setter : Setter)
  | flush
  | reload
  /-- The reload goes on. The files of these scopes cannot be read. -/
  | reloaded (unreadable : List SettingsScope)
  /-- The first write looks for the file and reads it, under the lock if there is one. -/
  | found
  | saved
  | failed
  | foreignWrite (foreign : Foreign)
  /-- Another process finds no file. -/
  | foreignFound (scope : SettingsScope)
  /-- It writes the file that it has not found. -/
  | foreignCreate (foreign : Foreign)

namespace Foreign

/-- The changes of all calls; a call with a refused argument changes nothing. -/
def changes (foreign : Foreign) : List Change := foreign.setters.flatMap fun setter => setter.changes?.getD []

def writeTask? (foreign : Foreign) : Option WriteTask :=
  if ∀ setter ∈ foreign.setters, setter.scope = foreign.scope then
    (ScopedSettings.changeAll? { settings := foreign.settings } foreign.changes).map (·.writeTask foreign.scope)
  else none

end Foreign

namespace SettingsManager

variable (manager : SettingsManager)

/-- The current settings of a file; absent when it does not parse. -/
def current? : Option SettingsFile → Option Settings
  | none => some []
  | some (.settings settings) => some (migrateSettings settings)
  | some .invalid => none

def tryLoadFromStorage (file : Option SettingsFile) (unreadable : Bool) (memory : ScopedSettings) : ScopedSettings :=
  match if unreadable then none else current? file with
  | some settings => { memory.clearModified with settings := settings, loadError := false }
  | none => { memory.clearModified with loadError := true }

def create (files : SettingsScope → Option SettingsFile) (unreadable : List SettingsScope) : SettingsManager where
  scopes scope := tryLoadFromStorage (files scope) (scope ∈ unreadable) {}
  files := files

/-- The lock of the file is held by the first write. -/
def isLocked (scope : SettingsScope) : Prop :=
  manager.found.join.isSome ∧ ∃ task ∈ manager.writeQueue.head?, task.scope = scope

instance (scope : SettingsScope) : Decidable (manager.isLocked scope) := inferInstanceAs (Decidable (_ ∧ _))

/-- `markModified` and `save`. -/
def set? (setter : Setter) : Option SettingsManager := do
  let changes ← setter.changes?
  let memory ← (manager.scopes setter.scope).changeAll? changes
  return { manager with
    scopes := Function.update manager.scopes setter.scope memory
    writeQueue := if memory.loadError then manager.writeQueue
      else manager.writeQueue ++ [memory.writeTask setter.scope] }

/-- The first write has ended. -/
def dequeue : SettingsManager :=
  { manager with
    writeQueue := manager.writeQueue.tail
    found := none
    reloads := manager.reloads.map (· - 1) }

def setFile (scope : SettingsScope) (settings : Settings) : SettingsManager :=
  { manager with files := Function.update manager.files scope (some (.settings settings)) }

def step? (manager : SettingsManager) : Event → Option SettingsManager
  | .set setter => if manager.found.isSome then none else manager.set? setter
  | .flush => if manager.found.isSome then none else some manager
  | .reload =>
    if manager.found.isSome then none
    else some { manager with reloads := manager.reloads ++ [manager.writeQueue.length] }
  | .reloaded unreadable =>
    if manager.found.isSome ∨ 0 ∉ manager.reloads then none
    else some { manager with
      scopes := fun scope => tryLoadFromStorage (manager.files scope) (scope ∈ unreadable) (manager.scopes scope)
      reloads := manager.reloads.erase 0 }
  | .found =>
    if manager.found.isSome ∨ 0 ∈ manager.reloads then none
    else manager.writeQueue.head?.map fun task => { manager with found := some (manager.files task.scope) }
  | .saved => do
    let found ← manager.found
    let task ← manager.writeQueue.head?
    let currentFileSettings ← current? found
    return { manager.setFile task.scope (task.mergedSettings currentFileSettings) with
      scopes := Function.update manager.scopes task.scope (manager.scopes task.scope).clearModified }.dequeue
  | .failed => do
    let _ ← manager.found
    let _ ← manager.writeQueue.head?
    return manager.dequeue
  | .foreignWrite foreign => do
    let file ← manager.files foreign.scope
    let currentFileSettings ← current? (some file)
    let task ← foreign.writeTask?
    if manager.isLocked foreign.scope then none
    else return manager.setFile foreign.scope (task.mergedSettings currentFileSettings)
  | .foreignFound scope =>
    if (manager.files scope).isSome then none
    else some { manager with creating := Function.update manager.creating scope (manager.creating scope + 1) }
  | .foreignCreate foreign => do
    let task ← foreign.writeTask?
    if manager.isLocked foreign.scope ∨ manager.creating foreign.scope = 0 then none
    else return { manager.setFile foreign.scope (task.mergedSettings []) with
      creating := Function.update manager.creating foreign.scope (manager.creating foreign.scope - 1) }

end SettingsManager

end PieAgent.Model.Settings
