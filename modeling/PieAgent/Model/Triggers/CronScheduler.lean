import PieAgent.JavaScript.Core.Json
import PieAgent.Machine.Core.Labeled
import PieAgent.Model.Triggers.CronRegistry
import PieAgent.Model.Triggers.TriggerRuntime

/-! # The cron scheduler and the trigger supervisor

The scan loop of the cron hook fires the jobs that are due since the last scan, pushing one trigger for
each of them. The drain loop of the supervisor takes the triggers in order and dispatches them: the runtime
admits a trigger or drops it, and an admitted trigger runs until it completes or fails, which clears the
marker of the job. Tools, commands, other hooks and restarts of the program come in between.

Ids are unique while they are in use: this is what random ids are taken for.
-/

/-! ## The tools and commands that change cron jobs

The model creates, disables and removes jobs with tools, whose arguments are any JSON value. The user
does so with commands, and alone can enable a job.
-/

namespace PieAgent.Model

open JavaScript

def modelEnableRequiresHuman : JsString :=
  js "enabling cron jobs from model-facing tools requires user confirmation; use /cron enable <id>"

/-- A code unit in lower case, where that is an ASCII letter. Besides capitals this holds of the Kelvin sign. -/
def lowerUnit (unit : CodeUnit) : CodeUnit :=
  if 0x41 ≤ unit ∧ unit ≤ 0x5A then unit + 0x20 else if unit = 0x212A then 0x6B else unit

def hourlyAliases : List JsString := [js "hourly", js "every hour", js "once an hour"]

def dailyAliases : List JsString := [js "daily", js "every day", js "once a day"]

def weeklyAliases : List JsString := [js "weekly", js "every week", js "once a week"]

/-- `haystack.includes(needle)`. -/
def includes (haystack : JsString) (needle : String) : Prop := js needle <:+: haystack

instance (haystack : JsString) (needle : String) : Decidable (includes haystack needle) :=
  inferInstanceAs (Decidable (js needle <:+: haystack))

def normalizeSchedule (input : JsString) : Except JsString JsString :=
  let trimmed := trim input
  let normalized := trimmed.map lowerUnit
  match parseCronExpression trimmed with
  | .ok _ => .ok trimmed
  | .error _ =>
    if normalized ∈ hourlyAliases then .ok (js "0 * * * *")
    else if normalized ∈ dailyAliases then .ok (js "0 9 * * *")
    else if normalized ∈ weeklyAliases then .ok (js "0 9 * * 1")
    else if includes trimmed "每小时" ∨ includes trimmed "每個小時" then .ok (js "0 * * * *")
    else if includes trimmed "每天" ∨ includes trimmed "每日" then .ok (js "0 9 * * *")
    else if includes trimmed "每周" ∨ includes trimmed "每週" then .ok (js "0 9 * * 1")
    else .error (js ("invalid schedule: provide a 5-field cron expression, or a supported alias such as " ++
      "hourly / every hour / 每小时"))

/-- A text argument of a tool. -/
def textArg (params : Json) (name : String) : Except JsString JsString :=
  match (params.get? (js name)).bind Json.str? with
  | some text => .ok text
  | none => .error (js "missing required arg: " ++ js name)

def boolArg? (params : Json) (name : String) : Option Bool :=
  match params.get? (js name) with
  | some (.bool value) => some value
  | _ => none

def noCronJob (id : JsString) : JsString := js "no cron job with id '" ++ id ++ js "'"

/-- What an operation of the registry answers, no job being an error. -/
def requireJob (id : JsString) : Except JsString (Option CronJob) → Except JsString CronJob
  | .ok (some job) => .ok job
  | .ok none => .error (noCronJob id)
  | .error error => .error error

inductive CronTool where
  | newCronJob | removeCronJob | setCronJobState

/-- What a tool call draws: the id and instant of a new job, and how the file is written. -/
structure CronDraw where
  uuid : JsString
  createdAt : ℤ
  outcome : WriteOutcome

namespace CronRegistry

variable (registry : CronRegistry)

/-- A registry operation on behalf of a call whose arguments are fine. -/
def attempt {α : Type} (checked : Except JsString α) (operation : α → CronRegistry × Except JsString CronJob) :
    CronRegistry × Except JsString CronJob :=
  match checked with
  | .ok arguments => operation arguments
  | .error error => (registry, .error error)

/-- `NewCronJobTool.execute`: the job is created disabled. -/
def newCronJob (params : Json) (draw : CronDraw) : CronRegistry × Except JsString CronJob :=
  registry.attempt
    (do
      let schedule ← textArg params "schedule" >>= normalizeSchedule
      let action ← textArg params "action"
      pure (schedule, action))
    fun (schedule, action) =>
      let (registry, added) := registry.addJobFull schedule action ((boolArg? params "stateful").getD false) false
        draw.uuid draw.createdAt draw.outcome
      (registry, added.mapError AddCronJobError.message)

/-- `RemoveCronJobTool.execute`: without confirmation the job is only shown. -/
def removeCronJob (params : Json) (draw : CronDraw) : CronRegistry × Except JsString CronJob :=
  registry.attempt
    (do
      let id ← textArg params "id"
      let job ← requireJob id (.ok (registry.jobs.find? (·.id = id)))
      pure (id, job))
    fun (id, job) =>
      if (boolArg? params "confirm").getD false then
        let (registry, removed) := registry.removeJob id draw.outcome
        (registry, requireJob id removed)
      else (registry, .ok job)

/-- `SetCronJobStateTool.execute`: enabling is refused. -/
def setCronJobState (params : Json) (draw : CronDraw) : CronRegistry × Except JsString CronJob :=
  registry.attempt
    (do
      let id ← textArg params "id"
      match boolArg? params "enabled" with
      | none => .error (js "missing required arg: enabled")
      | some true => .error modelEnableRequiresHuman
      | some false => pure id)
    fun id =>
      let (registry, updated) := registry.setJobEnabled id false draw.outcome
      (registry, requireJob id updated)

/-- A call of one of the tools. -/
def callTool (tool : CronTool) (params : Json) (draw : CronDraw) : CronRegistry × Except JsString CronJob :=
  match tool with
  | .newCronJob => registry.newCronJob params draw
  | .removeCronJob => registry.removeCronJob params draw
  | .setCronJobState => registry.setCronJobState params draw

end CronRegistry

/-- A `/cron` command that changes a job. -/
inductive CronCommand where
  | add (schedule action : JsString) (stateful : Bool)
  | enable (id : JsString)
  | disable (id : JsString)
  | remove (id : JsString)

/-- The registry operation behind a command. -/
def CronRegistry.runCommand (registry : CronRegistry) (draw : CronDraw) :
    CronCommand → CronRegistry × Except JsString CronJob
  | .add schedule action stateful =>
    let (registry, added) := registry.addJobFull schedule action stateful true draw.uuid draw.createdAt draw.outcome
    (registry, added.mapError AddCronJobError.message)
  | .enable id =>
    let (registry, updated) := registry.setJobEnabled id true draw.outcome
    (registry, requireJob id updated)
  | .disable id =>
    let (registry, updated) := registry.setJobEnabled id false draw.outcome
    (registry, requireJob id updated)
  | .remove id =>
    let (registry, removed) := registry.removeJob id draw.outcome
    (registry, requireJob id removed)

end PieAgent.Model

namespace PieAgent.Model

open JavaScript

/-- The place of the program, and the redacting preview of a text. -/
structure CronSetting where
  zone : TimeZone
  previewRedacted : JsString → JsString

def cronSubkind : JsString := js "cron"

/-- A firing of a job: its id, its due minute and its trace. -/
structure CronFiring where
  jobId : JsString
  dueAt : ℤ
  traceId : JsString
deriving DecidableEq

/-- What a scan draws: the instant, and for every job an id and the instant of its trigger. -/
structure CronScan where
  now : ℤ
  uuids : ℕ → JsString
  receivedAt : ℤ
  outcome : WriteOutcome

/-- `cronTriggerForJob`. -/
def cronTriggerForJob (setting : CronSetting) (receivedAt : ℤ) (job : CronJob) (dueAt : ℤ) (traceId : JsString) :
    Trigger where
  source := .local cronSubkind
  sourceKind := .local
  sourceLabel := js "Cron"
  eventLabel := job.id
  payloadVisibility := .local
  payloadSummary := some (js "cron `" ++ job.id ++ js "` due at " ++ toRfc3339Offset dueAt ++ js ": " ++
    setting.previewRedacted job.action)
  idempotencyKey := js "cron:" ++ job.id ++ js ":" ++ toRfc3339Offset dueAt
  replacementPolicy := .drop
  traceId
  authority :=
    { principalId := js "local-cron", principalLabel := js "local cron", credentialScope := .none
      allowedSourceActions := [], expiresAt := none }
  receivedAt := ⟨toISOString receivedAt, some receivedAt⟩

/-- The due jobs that a scan pushes a trigger for, with their due minutes and their traces. -/
def dueFirings (due : List (CronJob × ℤ)) : List (CronJob × ℤ × JsString) :=
  due.filterMap fun (job, dueAt) => job.runningTraceId.map fun traceId => (job, dueAt, traceId)

structure CronState where
  registry : CronRegistry
  /-- The instant of the last scan, while the scan loop runs. -/
  lastScan : Option ℤ
  /-- The triggers that wait in the sink. -/
  sink : List Trigger
  sinkClosed : Bool
  /-- Whether the supervisor has been stopped. -/
  aborted : Bool
  runtime : TriggerRuntime
  /-- The admitted triggers whose dispatch has not settled. -/
  running : List Trigger
  fired : List CronFiring

/-- How a dispatch settles, which the listener of the hook is told. -/
inductive DispatchEnd where
  | triggerCompleted
  | triggerFailed (reason : JsString)

/-- The error that a job shows after a dispatch. -/
def DispatchEnd.error : DispatchEnd → Option JsString
  | .triggerCompleted => none
  | .triggerFailed reason => some reason

inductive CronEvent where
  | tool (tool : CronTool) (params : Json) (draw : CronDraw)
  | command (command : CronCommand) (draw : CronDraw)
  | tick (scan : CronScan)
  | pushOther (trigger : Trigger)
  | dispatch
  | settle (trigger : Trigger) (how : DispatchEnd) (completedAt : ℤ) (outcome : WriteOutcome)
  | closeSink
  | stop
  | restart (filePath : Option JsString) (startedAt : ℤ) (config : TriggerRuntimeConfig) (outcome : WriteOutcome)

namespace CronState

/-- The program before its first start. -/
def initial (config : TriggerRuntimeConfig) : CronState where
  registry := { jobs := [], storagePath := none, sidecar := .absent }
  lastScan := none
  sink := []
  sinkClosed := false
  aborted := false
  runtime := .new config
  running := []
  fired := []

variable (state : CronState)

/-- The triggers that are queued or running. -/
def inFlight : List Trigger := state.sink ++ state.running

/-- The traces in use. -/
def traces : List JsString := state.registry.jobs.filterMap (·.runningTraceId) ++ state.inFlight.map (·.traceId)

/-- A new job id is not in use. -/
def FreshId (uuid : JsString) : Prop :=
  (∀ job ∈ state.registry.jobs ++ state.registry.sidecar.listed, job.id ≠ js "cron-" ++ uuid) ∧
    ∀ trigger ∈ state.inFlight, trigger.eventLabel ≠ js "cron-" ++ uuid

instance (uuid : JsString) : Decidable (state.FreshId uuid) := inferInstanceAs (Decidable (_ ∧ _))

/-- The traces that a scan draws are not in use and differ from each other. -/
def FreshTraces (uuids : ℕ → JsString) : Prop :=
  ((List.range state.registry.jobs.length).map uuids).Nodup ∧
    ∀ place < state.registry.jobs.length, js "cron-" ++ uuids place ∉ state.traces

instance (uuids : ℕ → JsString) : Decidable (state.FreshTraces uuids) := inferInstanceAs (Decidable (_ ∧ _))

/-- A scan of the jobs. When the sink is closed, the scan loop ends at the first job that fires. -/
def scan (setting : CronSetting) (since : ℤ) (scan : CronScan) : CronState :=
  let (registry, due) := state.registry.dueJobs setting.zone since scan.now scan.uuids scan.outcome
  let firings := dueFirings due
  if state.sinkClosed ∧ firings ≠ [] then { state with registry, lastScan := none }
  else
    { state with
      registry
      lastScan := some scan.now
      sink := state.sink ++ firings.map fun (job, dueAt, traceId) =>
        cronTriggerForJob setting scan.receivedAt job dueAt traceId
      fired := state.fired ++ firings.map fun (job, dueAt, traceId) => ⟨job.id, dueAt, traceId⟩ }

/-- The drain loop takes the next trigger. A trigger that the runtime does not accept is dropped. -/
def dispatch (trigger : Trigger) (queued : List Trigger) : CronState :=
  let (runtime, outcome) := state.runtime.evaluate trigger
  { state with
    sink := queued
    runtime
    running := if outcome = .accept then state.running ++ [trigger] else state.running }

/-- A dispatch settles, and the listener of the hook hears of it. -/
def settle (trigger : Trigger) (how : DispatchEnd) (completedAt : ℤ) (outcome : WriteOutcome) : CronState :=
  { state with
    running := state.running.erase trigger
    registry := state.registry.markCompleted trigger.traceId how.error completedAt outcome }

/-- A new start of the program. A file that cannot be loaded leaves the registry empty. -/
def restart (filePath : Option JsString) (startedAt : ℤ) (config : TriggerRuntimeConfig) (outcome : WriteOutcome) :
    CronState :=
  let empty := { state.registry with jobs := [], storagePath := none }
  { initial config with
    registry := match filePath with
      | none => empty
      | some filePath => (empty.loadFromPath filePath outcome).1
    lastScan := some startedAt
    fired := state.fired }

variable (setting : CronSetting)

/-- One step. -/
def step? : CronEvent → Option CronState
  | .tool tool params draw =>
    if state.FreshId draw.uuid then some { state with registry := (state.registry.callTool tool params draw).1 } else none
  | .command command draw =>
    if state.FreshId draw.uuid then some { state with registry := (state.registry.runCommand draw command).1 } else none
  | .tick scan =>
    if state.FreshTraces scan.uuids then state.lastScan.map fun since => state.scan setting since scan else none
  | .pushOther trigger =>
    if state.sinkClosed ∨ trigger.source = .local cronSubkind ∨ trigger.traceId ∈ state.traces then none
    else some { state with sink := state.sink ++ [trigger] }
  | .dispatch =>
    match state.sink with
    | [] => none
    | trigger :: queued => if state.aborted then none else some (state.dispatch trigger queued)
  | .settle trigger how completedAt outcome =>
    if trigger ∈ state.running then some (state.settle trigger how completedAt outcome) else none
  | .closeSink => some { state with sinkClosed := true }
  | .stop => some { state with aborted := true, sinkClosed := true, lastScan := none }
  | .restart filePath startedAt config outcome => some (state.restart filePath startedAt config outcome)

/-- The scheduler of a setting as a machine. -/
abbrev machine : CronState → CronEvent → Option CronState := fun state => state.step? setting

end CronState

end PieAgent.Model
