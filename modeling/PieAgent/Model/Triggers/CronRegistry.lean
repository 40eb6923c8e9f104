import PieAgent.Model.Triggers.CronExpression
import PieAgent.Model.Triggers.Promotion

/-! # The registry of cron jobs

The registry holds the jobs of a session and mirrors them in a sidecar file. What a user or a tool changes
takes effect only once the file is written; what a scan or a completion changes takes effect in any
case. A write that fails may have cut the file short.

The file is kept as the jobs that it lists: what the library for the file format writes, it reads back.
-/

namespace PieAgent.Model

open JavaScript

/-- A job. Timestamps are texts, as in the file. -/
structure CronJob where
  id : JsString
  schedule : JsString
  action : JsString
  enabled : Bool
  runningTraceId : Option JsString
  lastDueAt : Option JsString
  lastFiredAt : Option JsString
  lastCompletedAt : Option JsString
  lastError : Option JsString
  skippedOverlapCount : ℕ
  stateful : Bool
  createdAt : JsString
deriving DecidableEq

def maxActionBytes : ℕ := 4096

/-- `toIsoAutoSiZ` of the ISO text of an instant: no milliseconds on a whole second. -/
def toIsoAutoSiZ (time : ℤ) : JsString :=
  if time % 1000 = 0 then isoSeconds time ++ js "Z" else toISOString time

/-- `toRfc3339Offset` of the ISO text of an instant. -/
def toRfc3339Offset (time : ℤ) : JsString :=
  if time % 1000 = 0 then isoSeconds time ++ js "+00:00"
  else isoSeconds time ++ js "." ++ padStart 3 (time % 1000).toNat ++ js "+00:00"

inductive AddCronJobError where
  | emptyAction
  | actionTooLarge (maxBytes : ℕ)
  | schedule (error : CronScheduleError)
  | storage (message : JsString)

def AddCronJobError.message : AddCronJobError → JsString
  | .emptyAction => js "cron action cannot be empty"
  | .actionTooLarge maxBytes => js "cron action exceeds " ++ digits maxBytes ++ js " bytes"
  | .schedule error => error.message
  | .storage message => message

/-- What the sidecar file holds. -/
inductive Sidecar where
  | absent
  | unreadable (error : JsString)
  | jobs (jobs : List CronJob)

/-- What a write that fails leaves in the file. -/
inductive Leftover where
  | untouched
  | firstJobs (count : ℕ)
  | unreadable (error : JsString)

inductive WriteOutcome where
  | written
  | failed (error : JsString) (left : Leftover)

/-- `writeJobsFile`: the file afterwards, and the error if the write fails. -/
def Sidecar.write (sidecar : Sidecar) (jobs : List CronJob) : WriteOutcome → Sidecar × Option JsString
  | .written => (.jobs jobs, none)
  | .failed error .untouched => (sidecar, some error)
  | .failed error (.firstJobs count) => (.jobs (jobs.take count), some error)
  | .failed error (.unreadable reason) => (.unreadable reason, some error)

/-- `readJobsFile`: a file that is not there holds no jobs. -/
def Sidecar.read : Sidecar → Except JsString (List CronJob)
  | .absent => .ok []
  | .unreadable error => .error error
  | .jobs stored => .ok stored

/-- The jobs that a file lists. -/
def Sidecar.listed : Sidecar → List CronJob
  | .jobs stored => stored
  | _ => []

/-- The registry, and the sidecar file of its session. -/
structure CronRegistry where
  jobs : List CronJob
  storagePath : Option JsString
  sidecar : Sidecar

/-- The marker of an interrupted run is gone. -/
def CronJob.clearStale (job : CronJob) : CronJob :=
  if job.runningTraceId = none then job
  else { job with runningTraceId := none, lastError := some (js "cleared stale running state on startup") }

def CronJob.setEnabled (job : CronJob) (enabled : Bool) : CronJob :=
  { job with enabled, runningTraceId := if enabled then job.runningTraceId else none }

def CronJob.complete (job : CronJob) (error : Option JsString) (completedAt : ℤ) : CronJob :=
  { job with runningTraceId := none, lastCompletedAt := some (toIsoAutoSiZ completedAt), lastError := error }

/-- What a scan of the window from `since` to `now` makes of a job, and the due minute if the job fires. -/
def CronJob.scan (zone : TimeZone) (since now : ℤ) (uuid : JsString) (job : CronJob) : CronJob × Option ℤ :=
  if !job.enabled then (job, none)
  else match parseCronExpression job.schedule with
    | .error _ => ({ job with lastError := some (js "invalid schedule") }, none)
    | .ok expr => match expr.nextAfter zone since with
      | none => ({ job with lastError := some (js "no next run within 5 years") }, none)
      | some dueAt =>
        if now < dueAt then (job, none)
        else match job.runningTraceId with
          | some _ =>
            ({ job with
                skippedOverlapCount := job.skippedOverlapCount + 1
                lastDueAt := some (toIsoAutoSiZ dueAt)
                lastError := some (js "skipped: previous run still active") }, none)
          | none =>
            ({ job with
                runningTraceId := some (js "cron-" ++ uuid)
                lastDueAt := some (toIsoAutoSiZ dueAt)
                lastFiredAt := some (toIsoAutoSiZ now)
                lastError := none }, some dueAt)

/-- Change the first element that passes a test. -/
def updateFirst {α : Type} (test : α → Bool) (change : α → α) : List α → List α
  | [] => []
  | item :: items => if test item then change item :: items else item :: updateFirst test change items

namespace CronRegistry

variable (registry : CronRegistry)

/-- Replace the jobs, unless there is a file and it cannot be written. -/
def replace (next : List CronJob) (outcome : WriteOutcome) : CronRegistry × Option JsString :=
  if registry.storagePath = none then ({ registry with jobs := next }, none)
  else match registry.sidecar.write next outcome with
    | (sidecar, none) => ({ registry with jobs := next, sidecar }, none)
    | (sidecar, some error) => ({ registry with sidecar }, some error)

/-- Replace the jobs and write the file if that can be done. -/
def replaceAnyway (next : List CronJob) (outcome : WriteOutcome) : CronRegistry :=
  if registry.storagePath = none then { registry with jobs := next }
  else { registry with jobs := next, sidecar := (registry.sidecar.write next outcome).1 }

/-- The first schedule that cannot be parsed. -/
def scheduleProblem? (jobs : List CronJob) : Option CronScheduleError :=
  jobs.findSome? fun job => match parseCronExpression job.schedule with
    | .ok _ => none
    | .error error => some error

def loadFromPath (filePath : JsString) (outcome : WriteOutcome) : CronRegistry × Except JsString Unit :=
  match registry.sidecar.read with
  | .error error => (registry, .error error)
  | .ok jobs => match scheduleProblem? jobs with
    | some error => (registry, .error error.message)
    | none =>
      let cleared := jobs.map CronJob.clearStale
      if jobs.all (·.runningTraceId = none) then
        ({ registry with jobs := cleared, storagePath := some filePath }, .ok ())
      else match registry.sidecar.write cleared outcome with
        | (sidecar, none) => ({ jobs := cleared, storagePath := some filePath, sidecar }, .ok ())
        | (sidecar, some error) => ({ registry with sidecar }, .error error)

def insertJob (job : CronJob) (outcome : WriteOutcome) : CronRegistry × Except AddCronJobError CronJob :=
  match registry.replace (registry.jobs ++ [job]) outcome with
  | (registry, none) => (registry, .ok job)
  | (registry, some error) => (registry, .error (.storage error))

/-- `addJobFull`, with the id and the instant it draws. -/
def addJobFull (schedule action : JsString) (stateful enabled : Bool) (uuid : JsString) (createdAt : ℤ)
    (outcome : WriteOutcome) : CronRegistry × Except AddCronJobError CronJob :=
  if trim action = [] then (registry, .error .emptyAction)
  else if maxActionBytes < (utf8Bytes (trim action)).length then (registry, .error (.actionTooLarge maxActionBytes))
  else match parseCronExpression (trim schedule) with
    | .error error => (registry, .error (.schedule error))
    | .ok _ =>
      registry.insertJob
        { id := js "cron-" ++ uuid, schedule := trim schedule, action := trim action, enabled, runningTraceId := none
          lastDueAt := none, lastFiredAt := none, lastCompletedAt := none, lastError := none
          skippedOverlapCount := 0, stateful, createdAt := toIsoAutoSiZ createdAt } outcome

/-- The outcome of changing the jobs, naming the job that was changed. -/
def change (next : List CronJob) (job : CronJob) (outcome : WriteOutcome) :
    CronRegistry × Except JsString (Option CronJob) :=
  match registry.replace next outcome with
  | (registry, none) => (registry, .ok (some job))
  | (registry, some error) => (registry, .error error)

def removeJob (id : JsString) (outcome : WriteOutcome) : CronRegistry × Except JsString (Option CronJob) :=
  match registry.jobs.find? (·.id = trim id) with
  | none => (registry, .ok none)
  | some removed => registry.change (registry.jobs.eraseP (·.id = trim id)) removed outcome

def setJobEnabled (id : JsString) (enabled : Bool) (outcome : WriteOutcome) :
    CronRegistry × Except JsString (Option CronJob) :=
  match registry.jobs.find? (·.id = trim id) with
  | none => (registry, .ok none)
  | some current =>
    registry.change (updateFirst (·.id = trim id) (·.setEnabled enabled) registry.jobs) (current.setEnabled enabled)
      outcome

/-- Every job after a scan, with its due minute if it fires. A job that fires draws the id at its place. -/
def scanJobs (zone : TimeZone) (since now : ℤ) (uuids : ℕ → JsString) : List (CronJob × Option ℤ) :=
  registry.jobs.mapIdx fun place job => job.scan zone since now (uuids place)

/-- `dueJobs`: the jobs that fire, with their due minutes. The file is written if a job has changed. -/
def dueJobs (zone : TimeZone) (since now : ℤ) (uuids : ℕ → JsString) (outcome : WriteOutcome) :
    CronRegistry × List (CronJob × ℤ) :=
  let scanned := registry.scanJobs zone since now uuids
  let next := scanned.map (·.1)
  (if next = registry.jobs then registry else registry.replaceAnyway next outcome,
    scanned.filterMap fun (job, dueAt) => dueAt.map (job, ·))

def markCompleted (traceId : JsString) (error : Option JsString) (completedAt : ℤ) (outcome : WriteOutcome) :
    CronRegistry :=
  if registry.jobs.any (·.runningTraceId = some traceId) then
    registry.replaceAnyway
      (updateFirst (·.runningTraceId = some traceId) (·.complete error completedAt) registry.jobs) outcome
  else registry

end CronRegistry

end PieAgent.Model
