import Mathlib.Data.List.Perm.Basic
import Mathlib.Data.List.Perm.Subperm
import PieAgent.Proofs.Triggers.CronScan

/-! # What a step of the cron scheduler does

A tool or a command requests an edit of the jobs, which is refused or tried. The other steps that touch the
registry are a scan, a completion and a restart.
-/

namespace PieAgent.Proofs

open JavaScript PieAgent.Model

variable {state next : CronState} {setting : CronSetting} {event : CronEvent}

/-- The edits that an event may make. -/
def Requests : CronEvent → CronEdit → Prop
  | .tool .newCronJob _ draw, .add job =>
    job.id = js "cron-" ++ draw.uuid ∧ job.enabled = false ∧ job.runningTraceId = none
  | .tool .removeCronJob params _, .remove id =>
    (boolArg? params "confirm").getD false = true ∧ ∃ given, textArg params "id" = .ok given ∧ id = trim given
  | .tool .setCronJobState params _, .setEnabled id enabled =>
    enabled = false ∧ boolArg? params "enabled" = some false ∧
      ∃ given, textArg params "id" = .ok given ∧ id = trim given
  | .command (.add ..) draw, .add job =>
    job.id = js "cron-" ++ draw.uuid ∧ job.enabled = true ∧ job.runningTraceId = none
  | .command (.remove given) _, .remove id => id = trim given
  | .command (.enable given) _, .setEnabled id enabled => enabled = true ∧ id = trim given
  | .command (.disable given) _, .setEnabled id enabled => enabled = false ∧ id = trim given
  | _, _ => False

/-- The result of the operation behind a tool call or a command. -/
def operation? (registry : CronRegistry) : CronEvent → Option (CronRegistry × Except JsString CronJob)
  | .tool tool params draw => some (registry.callTool tool params draw)
  | .command command draw => some (registry.runCommand draw command)
  | _ => none

/-- The draw of an operation. -/
def drawOf? : CronEvent → Option CronDraw
  | .tool _ _ draw | .command _ draw => some draw
  | _ => none

/-- An operation changes nothing or makes the edit that its event requests. -/
theorem operation_cases {registry : CronRegistry} {result : CronRegistry × Except JsString CronJob}
    (isOperation : operation? registry event = some result) :
    result.1 = registry ∨ ∃ edit draw, Requests event edit ∧ drawOf? event = some draw ∧
      Performs registry edit draw.outcome result := by
  cases event with
  | tool tool params draw =>
    obtain rfl := Option.some.inj isOperation
    cases tool with
    | newCronJob =>
      rcases newCronJob_cases registry params draw with refused | ⟨job, id, enabled, marker, performs⟩
      · exact .inl refused.1
      · exact .inr ⟨.add job, draw, ⟨id, enabled, marker⟩, rfl, performs⟩
    | removeCronJob =>
      rcases removeCronJob_cases registry params draw with refused | ⟨id, isText, confirmed, performs⟩
      · exact .inl refused.1
      · exact .inr ⟨.remove (trim id), draw, ⟨confirmed, id, isText, rfl⟩, rfl, performs⟩
    | setCronJobState =>
      rcases setCronJobState_cases registry params draw with refused | ⟨id, isText, wanted, performs⟩
      · exact .inl refused.1
      · exact .inr ⟨.setEnabled (trim id) false, draw, ⟨rfl, wanted, id, isText, rfl⟩, rfl, performs⟩
  | command command draw =>
    obtain rfl := Option.some.inj isOperation
    cases command with
    | add schedule action stateful =>
      rcases addJobFull_cases registry schedule action stateful true draw.uuid draw.createdAt draw.outcome with
        refused | ⟨job, id, enabled, marker, performs⟩
      · exact .inl refused.1
      · exact .inr ⟨.add job, draw, ⟨id, enabled, marker⟩, rfl, performs_mapError _ performs⟩
    | enable id =>
      rcases setJobEnabled_cases registry id true draw.outcome with missing | performs
      · exact .inl (by simp [CronRegistry.runCommand, missing])
      · exact .inr ⟨.setEnabled (trim id) true, draw, ⟨rfl, rfl⟩, rfl, performs_requireJob performs⟩
    | disable id =>
      rcases setJobEnabled_cases registry id false draw.outcome with missing | performs
      · exact .inl (by simp [CronRegistry.runCommand, missing])
      · exact .inr ⟨.setEnabled (trim id) false, draw, ⟨rfl, rfl⟩, rfl, performs_requireJob performs⟩
    | remove id =>
      rcases removeJob_cases registry id draw.outcome with missing | performs
      · exact .inl (by simp [CronRegistry.runCommand, missing])
      · exact .inr ⟨.remove (trim id), draw, rfl, rfl, performs_requireJob performs⟩
  | _ => cases isOperation

/-- A tool call or a command leaves everything but the registry alone. -/
theorem step_operation (stepped : state.step? setting event = some next) {draw : CronDraw}
    (draws : drawOf? event = some draw) : state.FreshId draw.uuid ∧
      ∃ result, operation? state.registry event = some result ∧ next = { state with registry := result.1 } := by
  cases event with
  | tool tool params given =>
    obtain rfl := Option.some.inj draws
    simp only [CronState.step?] at stepped
    split at stepped
    · next fresh => exact ⟨fresh, _, rfl, (Option.some.inj stepped).symm⟩
    · cases stepped
  | command command given =>
    obtain rfl := Option.some.inj draws
    simp only [CronState.step?] at stepped
    split at stepped
    · next fresh => exact ⟨fresh, _, rfl, (Option.some.inj stepped).symm⟩
    · cases stepped
  | _ => cases draws

/-- What becomes of the jobs and the file. -/
theorem step_operation_cases (stepped : state.step? setting event = some next) {draw : CronDraw}
    (draws : drawOf? event = some draw) : next = state ∨ ∃ edit, Requests event edit ∧ edit.Finds state.registry.jobs ∧
      Saved state.registry (edit.apply state.registry.jobs) next.registry ∧
        next = { state with registry := next.registry } := by
  obtain ⟨_, result, isOperation, rfl⟩ := step_operation stepped draws
  rcases operation_cases isOperation with same | ⟨edit, _, requests, _, performs⟩
  · exact .inl (by rw [same])
  · refine .inr ⟨edit, requests, performs.finds, ?_, rfl⟩
    rw [performs.replaced]
    exact saved_replace _ _ _

section Edits

variable {jobs : List CronJob} {edit : CronEdit} {job : CronJob}

/-- Where the jobs after an edit come from. -/
theorem mem_apply (member : job ∈ edit.apply jobs) : job ∈ jobs ∨ edit = .add job ∨
    ∃ old ∈ jobs, ∃ enabled, edit = .setEnabled old.id enabled ∧ job = old.setEnabled enabled := by
  cases edit with
  | add added =>
    rcases List.mem_append.mp member with old | new
    · exact .inl old
    · obtain rfl := List.mem_singleton.mp new
      exact .inr (.inl rfl)
  | remove id => exact .inl (List.mem_of_mem_eraseP member)
  | setEnabled id enabled =>
    rcases mem_updateFirst member with old | ⟨old, known, hit, same⟩
    · exact .inl old
    · have hit : old.id = id := by simpa using hit
      exact .inr (.inr ⟨old, known, enabled, by rw [hit], same⟩)

/-- An edit marks no job as running. -/
theorem markers_apply_sublist (requests : Requests event edit) :
    (markers (edit.apply jobs)).Sublist (markers jobs) := by
  cases edit with
  | add job =>
    have idle : job.runningTraceId = none := by
      cases event with
      | tool tool => cases tool <;> first | exact requests.2.2 | exact requests.elim
      | command command => cases command <;> first | exact requests.2.2 | exact requests.elim
      | _ => exact requests.elim
    simp [CronEdit.apply, markers, idle]
  | remove id => exact List.eraseP_sublist.filterMap _
  | setEnabled id enabled =>
    refine filterMap_updateFirst_sublist fun job => ?_
    cases enabled with
    | true => exact .inl rfl
    | false => exact .inr rfl

/-- The new id of a request. -/
theorem Requests.added_id {draw : CronDraw} (requests : Requests event (.add job)) (draws : drawOf? event = some draw) :
    job.id = js "cron-" ++ draw.uuid := by
  cases event with
  | tool tool =>
    obtain rfl := Option.some.inj draws
    cases tool <;> first | exact requests.1 | exact requests.elim
  | command command =>
    obtain rfl := Option.some.inj draws
    cases command <;> first | exact requests.1 | exact requests.elim
  | _ => cases draws

theorem jobIds_apply (edit : CronEdit) : (∃ job, edit = .add job ∧ jobIds (edit.apply jobs) = jobIds jobs ++ [job.id]) ∨
    (jobIds (edit.apply jobs)).Sublist (jobIds jobs) := by
  cases edit with
  | add job => exact .inl ⟨job, rfl, by simp [CronEdit.apply]⟩
  | remove id => exact .inr (List.eraseP_sublist.map _)
  | setEnabled id enabled =>
    have same : jobIds (CronEdit.apply jobs (.setEnabled id enabled)) = jobIds jobs := map_updateFirst fun _ => rfl
    exact .inr (same ▸ List.Sublist.refl _)

end Edits

section Completion

variable {registry : CronRegistry} {traceId : JsString} {error : Option JsString} {completedAt : ℤ}
  {outcome : WriteOutcome}

/-- The jobs after a completion. -/
def completedJobs (traceId : JsString) (error : Option JsString) (completedAt : ℤ) (jobs : List CronJob) : List CronJob :=
  updateFirst (·.runningTraceId = some traceId) (·.complete error completedAt) jobs

private theorem updateFirst_of_none {α : Type} {test : α → Bool} {change : α → α} {items : List α}
    (none : items.any test = false) : updateFirst test change items = items := by
  induction items with
  | nil => rfl
  | cons head items ih =>
    simp only [List.any_cons, Bool.or_eq_false_iff] at none
    rw [updateFirst_cons, none.1, ih none.2]
    simp

@[simp] theorem jobs_markCompleted : (registry.markCompleted traceId error completedAt outcome).jobs =
    completedJobs traceId error completedAt registry.jobs := by
  unfold CronRegistry.markCompleted completedJobs
  split
  · exact jobs_replaceAnyway _ _ _
  · next nobody => rw [updateFirst_of_none (by simpa using nobody)]

theorem saved_markCompleted : Saved registry (completedJobs traceId error completedAt registry.jobs)
    (registry.markCompleted traceId error completedAt outcome) := by
  unfold CronRegistry.markCompleted
  split
  · exact saved_replaceAnyway _ _ _
  · exact saved_refl _ _

variable {jobs : List CronJob}

@[simp] theorem jobIds_completedJobs : jobIds (completedJobs traceId error completedAt jobs) = jobIds jobs :=
  map_updateFirst fun _ => rfl

/-- A completion clears one marker with its trace. -/
theorem markers_completedJobs :
    markers (completedJobs traceId error completedAt jobs) = (markers jobs).erase traceId := by
  unfold completedJobs markers
  induction jobs with
  | nil => rfl
  | cons job jobs ih =>
    rw [updateFirst_cons]
    split
    · next marked =>
      have marked : job.runningTraceId = some traceId := by simpa using marked
      simp [CronJob.complete, marked]
    · next other =>
      cases marker : job.runningTraceId with
      | none => simpa [List.filterMap_cons, marker] using ih
      | some running =>
        have differ : running ≠ traceId := by
          rintro rfl
          simp [marker] at other
        simpa [List.filterMap_cons, marker, List.erase_cons, differ] using ih

theorem mem_completedJobs {job : CronJob} (member : job ∈ completedJobs traceId error completedAt jobs) :
    job ∈ jobs ∨ ∃ old ∈ jobs, old.runningTraceId = some traceId ∧ job = old.complete error completedAt := by
  rcases mem_updateFirst member with old | ⟨old, known, hit, same⟩
  · exact .inl old
  · exact .inr ⟨old, known, by simpa using hit, same⟩

end Completion

section Restart

variable {registry : CronRegistry} {filePath : JsString} {outcome : WriteOutcome}

@[simp] theorem markers_clearStale (jobs : List CronJob) : markers (jobs.map CronJob.clearStale) = [] := by
  rw [markers, List.filterMap_eq_nil_iff]
  intro job member
  obtain ⟨old, _, rfl⟩ := List.mem_map.mp member
  unfold CronJob.clearStale
  split
  · assumption
  · rfl

@[simp] theorem id_clearStale (job : CronJob) : job.clearStale.id = job.id := by
  unfold CronJob.clearStale
  split <;> rfl

@[simp] theorem enabled_clearStale (job : CronJob) : job.clearStale.enabled = job.enabled := by
  unfold CronJob.clearStale
  split <;> rfl

private theorem listed_of_read {sidecar : Sidecar} {jobs : List CronJob} (reads : sidecar.read = .ok jobs) :
    jobs = sidecar.listed := by
  cases sidecar with
  | absent => exact (Except.ok.inj reads).symm
  | unreadable error => cases reads
  | jobs stored => exact (Except.ok.inj reads).symm

/-- Loading a file leaves an empty registry or the jobs of the file without their markers. -/
theorem loadFromPath_cases (empty : registry.jobs = []) (unstored : registry.storagePath = none)
    {final : CronRegistry} (loads : (registry.loadFromPath filePath outcome).1 = final) :
    (final.jobs = [] ∧ final.storagePath = none ∨
        final.jobs = registry.sidecar.listed.map CronJob.clearStale ∧ final.storagePath ≠ none) ∧
      (final.sidecar.listed = registry.sidecar.listed ∨
        final.sidecar.listed <+: registry.sidecar.listed.map CronJob.clearStale) := by
  unfold CronRegistry.loadFromPath at loads
  split at loads
  · subst loads
    exact ⟨.inl ⟨empty, unstored⟩, .inl rfl⟩
  · next jobs reads =>
    obtain rfl := listed_of_read reads
    split at loads
    · subst loads
      exact ⟨.inl ⟨empty, unstored⟩, .inl rfl⟩
    · dsimp only at loads
      split at loads
      · subst loads
        exact ⟨.inr ⟨rfl, nofun⟩, .inl rfl⟩
      · have written := listed_write registry.sidecar (registry.sidecar.listed.map CronJob.clearStale) outcome
        split at loads
        · next sidecar wrote =>
          rw [wrote] at written
          subst loads
          exact ⟨.inr ⟨rfl, nofun⟩, written⟩
        · next sidecar error wrote =>
          rw [wrote] at written
          subst loads
          exact ⟨.inl ⟨empty, unstored⟩, written⟩

end Restart

section Steps

/-- The triggers that a scan pushes. -/
def pushedTriggers (setting : CronSetting) (receivedAt : ℤ) (firings : List (CronJob × ℤ × JsString)) : List Trigger :=
  firings.map fun firing => cronTriggerForJob setting receivedAt firing.1 firing.2.1 firing.2.2

/-- What a scan does: it ends at a closed sink, or pushes a trigger for every firing. -/
theorem step_tick {scan : CronScan} (stepped : state.step? setting (.tick scan) = some next) :
    ∃ since, state.lastScan = some since ∧ state.FreshTraces scan.uuids ∧
      next.registry = (state.registry.dueJobs setting.zone since scan.now scan.uuids scan.outcome).1 ∧
      (state.sinkClosed = true ∧ firingsOf setting.zone since scan.now scan.uuids state.registry.jobs ≠ [] ∧
          next.inFlight = state.inFlight ∧ next.fired = state.fired ∧ next.lastScan = none ∨
        next.inFlight.Perm (state.inFlight ++ pushedTriggers setting scan.receivedAt
            (firingsOf setting.zone since scan.now scan.uuids state.registry.jobs)) ∧
          next.fired = state.fired ++ (firingsOf setting.zone since scan.now scan.uuids state.registry.jobs).map
            (fun firing => ⟨firing.1.id, firing.2.1, firing.2.2⟩) ∧
          next.lastScan = some scan.now) := by
  simp only [CronState.step?] at stepped
  split at stepped
  · next fresh =>
    obtain ⟨since, scanning, rfl⟩ := Option.map_eq_some_iff.mp stepped
    refine ⟨since, scanning, fresh, ?_, ?_⟩
    · unfold CronState.scan
      dsimp only
      split <;> rfl
    · unfold CronState.scan
      simp only [dueFirings_dueJobs]
      split
      · next closed => exact .inl ⟨closed.1, closed.2, rfl, rfl, rfl⟩
      · refine .inr ⟨?_, rfl, rfl⟩
        simp only [CronState.inFlight, List.append_assoc]
        exact List.Perm.append_left _ List.perm_append_comm
  · cases stepped

/-- What the drain loop does with the next trigger: the runtime admits it or drops it. -/
theorem step_dispatch (stepped : state.step? setting .dispatch = some next) :
    ∃ trigger queued, state.sink = trigger :: queued ∧ next.registry = state.registry ∧ next.fired = state.fired ∧
      next.lastScan = state.lastScan ∧
      ((state.runtime.evaluate trigger).2 = .accept ∧ state.inFlight.Perm next.inFlight ∨
        (state.runtime.evaluate trigger).2 ≠ .accept ∧ state.inFlight = trigger :: next.inFlight) := by
  simp only [CronState.step?] at stepped
  split at stepped
  · cases stepped
  · next trigger queued waiting =>
    split at stepped
    · cases stepped
    · obtain rfl := Option.some.inj stepped
      refine ⟨trigger, queued, waiting, rfl, rfl, rfl, ?_⟩
      unfold CronState.inFlight CronState.dispatch
      by_cases accepted : (state.runtime.evaluate trigger).2 = .accept
      · refine .inl ⟨accepted, ?_⟩
        simp only [if_pos accepted, waiting]
        rw [List.cons_append, ← List.append_assoc]
        exact (List.perm_append_singleton _ _).symm
      · refine .inr ⟨accepted, ?_⟩
        simp only [if_neg accepted, waiting]
        rfl

/-- What the end of a dispatch does. -/
theorem step_settle {trigger : Trigger} {how : DispatchEnd} {completedAt : ℤ} {outcome : WriteOutcome}
    (stepped : state.step? setting (.settle trigger how completedAt outcome) = some next) :
    state.inFlight.Perm (trigger :: next.inFlight) ∧
      next.registry = state.registry.markCompleted trigger.traceId how.error completedAt outcome ∧
      next.fired = state.fired ∧ next.lastScan = state.lastScan := by
  simp only [CronState.step?] at stepped
  split at stepped
  · next runs =>
    obtain rfl := Option.some.inj stepped
    exact ⟨((List.perm_cons_erase runs).append_left state.sink).trans List.perm_middle, rfl, rfl, rfl⟩
  · cases stepped

theorem step_pushOther {trigger : Trigger} (stepped : state.step? setting (.pushOther trigger) = some next) :
    trigger.source ≠ .local cronSubkind ∧ trigger.traceId ∉ state.traces ∧
      next.inFlight.Perm (trigger :: state.inFlight) ∧ next.registry = state.registry ∧ next.fired = state.fired ∧
        next.lastScan = state.lastScan := by
  simp only [CronState.step?] at stepped
  split at stepped
  · cases stepped
  · next refused =>
    obtain rfl := Option.some.inj stepped
    simp only [not_or] at refused
    refine ⟨refused.2.1, refused.2.2, ?_, rfl, rfl, rfl⟩
    simp only [CronState.inFlight, List.append_assoc, List.singleton_append]
    exact List.perm_middle

/-- Only a scan fires a job. -/
theorem fired_step (stepped : state.step? setting event = some next) :
    next.fired = state.fired ∨ ∃ scan, event = .tick scan := by
  cases event with
  | tool | command =>
    obtain ⟨_, _, _, rfl⟩ := step_operation stepped rfl
    exact .inl rfl
  | tick scan => exact .inr ⟨scan, rfl⟩
  | dispatch =>
    obtain ⟨_, _, _, _, fired, _⟩ := step_dispatch stepped
    exact .inl fired
  | settle => exact .inl (step_settle stepped).2.2.1
  | pushOther => exact .inl (step_pushOther stepped).2.2.2.2.1
  | closeSink | stop | restart =>
    obtain rfl := Option.some.inj stepped
    exact .inl rfl

/-- What a restart leaves: nothing in flight, and the jobs of the file without their markers, if any. -/
theorem restart_cases (state : CronState) (filePath : Option JsString) (startedAt : ℤ) (config : TriggerRuntimeConfig)
    (outcome : WriteOutcome) :
    let final := state.restart filePath startedAt config outcome
    (final.registry.jobs = [] ∧ final.registry.storagePath = none ∨
        final.registry.jobs = state.registry.sidecar.listed.map CronJob.clearStale ∧ final.registry.storagePath ≠ none) ∧
      (final.registry.sidecar.listed = state.registry.sidecar.listed ∨
        final.registry.sidecar.listed <+: state.registry.sidecar.listed.map CronJob.clearStale) := by
  cases filePath with
  | none => exact ⟨.inl ⟨rfl, rfl⟩, .inl rfl⟩
  | some filePath =>
    exact @loadFromPath_cases { state.registry with jobs := [], storagePath := none } _ _ rfl rfl _ rfl

end Steps

section Ids

/-- Ids are distinct among the jobs and in the file. Jobs that are not stored are not in the file. -/
structure DistinctIds (registry : CronRegistry) : Prop where
  jobs : (jobIds registry.jobs).Nodup
  listed : (jobIds registry.sidecar.listed).Nodup
  unstored : registry.storagePath = none → ∀ id ∈ jobIds registry.jobs, id ∉ jobIds registry.sidecar.listed

variable {registry final : CronRegistry} {jobs : List CronJob}

theorem DistinctIds.of_saved (distinct : DistinctIds registry) (saved : Saved registry jobs final)
    (nodup : (jobIds jobs).Nodup)
    (unstored : registry.storagePath = none → ∀ id ∈ jobIds jobs, id ∉ jobIds registry.sidecar.listed) :
    DistinctIds final := by
  refine ⟨?_, ?_, fun none id known => ?_⟩
  · rcases saved.jobs with same | same
    · exact same ▸ distinct.jobs
    · exact same ▸ nodup
  · rcases saved.listed with same | ⟨_, listed⟩
    · exact same ▸ distinct.listed
    · exact nodup.sublist (listed.sublist.map _)
  · rw [saved.storagePath] at none
    have same : final.sidecar.listed = registry.sidecar.listed :=
      saved.listed.resolve_right fun stored => stored.1 none
    rw [same]
    rcases saved.jobs with same | same
    · exact distinct.unstored none id (same ▸ known)
    · exact unstored none id (same ▸ known)

/-- Saving jobs with known ids keeps ids distinct. -/
theorem DistinctIds.of_saved_sublist (distinct : DistinctIds registry) (saved : Saved registry jobs final)
    (sublist : (jobIds jobs).Sublist (jobIds registry.jobs)) : DistinctIds final :=
  distinct.of_saved saved (distinct.jobs.sublist sublist)
    fun none id known => distinct.unstored none id (sublist.subset known)

theorem jobIds_clearStale (jobs : List CronJob) : jobIds (jobs.map CronJob.clearStale) = jobIds jobs := by
  simp [jobIds, Function.comp_def]

theorem distinctIds_restart (distinct : DistinctIds state.registry) (filePath : Option JsString) (startedAt : ℤ)
    (config : TriggerRuntimeConfig) (outcome : WriteOutcome) :
    DistinctIds (state.restart filePath startedAt config outcome).registry := by
  obtain ⟨jobs, listed⟩ := restart_cases state filePath startedAt config outcome
  refine ⟨?_, ?_, fun none id known => ?_⟩
  · rcases jobs with ⟨empty, _⟩ | ⟨loaded, _⟩
    · rw [empty]
      exact List.nodup_nil
    · rw [loaded, jobIds_clearStale]
      exact distinct.listed
  · rcases listed with same | listed
    · exact same ▸ distinct.listed
    · have nodup : (jobIds (state.registry.sidecar.listed.map CronJob.clearStale)).Nodup := by
        rw [jobIds_clearStale]
        exact distinct.listed
      exact nodup.sublist (listed.sublist.map _)
  · rcases jobs with ⟨empty, _⟩ | ⟨_, stored⟩
    · rw [empty] at known
      exact absurd known List.not_mem_nil
    · exact absurd none stored

/-- Every step keeps ids distinct. -/
theorem distinctIds_step (distinct : DistinctIds state.registry) (stepped : state.step? setting event = some next) :
    DistinctIds next.registry := by
  have operation {draw : CronDraw} (draws : drawOf? event = some draw) : DistinctIds next.registry := by
    have fresh := (step_operation stepped draws).1.1
    rcases step_operation_cases stepped draws with rfl | ⟨edit, requests, _, saved, _⟩
    · exact distinct
    · rcases @jobIds_apply state.registry.jobs edit with ⟨job, rfl, ids⟩ | sublist
      · have id := requests.added_id draws
        have absent : job.id ∉ jobIds state.registry.jobs := by
          intro known
          obtain ⟨old, member, same⟩ := List.mem_map.mp known
          exact fresh old (List.mem_append_left _ member) (same.trans id)
        apply distinct.of_saved saved
        · rw [ids]
          exact List.nodup_append.mpr ⟨distinct.jobs, List.nodup_singleton _, fun known member other new same =>
            absent (List.mem_singleton.mp new ▸ same ▸ member)⟩
        · intro none known member
          rw [ids] at member
          rcases List.mem_append.mp member with old | new
          · exact distinct.unstored none known old
          · intro listed
            obtain ⟨stored, isListed, same⟩ := List.mem_map.mp listed
            exact fresh stored (List.mem_append_right _ isListed)
              (same.trans ((List.mem_singleton.mp new).trans id))
      · exact distinct.of_saved_sublist saved sublist
  cases event with
  | tool => exact operation rfl
  | command => exact operation rfl
  | tick scan =>
    obtain ⟨since, _, _, registry, _⟩ := step_tick stepped
    rw [registry]
    exact distinct.of_saved_sublist saved_dueJobs (by rw [jobIds_scannedJobs])
  | dispatch =>
    obtain ⟨_, _, _, registry, _⟩ := step_dispatch stepped
    exact registry ▸ distinct
  | settle =>
    rw [(step_settle stepped).2.1]
    exact distinct.of_saved_sublist saved_markCompleted (by rw [jobIds_completedJobs])
  | pushOther =>
    rw [(step_pushOther stepped).2.2.2.1]
    exact distinct
  | closeSink =>
    obtain rfl := Option.some.inj stepped
    exact distinct
  | stop =>
    obtain rfl := Option.some.inj stepped
    exact distinct
  | restart filePath startedAt config outcome =>
    obtain rfl := Option.some.inj stepped
    exact distinctIds_restart distinct filePath startedAt config outcome

theorem distinctIds_initial (config : TriggerRuntimeConfig) : DistinctIds (CronState.initial config).registry :=
  ⟨List.nodup_nil, List.nodup_nil, fun _ _ known => absurd known List.not_mem_nil⟩

end Ids

end PieAgent.Proofs
