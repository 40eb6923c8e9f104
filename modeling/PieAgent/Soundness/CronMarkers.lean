import PieAgent.Proofs.Triggers.CronScheduler

/-! # Markers of running cron jobs

A job is marked as running when it fires, and the marker is cleared when the dispatch of its trigger settles.
A trigger that never gets that far leaves the marker behind: one that the runtime refuses, or one that a
closed sink does not take. No other exit does so, whatever tools, commands and other hooks do in between.
-/

namespace PieAgent.Soundness

open JavaScript Machine PieAgent.Model PieAgent.Proofs

variable {setting : CronSetting} {state next : CronState} {event : CronEvent}

/-- A job is marked as running under a trace that no trigger in flight has. -/
def Stuck (state : CronState) (job : CronJob) : Prop :=
  ∃ traceId, job.runningTraceId = some traceId ∧ ∀ trigger ∈ state.inFlight, trigger.traceId ≠ traceId

/-- A step takes none of the two exits: a scan that fires a job finds the sink open, and the runtime accepts
a trigger that a job waits for. -/
def ClearsMarkers (setting : CronSetting) (state : CronState) : CronEvent → Prop
  | .tick scan => state.sinkClosed = false ∨ ∀ since, state.lastScan = some since →
      ∀ job ∈ state.registry.jobs, ∀ dueAt, ¬ FiresAt setting.zone since scan.now job dueAt
  | .dispatch => ∀ trigger, state.sink.head? = some trigger → (state.runtime.evaluate trigger).2 = .accept ∨
      ∀ job ∈ state.registry.jobs, job.runningTraceId ≠ some trigger.traceId
  | _ => True

/-- Every marker is backed by a trigger in flight. -/
private def Backed (state : CronState) : Prop :=
  (markers state.registry.jobs).Subperm (state.inFlight.map (·.traceId))

private theorem backed_of_sublist (backed : Backed state) (same : next.inFlight = state.inFlight)
    (sublist : (markers next.registry.jobs).Sublist (markers state.registry.jobs)) : Backed next := by
  unfold Backed
  rw [same]
  exact sublist.subperm.trans backed

private theorem backed_operation (backed : Backed state) {draw : CronDraw} (draws : drawOf? event = some draw)
    (stepped : state.step? setting event = some next) : Backed next := by
  rcases step_operation_cases stepped draws with rfl | ⟨edit, requests, _, saved, same⟩
  · exact backed
  · apply backed_of_sublist backed
    · rw [same]
      rfl
    · rcases saved.jobs with old | new
      · rw [old]
      · rw [new]
        exact markers_apply_sublist requests

/-- A scan that pushes its triggers backs the markers that it sets. -/
private theorem backed_tick (backed : Backed state) {scan : CronScan} (clears : ClearsMarkers setting state (.tick scan))
    (stepped : state.step? setting (.tick scan) = some next) : Backed next := by
  obtain ⟨since, scanning, _, registry, exits⟩ := step_tick stepped
  unfold Backed
  rw [registry, jobs_dueJobs]
  rcases exits with ⟨closed, fires, _⟩ | ⟨pushed, _⟩
  · obtain ⟨firing, member⟩ := List.exists_mem_of_ne_nil _ fires
    obtain ⟨_, _, job, known, _, firesAt⟩ := mem_firingsOf member
    rcases clears with isOpen | idle
    · rw [isOpen] at closed
      cases closed
    · exact absurd firesAt (idle since scanning job known _)
  · have traces : (pushedTriggers setting scan.receivedAt (firingsOf setting.zone since scan.now scan.uuids
        state.registry.jobs)).map (·.traceId) =
          (firingsOf setting.zone since scan.now scan.uuids state.registry.jobs).map (·.2.2) := by
      simp [pushedTriggers, cronTriggerForJob, Function.comp_def]
    refine markers_scannedJobs.subperm.trans (List.Subperm.trans ?_ (pushed.map _).symm.subperm)
    rw [List.map_append, traces]
    exact (List.subperm_append_right _).mpr backed

/-- Dropping a trigger that no job waits for, or moving one that is admitted, leaves all markers backed. -/
private theorem backed_dispatch (backed : Backed state) (clears : ClearsMarkers setting state .dispatch)
    (stepped : state.step? setting .dispatch = some next) : Backed next := by
  obtain ⟨trigger, queued, waiting, registry, _, _, exits⟩ := step_dispatch stepped
  unfold Backed at backed ⊢
  rw [registry]
  rcases exits with ⟨_, moved⟩ | ⟨refused, dropped⟩
  · exact backed.trans (moved.map _).subperm
  · have unmarked := (clears trigger (by rw [waiting]; rfl)).resolve_left refused
    have absent : trigger.traceId ∉ markers state.registry.jobs := by
      intro marked
      obtain ⟨job, known, marker⟩ := List.mem_filterMap.mp marked
      exact unmarked job known marker
    have erased := backed.erase trigger.traceId
    rw [List.erase_of_not_mem absent, dropped, List.map_cons, List.erase_cons_head] at erased
    exact erased

private theorem backed_settle (backed : Backed state) {trigger : Trigger} {how : DispatchEnd} {completedAt : ℤ}
    {outcome : WriteOutcome} (stepped : state.step? setting (.settle trigger how completedAt outcome) = some next) :
    Backed next := by
  obtain ⟨moved, registry, _⟩ := step_settle stepped
  unfold Backed
  rw [registry, jobs_markCompleted, markers_completedJobs]
  have erased := (List.Subperm.trans backed (moved.map (·.traceId)).subperm).erase trigger.traceId
  rwa [List.map_cons, List.erase_cons_head] at erased

private theorem backed_restart {filePath : Option JsString} {startedAt : ℤ} {config : TriggerRuntimeConfig}
    {outcome : WriteOutcome} : Backed (state.restart filePath startedAt config outcome) := by
  have unmarked : markers (state.restart filePath startedAt config outcome).registry.jobs = [] := by
    rcases (restart_cases state filePath startedAt config outcome).1 with ⟨empty, _⟩ | ⟨loaded, _⟩
    · rw [empty]
      rfl
    · rw [loaded, markers_clearStale]
  unfold Backed
  rw [unmarked]
  exact List.nil_subperm

/-- Steps that take none of the two exits leave all markers backed. -/
private theorem backed_step (backed : Backed state) (clears : ClearsMarkers setting state event)
    (stepped : state.step? setting event = some next) : Backed next := by
  cases event with
  | tool => exact backed_operation backed rfl stepped
  | command => exact backed_operation backed rfl stepped
  | tick => exact backed_tick backed clears stepped
  | dispatch => exact backed_dispatch backed clears stepped
  | settle => exact backed_settle backed stepped
  | pushOther trigger =>
    obtain ⟨_, _, more, registry, _⟩ := step_pushOther stepped
    unfold Backed
    rw [registry]
    have grows : (state.inFlight.map (·.traceId)).Subperm ((trigger :: state.inFlight).map (·.traceId)) :=
      ((List.sublist_cons_self trigger _).map _).subperm
    exact List.Subperm.trans backed (grows.trans (more.map _).symm.subperm)
  | closeSink =>
    obtain rfl := Option.some.inj stepped
    exact backed
  | stop =>
    obtain rfl := Option.some.inj stepped
    exact backed
  | restart =>
    obtain rfl := Option.some.inj stepped
    exact backed_restart

/-- In every run in which no trigger that a job waits for is refused and no scan that fires a job finds the sink
closed, no job is ever marked as running without a trigger in flight. -/
theorem no_job_stuck {config : TriggerRuntimeConfig} {events : List CronEvent}
    (clears : Meets (CronState.machine setting) (ClearsMarkers setting) (.initial config) events)
    (run : run? (CronState.machine setting) (.initial config) events = some state) :
    ∀ job ∈ state.registry.jobs, ¬ Stuck state job := by
  have start : Backed (.initial config) := List.nil_subperm
  have backed : Backed state := run?_invariant Backed (fun _ _ _ => backed_step) start clears run
  rintro job known ⟨traceId, marker, absent⟩
  have marked : traceId ∈ markers state.registry.jobs := List.mem_filterMap.mpr ⟨job, known, marker⟩
  obtain ⟨trigger, flies, same⟩ := List.mem_map.mp (backed.subset marked)
  exact absent trigger flies same

section Runs

/-- Local time an hour ahead until clocks are turned back at 2026-10-25T01:00:00Z. -/
private def autumn : CronSetting := ⟨.turnedBack 1792890000000, id⟩

private def draw (uuid : String) : CronDraw := ⟨js uuid, 0, .written⟩

private def scanAt (now : ℤ) (uuid : String) : CronScan := ⟨now, fun _ => js uuid, now, .written⟩

/-- A job is added and fires. -/
private def firingRun : List CronEvent :=
  [.restart none 1792880000000 {} .written, .command (.add (js "* * * * *") (js "x") false) (draw "a"),
    .tick (scanAt 1792880060000 "b")]

private theorem firingRun_ends : (run? (CronState.machine autumn) (.initial {}) firingRun).map
    (fun state => state.registry.jobs.map (·.runningTraceId)) = some [some (js "cron-b")] := by
  decide

private theorem clears_firingRun : Meets (CronState.machine autumn) (ClearsMarkers autumn) (.initial {}) firingRun :=
  .cons trivial (by decide) (.cons trivial (by decide) (.cons (.inl (by decide)) (by decide)
    meets_nil))

theorem no_job_stuck_firing : ∃ state, run? (CronState.machine autumn) (.initial {}) firingRun = some state ∧
    (∃ job ∈ state.registry.jobs, job.runningTraceId = some (js "cron-b")) ∧
      ∀ job ∈ state.registry.jobs, ¬ Stuck state job := by
  obtain ⟨state, run, ends⟩ := Option.map_eq_some_iff.mp firingRun_ends
  obtain ⟨job, known, same⟩ := List.mem_map.mp (ends ▸ List.mem_singleton_self (some (js "cron-b")))
  exact ⟨state, run, ⟨job, known, same⟩, no_job_stuck clears_firingRun run⟩

private def firstTrigger : Trigger :=
  cronTriggerForJob autumn 1792891830000
    { id := js "cron-a", schedule := js "* * * * *", action := js "x", enabled := true, runningTraceId := none
      lastDueAt := none, lastFiredAt := none, lastCompletedAt := none, lastError := none, skippedOverlapCount := 0
      stateful := false, createdAt := [] } 1792888260000 (js "cron-b")

/-- A job that is due every minute, scanned twice within a minute of the hour that clocks repeat. -/
private def repeatedHour : List CronEvent :=
  [.restart none 1792891800000 {} .written, .command (.add (js "* * * * *") (js "x") false) (draw "a"),
    .tick (scanAt 1792891830000 "b"), .dispatch, .settle firstTrigger .triggerCompleted 1792891831000 .written,
    .tick (scanAt 1792891860000 "c"), .dispatch]

private theorem repeatedHour_ends : (run? (CronState.machine autumn) (.initial {}) repeatedHour).map (fun state => (state.registry.jobs.map (·.runningTraceId), state.inFlight)) =
      some ([some (js "cron-c")], []) := by
  decide

/-- The second scan finds the same minute due again, the runtime refuses its trigger as a duplicate of the first,
and the job stays marked as running with nothing in flight. -/
theorem refused_trigger_leaves_marker : ∃ state,
    run? (CronState.machine autumn) (.initial {}) repeatedHour = some state ∧
      state.inFlight = [] ∧ ∃ job ∈ state.registry.jobs, Stuck state job := by
  obtain ⟨state, run, ends⟩ := Option.map_eq_some_iff.mp repeatedHour_ends
  obtain ⟨marker, idle⟩ := Prod.mk.inj ends
  refine ⟨state, run, idle, ?_⟩
  obtain ⟨job, known, same⟩ := List.mem_map.mp (marker ▸ List.mem_singleton_self (some (js "cron-c")))
  exact ⟨job, known, js "cron-c", same, by simp [idle]⟩

end Runs

end PieAgent.Soundness
