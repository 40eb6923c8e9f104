import PieAgent.Proofs.Triggers.CronScheduler

/-! # Overlapping runs of a cron job

The marker of a job keeps a scan from firing the job again while a run of it is in flight. Disabling a job
clears the marker, so that a job which is disabled and enabled again can fire beside its own run. Where no
job is disabled while a run of it is in flight, no job ever has two runs in flight.
-/

namespace PieAgent.Soundness

open JavaScript Machine PieAgent.Model PieAgent.Proofs

variable {setting : CronSetting} {state next : CronState} {event : CronEvent}

/-- A trigger that the cron hook has pushed for a job. -/
def IsRunOf (id : JsString) (trigger : Trigger) : Prop := trigger.source = .local cronSubkind ∧ trigger.eventLabel = id

instance (id : JsString) (trigger : Trigger) : Decidable (IsRunOf id trigger) := inferInstanceAs (Decidable (_ ∧ _))

/-- The runs of a job that are queued or being handled. -/
def runsInFlight (state : CronState) (id : JsString) : List Trigger := state.inFlight.filter fun trigger => IsRunOf id trigger

/-- No job is disabled while a run of it is in flight. -/
def SparesRunning (state : CronState) : CronEvent → Prop
  | .command (.disable id) _ => runsInFlight state (trim id) = []
  | .tool .setCronJobState params _ => boolArg? params "enabled" = some false →
      ∀ id, textArg params "id" = .ok id → runsInFlight state (trim id) = []
  | _ => True

/-- Every run in flight is the one that the marker of its job names, and it is the only one. -/
private structure Exclusive (state : CronState) : Prop where
  ids : DistinctIds state.registry
  marked : ∀ trigger ∈ state.inFlight, ∀ job ∈ state.registry.jobs, IsRunOf job.id trigger →
    job.runningTraceId = some trigger.traceId
  traces : (state.inFlight.map (·.traceId)).Nodup
  single : ∀ id, state.inFlight.countP (fun trigger => IsRunOf id trigger) ≤ 1

private theorem runsInFlight_eq_nil {id : JsString} :
    runsInFlight state id = [] ↔ ∀ trigger ∈ state.inFlight, ¬ IsRunOf id trigger := by
  simp [runsInFlight, List.filter_eq_nil_iff]

/-- A request to disable a job comes when no run of it is in flight. -/
private theorem idle_of_disabled (spares : SparesRunning state event) {id : JsString} {enabled : Bool}
    (requests : Requests event (.setEnabled id enabled)) (disables : enabled = false) :
    runsInFlight state id = [] := by
  subst disables
  cases event with
  | tool tool params =>
    cases tool with
    | setCronJobState =>
      obtain ⟨_, wanted, given, isText, rfl⟩ := requests
      exact spares wanted given isText
    | _ => exact requests.elim
  | command command =>
    cases command with
    | disable given =>
      obtain ⟨_, rfl⟩ := requests
      exact spares
    | enable => cases requests.1
    | _ => exact requests.elim
  | _ => exact requests.elim

private theorem exclusive_operation (exclusive : Exclusive state) (spares : SparesRunning state event) {draw : CronDraw}
    (draws : drawOf? event = some draw) (stepped : state.step? setting event = some next) : Exclusive next := by
  have ids := distinctIds_step exclusive.ids stepped
  have fresh := (step_operation stepped draws).1.2
  rcases step_operation_cases stepped draws with rfl | ⟨edit, requests, _, saved, same⟩
  · exact exclusive
  · have flying : next.inFlight = state.inFlight := by
      rw [same]
      rfl
    refine ⟨ids, ?_, flying ▸ exclusive.traces, flying ▸ exclusive.single⟩
    rw [flying]
    intro trigger flies job known runs
    have edited (known : job ∈ edit.apply state.registry.jobs) : job.runningTraceId = some trigger.traceId := by
      rcases mem_apply known with old | rfl | ⟨old, isOld, enabled, rfl, rfl⟩
      · exact exclusive.marked trigger flies job old runs
      · exact absurd (runs.2.trans (requests.added_id draws)) (fresh trigger flies)
      · cases enabled with
        | true => exact exclusive.marked trigger flies old isOld runs
        | false => exact absurd runs ((runsInFlight_eq_nil).mp (idle_of_disabled spares requests rfl) trigger flies)
    rcases saved.jobs with old | new
    · exact exclusive.marked trigger flies job (old ▸ known) runs
    · exact edited (new ▸ known)

/-- The marker of a job that fires is clear, so no run of it is in flight. -/
private theorem idle_of_firing (exclusive : Exclusive state) {since now : ℤ} {uuids : ℕ → JsString}
    {firing : CronJob × ℤ × JsString} (member : firing ∈ firingsOf setting.zone since now uuids state.registry.jobs) :
    runsInFlight state firing.1.id = [] := by
  obtain ⟨_, _, old, known, id, fires⟩ := mem_firingsOf member
  rw [runsInFlight_eq_nil]
  intro trigger flies runs
  have marker := exclusive.marked trigger flies old known (id ▸ runs)
  rw [fires.2.1] at marker
  cases marker

private theorem isRunOf_pushed {scan : CronScan} {firing : CronJob × ℤ × JsString} {id : JsString} :
    IsRunOf id (cronTriggerForJob setting scan.receivedAt firing.1 firing.2.1 firing.2.2) ↔ firing.1.id = id := by
  simp [IsRunOf, cronTriggerForJob]

/-- The traces that a scan hands out are new and differ. -/
private theorem traces_pushed {since : ℤ} {scan : CronScan} (fresh : state.FreshTraces scan.uuids) :
    ((firingsOf setting.zone since scan.now scan.uuids state.registry.jobs).map (·.2.2)).Nodup ∧
      ∀ traceId ∈ (firingsOf setting.zone since scan.now scan.uuids state.registry.jobs).map (·.2.2),
        traceId ∉ state.inFlight.map (·.traceId) := by
  have drawn := @traces_firingsOf_sublist setting.zone since scan.now scan.uuids state.registry.jobs
  refine ⟨List.Nodup.sublist drawn ?_, fun traceId pushed flies => ?_⟩
  · have same : ((List.range state.registry.jobs.length).map fun place => js "cron-" ++ scan.uuids place) =
        ((List.range state.registry.jobs.length).map scan.uuids).map (js "cron-" ++ ·) := by
      simp [Function.comp_def]
    rw [same]
    exact fresh.1.map fun _ _ => List.append_cancel_left
  · obtain ⟨place, inside, rfl⟩ := List.mem_map.mp (drawn.subset pushed)
    exact fresh.2 place (List.mem_range.mp inside) (List.mem_append_right _ flies)

private theorem exclusive_tick (exclusive : Exclusive state) {scan : CronScan}
    (stepped : state.step? setting (.tick scan) = some next) : Exclusive next := by
  have ids := distinctIds_step exclusive.ids stepped
  obtain ⟨since, _, fresh, registry, exits⟩ := step_tick stepped
  have jobs : next.registry.jobs = scannedJobs setting.zone since scan.now scan.uuids state.registry.jobs := by
    rw [registry, jobs_dueJobs]
  have old : ∀ trigger ∈ state.inFlight, ∀ job ∈ next.registry.jobs, IsRunOf job.id trigger →
      job.runningTraceId = some trigger.traceId := by
    rw [jobs]
    intro trigger flies job known runs
    obtain ⟨before, isOld, id, _, marker⟩ := mem_scannedJobs known
    have marked := exclusive.marked trigger flies before isOld (id ▸ runs)
    rcases marker with same | clear
    · rw [same, marked]
    · rw [clear] at marked
      cases marked
  rcases exits with ⟨_, _, flying, _⟩ | ⟨pushed, _⟩
  · exact ⟨ids, flying ▸ old, flying ▸ exclusive.traces, flying ▸ exclusive.single⟩
  · refine ⟨ids, fun trigger flies job known runs => ?_, ?_, fun id => ?_⟩
    · rcases List.mem_append.mp (pushed.subset flies) with before | new
      · exact old trigger before job known runs
      · obtain ⟨firing, member, rfl⟩ := List.mem_map.mp new
        obtain ⟨scanned, marker, _⟩ := mem_firingsOf member
        have same : job = firing.1 := List.inj_on_of_nodup_map ids.jobs known (jobs ▸ scanned) ((isRunOf_pushed).mp runs).symm
        rw [same]
        exact marker
    · rw [(pushed.map (·.traceId)).nodup_iff, List.map_append]
      have traces : (pushedTriggers setting scan.receivedAt (firingsOf setting.zone since scan.now scan.uuids
          state.registry.jobs)).map (·.traceId) =
            (firingsOf setting.zone since scan.now scan.uuids state.registry.jobs).map (·.2.2) := by
        simp [pushedTriggers, cronTriggerForJob, Function.comp_def]
      rw [traces]
      obtain ⟨nodup, new⟩ := traces_pushed fresh
      exact List.nodup_append.mpr ⟨exclusive.traces, nodup, fun _ known other drawn same => new other drawn (same ▸ known)⟩
    · rw [pushed.countP_eq, List.countP_append, pushedTriggers, List.countP_map]
      have own : ((firingsOf setting.zone since scan.now scan.uuids state.registry.jobs).countP
          ((fun trigger => decide (IsRunOf id trigger)) ∘ fun firing =>
            cronTriggerForJob setting scan.receivedAt firing.1 firing.2.1 firing.2.2)) =
          ((firingsOf setting.zone since scan.now scan.uuids state.registry.jobs).map (·.1.id)).count id := by
        rw [List.count, List.countP_map]
        refine List.countP_congr fun firing _ => ?_
        simp [isRunOf_pushed]
      rw [own]
      by_cases fires : id ∈ (firingsOf setting.zone since scan.now scan.uuids state.registry.jobs).map (·.1.id)
      · obtain ⟨firing, member, rfl⟩ := List.mem_map.mp fires
        have idle := (runsInFlight_eq_nil).mp (idle_of_firing exclusive member)
        have none : state.inFlight.countP (fun trigger => IsRunOf firing.1.id trigger) = 0 :=
          List.countP_eq_zero.mpr fun trigger flies => by simpa using idle trigger flies
        rw [none, Nat.zero_add]
        exact List.nodup_iff_count_le_one.mp (exclusive.ids.jobs.sublist ids_firingsOf_sublist) firing.1.id
      · rw [List.count_eq_zero_of_not_mem fires]
        exact exclusive.single id

/-- Fewer triggers in flight over the same markers stay exclusive. -/
private theorem exclusive_of_perm (exclusive : Exclusive state) (ids : DistinctIds next.registry)
    (registry : next.registry = state.registry) (flying : next.inFlight.Subperm state.inFlight) : Exclusive next := by
  refine ⟨ids, ?_, ?_, fun id => ?_⟩
  · rw [registry]
    exact fun trigger flies => exclusive.marked trigger (flying.subset flies)
  · obtain ⟨kept, same, sublist⟩ := flying
    rw [← (same.map (·.traceId)).nodup_iff]
    exact exclusive.traces.sublist (sublist.map _)
  · exact (flying.countP_le _).trans (exclusive.single id)

private theorem exclusive_settle (exclusive : Exclusive state) {trigger : Trigger} {how : DispatchEnd} {completedAt : ℤ}
    {outcome : WriteOutcome} (stepped : state.step? setting (.settle trigger how completedAt outcome) = some next) :
    Exclusive next := by
  have ids := distinctIds_step exclusive.ids stepped
  obtain ⟨moved, registry, _⟩ := step_settle stepped
  have traces := (moved.map (·.traceId)).nodup_iff.mp exclusive.traces
  rw [List.map_cons, List.nodup_cons] at traces
  refine ⟨ids, fun other flies job known runs => ?_, traces.2, fun id => ?_⟩
  · have flew : other ∈ state.inFlight := moved.symm.subset (List.mem_cons_of_mem _ flies)
    rw [registry, jobs_markCompleted] at known
    rcases mem_completedJobs known with old | ⟨old, isOld, marker, rfl⟩
    · exact exclusive.marked other flew job old runs
    · have same := exclusive.marked other flew old isOld runs
      rw [marker] at same
      exact absurd (List.mem_map.mpr ⟨other, flies, (Option.some.inj same).symm⟩) traces.1
  · have bound := exclusive.single id
    rw [moved.countP_eq, List.countP_cons] at bound
    omega

private theorem exclusive_step (exclusive : Exclusive state) (spares : SparesRunning state event)
    (stepped : state.step? setting event = some next) : Exclusive next := by
  have ids := distinctIds_step exclusive.ids stepped
  cases event with
  | tool => exact exclusive_operation exclusive spares rfl stepped
  | command => exact exclusive_operation exclusive spares rfl stepped
  | tick => exact exclusive_tick exclusive stepped
  | settle => exact exclusive_settle exclusive stepped
  | dispatch =>
    obtain ⟨trigger, _, _, registry, _, _, ⟨_, moved⟩ | ⟨_, dropped⟩⟩ := step_dispatch stepped
    · exact exclusive_of_perm exclusive ids registry moved.symm.subperm
    · refine exclusive_of_perm exclusive ids registry ?_
      rw [dropped]
      exact (List.sublist_cons_self _ _).subperm
  | pushOther trigger =>
    obtain ⟨other, absent, more, registry, _⟩ := step_pushOther stepped
    have noRun (id : JsString) : ¬ IsRunOf id trigger := fun runs => other runs.1
    refine ⟨ids, fun flying flies job known runs => ?_, ?_, fun id => ?_⟩
    · rcases List.mem_cons.mp (more.subset flies) with rfl | before
      · exact absurd runs (noRun job.id)
      · exact exclusive.marked flying before job (registry ▸ known) runs
    · rw [(more.map (·.traceId)).nodup_iff, List.map_cons, List.nodup_cons]
      exact ⟨fun known => absent (List.mem_append_right _ known), exclusive.traces⟩
    · rw [more.countP_eq, List.countP_cons]
      simpa [noRun] using exclusive.single id
  | closeSink =>
    obtain rfl := Option.some.inj stepped
    exact ⟨exclusive.ids, exclusive.marked, exclusive.traces, exclusive.single⟩
  | stop =>
    obtain rfl := Option.some.inj stepped
    exact ⟨exclusive.ids, exclusive.marked, exclusive.traces, exclusive.single⟩
  | restart =>
    obtain rfl := Option.some.inj stepped
    exact ⟨ids, fun _ flies => absurd flies List.not_mem_nil, List.nodup_nil, fun _ => Nat.zero_le 1⟩

/-- In every run in which no job is disabled while a run of it is in flight, a job has at most one run in flight,
and a scan that finds one fires nothing for the job. -/
theorem at_most_one_run {config : TriggerRuntimeConfig} {events : List CronEvent}
    (spares : Meets (CronState.machine setting) SparesRunning (.initial config) events)
    (run : run? (CronState.machine setting) (.initial config) events = some state) (id : JsString) :
    (runsInFlight state id).length ≤ 1 ∧
      ∀ scan next, state.step? setting (.tick scan) = some next → runsInFlight state id ≠ [] →
        ∃ fired, next.fired = state.fired ++ fired ∧ ∀ firing ∈ fired, firing.jobId ≠ id := by
  have start : Exclusive (.initial config) :=
    ⟨distinctIds_initial config, fun _ flies => absurd flies List.not_mem_nil, List.nodup_nil, fun _ => Nat.zero_le 1⟩
  have exclusive : Exclusive state := run?_invariant Exclusive (fun _ _ _ => exclusive_step) start spares run
  refine ⟨?_, fun scan next stepped unfinished => ?_⟩
  · rw [runsInFlight, ← List.countP_eq_length_filter]
    exact exclusive.single id
  · obtain ⟨since, _, _, _, ⟨_, _, _, fired, _⟩ | ⟨_, fired, _⟩⟩ := step_tick stepped
    · exact ⟨[], by rw [fired, List.append_nil], fun _ member => absurd member List.not_mem_nil⟩
    · refine ⟨_, fired, fun firing member same => ?_⟩
      obtain ⟨due, fires, rfl⟩ := List.mem_map.mp member
      exact unfinished (same ▸ idle_of_firing exclusive fires)

section Runs

private def greenwich : CronSetting := ⟨.utc, id⟩

private def drawn (uuid : String) : CronDraw := ⟨js uuid, 0, .written⟩

private def tickAt (now : ℤ) (uuid : String) : CronEvent := .tick ⟨now, fun _ => js uuid, now, .written⟩

/-- A job is added and fires. -/
private def oneFiring : List CronEvent :=
  [.restart none 0 {} .written, .command (.add (js "* * * * *") (js "x") false) (drawn "a"), tickAt 60000 "b"]

private theorem oneFiring_ends : (run? (CronState.machine greenwich) (.initial {}) oneFiring).map
    (fun state => (runsInFlight state (js "cron-a")).length) = some 1 := by
  decide

private theorem spares_oneFiring : Meets (CronState.machine greenwich) SparesRunning (.initial {}) oneFiring :=
  .cons trivial (by decide) (.cons trivial (by decide) (.cons trivial (by decide) meets_nil))

theorem at_most_one_run_firing : ∃ state, run? (CronState.machine greenwich) (.initial {}) oneFiring = some state ∧
    runsInFlight state (js "cron-a") ≠ [] ∧ (runsInFlight state (js "cron-a")).length ≤ 1 := by
  obtain ⟨state, run, ends⟩ := Option.map_eq_some_iff.mp oneFiring_ends
  refine ⟨state, run, fun none => ?_, (at_most_one_run spares_oneFiring run (js "cron-a")).1⟩
  rw [none] at ends
  cases ends

/-- The job is disabled and enabled while its run is in flight. -/
private def disabledBetween : List CronEvent :=
  oneFiring ++ [.command (.disable (js "cron-a")) (drawn "c"), .command (.enable (js "cron-a")) (drawn "d"),
    tickAt 120000 "e"]

/-- A job that is disabled and enabled again fires beside its own run. -/
theorem disabling_allows_overlap :
    (run? (CronState.machine greenwich) (.initial {}) disabledBetween).map
      (fun state => (runsInFlight state (js "cron-a")).length) = some 2 := by
  decide

end Runs

end PieAgent.Soundness
