import PieAgent.Proofs.Triggers.CronScheduler

/-! # Windows of a cron scan

A scan fires what is due after the scan before it and up to now. While scans advance, and local time does
not repeat the minute after a scan, no minute of a job fires twice and none in the horizon of the search is
passed over. Beyond the five years of that horizon a scan sees nothing; where clocks are turned back the
search starts at the first of two equal local times, which may be before the last scan.
-/

namespace PieAgent.Soundness

open JavaScript Machine PieAgent.Model PieAgent.Proofs

variable {setting : CronSetting} {state next : CronState} {event : CronEvent}

/-- A scan comes after the one before, whose next minute is not repeated; a start comes after all that fired. -/
def Advances (setting : CronSetting) (state : CronState) : CronEvent → Prop
  | .tick scan => ∀ since, state.lastScan = some since →
      since < scan.now ∧ setting.zone.KeepsMinute (since + msPerMinute)
  | .restart _ startedAt _ _ => ∀ firing ∈ state.fired, firing.dueAt ≤ startedAt
  | _ => True

/-- Firings of one job are for later and later minutes, none after the last scan. -/
private structure Ordered (state : CronState) : Prop where
  ids : DistinctIds state.registry
  past : ∀ since, state.lastScan = some since → ∀ firing ∈ state.fired, firing.dueAt ≤ since
  pairwise : state.fired.Pairwise fun first second => first.jobId = second.jobId → first.dueAt < second.dueAt

/-- The firings of a scan are for minutes in its window. -/
private theorem firing_in_window {since now : ℤ} {uuids : ℕ → JsString} {jobs : List CronJob}
    (keeps : setting.zone.KeepsMinute (since + msPerMinute)) {firing : CronJob × ℤ × JsString}
    (member : firing ∈ firingsOf setting.zone since now uuids jobs) : since < firing.2.1 ∧ firing.2.1 ≤ now := by
  obtain ⟨_, _, _, _, _, _, _, inside, expr, _, least⟩ := mem_firingsOf member
  exact ⟨((CronExpression.nextAfter_isLeast keeps).mp least).1.1, inside⟩

private theorem nodup_jobIds_firings {since now : ℤ} {uuids : ℕ → JsString} (ids : DistinctIds state.registry) :
    (((firingsOf setting.zone since now uuids state.registry.jobs).map fun firing =>
      (⟨firing.1.id, firing.2.1, firing.2.2⟩ : CronFiring)).map (·.jobId)).Nodup := by
  rw [List.map_map]
  exact ids.jobs.sublist ids_firingsOf_sublist

private theorem ordered_step (ordered : Ordered state) (advances : Advances setting state event)
    (stepped : state.step? setting event = some next) : Ordered next := by
  have ids := distinctIds_step ordered.ids stepped
  have quiet (fired : next.fired = state.fired) (lastScan : next.lastScan = state.lastScan) : Ordered next :=
    ⟨ids, fun since scanned => fired ▸ ordered.past since (lastScan ▸ scanned), fired ▸ ordered.pairwise⟩
  cases event with
  | tool | command =>
    obtain ⟨_, _, _, rfl⟩ := step_operation stepped rfl
    exact quiet rfl rfl
  | dispatch =>
    obtain ⟨_, _, _, _, fired, lastScan, _⟩ := step_dispatch stepped
    exact quiet fired lastScan
  | settle => exact quiet (step_settle stepped).2.2.1 (step_settle stepped).2.2.2
  | pushOther => exact quiet (step_pushOther stepped).2.2.2.2.1 (step_pushOther stepped).2.2.2.2.2
  | closeSink =>
    obtain rfl := Option.some.inj stepped
    exact quiet rfl rfl
  | stop =>
    obtain rfl := Option.some.inj stepped
    exact ⟨ids, nofun, ordered.pairwise⟩
  | restart =>
    obtain rfl := Option.some.inj stepped
    refine ⟨ids, fun since started => ?_, ordered.pairwise⟩
    obtain rfl := Option.some.inj started
    exact advances
  | tick scan =>
    obtain ⟨since, scanning, _, _, ⟨_, _, _, fired, stopped⟩ | ⟨_, fired, scanned⟩⟩ := step_tick stepped
    · exact ⟨ids, fun other same => absurd (stopped.symm.trans same) (by simp), fired ▸ ordered.pairwise⟩
    · obtain ⟨later, keeps⟩ := advances since scanning
      have window : ∀ firing ∈ (firingsOf setting.zone since scan.now scan.uuids state.registry.jobs).map
          (fun firing => (⟨firing.1.id, firing.2.1, firing.2.2⟩ : CronFiring)),
          since < firing.dueAt ∧ firing.dueAt ≤ scan.now := by
        intro firing member
        obtain ⟨due, fires, rfl⟩ := List.mem_map.mp member
        exact firing_in_window keeps fires
      refine ⟨ids, fun other same => ?_, ?_⟩
      · obtain rfl := Option.some.inj (scanned.symm.trans same)
        rw [fired]
        intro firing member
        rcases List.mem_append.mp member with old | new
        · exact (ordered.past since scanning firing old).trans later.le
        · exact (window firing new).2
      · rw [fired, List.pairwise_append]
        refine ⟨ordered.pairwise, ?_, fun old member new pushed _ => ?_⟩
        · have differ := @nodup_jobIds_firings setting _ since scan.now scan.uuids ordered.ids
          exact (List.pairwise_map.mp differ).imp fun differ same => absurd same differ
        · exact (ordered.past since scanning old member).trans_lt (window new pushed).1

/-- What a scan fires of a job that is enabled and not running: the least matching minute of its window, if the
window holds one within the horizon. -/
private theorem fires_iff {since : ℤ} {scan : CronScan} (ids : DistinctIds state.registry)
    (keeps : setting.zone.KeepsMinute (since + msPerMinute)) {job : CronJob} (known : job ∈ state.registry.jobs)
    {expr : CronExpression} (parses : parseCronExpression job.schedule = .ok expr) (enabled : job.enabled = true)
    (idle : job.runningTraceId = none) (dueAt : ℤ) :
    (∃ firing ∈ (firingsOf setting.zone since scan.now scan.uuids state.registry.jobs).map
        (fun firing => (⟨firing.1.id, firing.2.1, firing.2.2⟩ : CronFiring)),
        firing.jobId = job.id ∧ firing.dueAt = dueAt) ↔
      IsLeast (expr.Upcoming setting.zone since) dueAt ∧ dueAt ≤ scan.now := by
  constructor
  · rintro ⟨firing, member, same, rfl⟩
    obtain ⟨due, fires, rfl⟩ := List.mem_map.mp member
    obtain ⟨_, _, old, isOld, id, _, _, inside, other, parsed, found⟩ := mem_firingsOf fires
    obtain rfl : old = job := List.inj_on_of_nodup_map ids.jobs isOld known (id.symm.trans same)
    obtain rfl : other = expr := Except.ok.inj (parsed.symm.trans parses)
    exact ⟨(CronExpression.nextAfter_isLeast keeps).mp found, inside⟩
  · rintro ⟨least, inside⟩
    have firesAt : FiresAt setting.zone since scan.now job dueAt :=
      ⟨enabled, idle, inside, expr, parses, (CronExpression.nextAfter_isLeast keeps).mpr least⟩
    obtain ⟨firing, member, id, same⟩ := @exists_firing _ _ _ scan.uuids _ _ _ known firesAt
    exact ⟨_, List.mem_map.mpr ⟨firing, member, rfl⟩, id, same⟩

/-- While scans advance, no minute of a job fires twice, every scan fires a job at most once, and it fires an
enabled job that is not running exactly if the window holds a matching minute within the horizon, for the
least such minute. The search of the next run finds the least matching minute within the horizon. -/
theorem cron_windows {config : TriggerRuntimeConfig} {events : List CronEvent}
    (advances : Meets (CronState.machine setting) (Advances setting) (.initial config) events)
    (run : run? (CronState.machine setting) (.initial config) events = some state) :
    (state.fired.Pairwise fun first second => first.jobId = second.jobId → first.dueAt < second.dueAt) ∧
    (∀ since scan next, state.lastScan = some since → state.sinkClosed = false →
      setting.zone.KeepsMinute (since + msPerMinute) → state.step? setting (.tick scan) = some next →
      ∃ fired, next.fired = state.fired ++ fired ∧ (fired.map (·.jobId)).Nodup ∧
        ∀ job ∈ state.registry.jobs, ∀ expr, parseCronExpression job.schedule = .ok expr → job.enabled = true →
          job.runningTraceId = none →
          ((∃ firing ∈ fired, firing.jobId = job.id) ↔ ∃ minute ∈ expr.Upcoming setting.zone since, minute ≤ scan.now) ∧
          ∀ firing ∈ fired, firing.jobId = job.id → IsLeast (expr.Upcoming setting.zone since) firing.dueAt) ∧
    ∀ (expr : CronExpression) (after : ℤ), setting.zone.KeepsMinute (after + msPerMinute) →
      (∀ due, expr.nextAfter setting.zone after = some due ↔ IsLeast (expr.Upcoming setting.zone after) due) ∧
        (expr.nextAfter setting.zone after = none ↔ expr.Upcoming setting.zone after = ∅) := by
  have start : Ordered (.initial config) := ⟨distinctIds_initial config, nofun, List.Pairwise.nil⟩
  have ordered : Ordered state := run?_invariant Ordered (fun _ _ _ => ordered_step) start advances run
  refine ⟨ordered.pairwise, fun since scan next scanning isOpen keeps stepped => ?_, fun expr after keeps =>
    ⟨fun _ => CronExpression.nextAfter_isLeast keeps, CronExpression.nextAfter_eq_none keeps⟩⟩
  obtain ⟨_, same, _, _, exits⟩ := step_tick stepped
  obtain rfl := Option.some.inj (scanning.symm.trans same)
  rcases exits with ⟨closed, _⟩ | ⟨_, fired, _⟩
  · rw [isOpen] at closed
    cases closed
  · refine ⟨_, fired, nodup_jobIds_firings ordered.ids, fun job known expr parses enabled idle => ?_⟩
    have fires := @fires_iff _ _ _ scan ordered.ids keeps _ known _ parses enabled idle
    refine ⟨⟨?_, ?_⟩, fun firing member id => ((fires firing.dueAt).mp ⟨firing, member, id, rfl⟩).1⟩
    · rintro ⟨firing, member, id⟩
      obtain ⟨least, inside⟩ := (fires firing.dueAt).mp ⟨firing, member, id, rfl⟩
      exact ⟨firing.dueAt, least.1, inside⟩
    · rintro ⟨minute, upcoming, inside⟩
      have some : expr.nextAfter setting.zone since ≠ none := by
        intro none
        rw [CronExpression.nextAfter_eq_none keeps] at none
        exact absurd upcoming (none ▸ Set.notMem_empty minute)
      obtain ⟨due, found⟩ := Option.ne_none_iff_exists'.mp some
      have least := (CronExpression.nextAfter_isLeast keeps).mp found
      obtain ⟨firing, member, id, _⟩ := (fires due).mpr ⟨least, (least.2 upcoming).trans inside⟩
      exact ⟨firing, member, id⟩

section Runs

private def london : CronSetting := ⟨.turnedBack 1792890000000, id⟩

private def newDraw (uuid : String) : CronDraw := ⟨js uuid, 0, .written⟩

private def scanOf (now : ℤ) (uuid : String) : CronEvent := .tick ⟨now, fun _ => js uuid, now, .written⟩

/-- A job that is due every minute fires once and is skipped once. -/
private def twoScans : List CronEvent :=
  [.restart none 1792880000000 {} .written, .command (.add (js "* * * * *") (js "x") false) (newDraw "a"),
    scanOf 1792880060000 "b", scanOf 1792880120000 "c"]

private theorem twoScans_ends : (run? (CronState.machine london) (.initial {}) twoScans).map (·.fired) =
    some [⟨js "cron-a", 1792880040000, js "cron-b"⟩] := by
  decide

private theorem advances_of_scans {state : CronState} {now : ℤ} {uuid : String} (since : ℤ)
    (scanning : state.lastScan = some since) (later : since < now) (keeps : london.zone.KeepsMinute (since + msPerMinute)) :
    Advances london state (scanOf now uuid) := by
  intro other same
  obtain rfl := Option.some.inj (scanning.symm.trans same)
  exact ⟨later, keeps⟩

private theorem advances_twoScans : Meets (CronState.machine london) (Advances london) (.initial {}) twoScans := by
  refine .cons (fun _ member => absurd member List.not_mem_nil) (by decide) ?_
  refine .cons trivial (by decide) ?_
  refine .cons (advances_of_scans 1792880000000 (by decide) (by decide) (by decide))
    (by decide) ?_
  exact .cons (advances_of_scans 1792880060000 (by decide) (by decide) (by decide))
    (by decide) meets_nil

theorem cron_windows_two : ∃ state, run? (CronState.machine london) (.initial {}) twoScans = some state ∧
    state.fired ≠ [] ∧
      state.fired.Pairwise fun first second => first.jobId = second.jobId → first.dueAt < second.dueAt := by
  obtain ⟨state, run, ends⟩ := Option.map_eq_some_iff.mp twoScans_ends
  refine ⟨state, run, ?_, (cron_windows advances_twoScans run).1⟩
  rw [ends]
  exact List.cons_ne_nil _ _

/-- A job for the leap days. -/
private def leapJob : CronJob :=
  { id := js "cron-a", schedule := js "0 0 29 2 *", action := js "x", enabled := true, runningTraceId := none
    lastDueAt := none, lastFiredAt := none, lastCompletedAt := none, lastError := none, skippedOverlapCount := 0
    stateful := false, createdAt := [] }

private def leapDays : CronExpression := ⟨{0}, {0}, {29}, {2}, {0, 1, 2, 3, 4, 5, 6}⟩

private theorem parse_leapJob : parseCronExpression leapJob.schedule = .ok leapDays := by
  decide

/-- No leap day falls on the five years after February 2096. -/
private theorem no_leap_day (k : ℕ) (small : k < 1831) :
    (civilDate (46081 + (k : ℤ))).month ≠ 2 ∨ (civilDate (46081 + (k : ℤ))).day ≠ 29 := by
  have ofEra : (46081 + (k : ℤ) + 719468) % 146097 = 35064 + k := by omega
  simp only [civilDate, ofEra]
  generalize yearOfEra_eq :
    (35064 + (k : ℤ) - (35064 + k) / 1460 + (35064 + k) / 36524 - (35064 + k) / 146096) / 365 = yearOfEra
  have years : yearOfEra = 96 ∨ yearOfEra = 97 ∨ yearOfEra = 98 ∨ yearOfEra = 99 ∨ yearOfEra = 100 ∨
      yearOfEra = 101 := by
    omega
  rcases years with rfl | rfl | rfl | rfl | rfl | rfl <;> omega

private theorem keepsMinute_utc (time : ℤ) : TimeZone.utc.KeepsMinute time := by
  simp [TimeZone.KeepsMinute, TimeZone.setSecondsZero, TimeZone.localTime, TimeZone.utc]

private theorem leapDays_silent (dueAt : ℤ) :
    ¬ FiresAt .utc (46081 * msPerDay) (49001 * msPerDay) leapJob dueAt := by
  rintro ⟨_, _, _, expr, parses, found⟩
  obtain rfl : leapDays = expr := Except.ok.inj ((parse_leapJob).symm.trans parses)
  obtain ⟨later, inside, _, matches_⟩ := ((CronExpression.nextAfter_isLeast (keepsMinute_utc _)).mp found).1
  have day : dueAt / msPerDay = 46081 + ((dueAt / msPerDay - 46081).toNat : ℤ) ∧ (dueAt / msPerDay - 46081).toNat < 1831 := by
    simp only [msPerDay, fiveYearsMs] at later inside ⊢
    omega
  have date := no_leap_day _ day.2
  rw [← day.1] at date
  have leap : (civilDate (dueAt / msPerDay)).day.toNat = 29 ∧ (civilDate (dueAt / msPerDay)).month.toNat = 2 := by
    simp only [CronExpression.matchesAt, leapDays, TimeZone.getDate, TimeZone.getMonthOfYear, TimeZone.localDay,
      TimeZone.localTime, TimeZone.utc, zero_mul, add_zero, Bool.and_eq_true, decide_eq_true_eq,
      Finset.mem_singleton] at matches_
    exact ⟨matches_.1.1.2, matches_.1.2⟩
  omega

/-- A window of eight years holds a leap day that its scan does not fire, and in the hour that clocks repeat the
next run after an instant is a minute before it, the one found an hour earlier. -/
theorem windows_missed_and_repeated :
    (∃ minute, 46081 * msPerDay < minute ∧ minute ≤ 49001 * msPerDay ∧ leapDays.Matching .utc minute ∧
      ∀ dueAt, ¬ FiresAt .utc (46081 * msPerDay) (49001 * msPerDay) leapJob dueAt) ∧
    ∃ expr, parseCronExpression (js "* * * * *") = .ok expr ∧
      expr.nextAfter london.zone 1792888200000 = some 1792888260000 ∧
        expr.nextAfter london.zone 1792891800000 = some 1792888260000 := by
  refine ⟨⟨49001 * msPerDay, by decide, by decide, ⟨by decide, by decide⟩, leapDays_silent⟩, ?_⟩
  have parsed : ((parseCronExpression (js "* * * * *")).toOption.map fun expr =>
      (expr.nextAfter london.zone 1792888200000, expr.nextAfter london.zone 1792891800000)) =
        some (some 1792888260000, some 1792888260000) := by
    decide
  cases same : parseCronExpression (js "* * * * *") with
  | error error =>
    rw [same] at parsed
    cases parsed
  | ok expr =>
    rw [same] at parsed
    obtain ⟨first, second⟩ := Prod.mk.inj (Option.some.inj parsed)
    exact ⟨expr, rfl, first, second⟩

end Runs

end PieAgent.Soundness
