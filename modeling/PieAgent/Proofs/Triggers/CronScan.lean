import Mathlib.Data.Nat.Find
import Mathlib.Order.Bounds.Basic
import Mathlib.Tactic.Ring
import PieAgent.Model.Triggers.CronExpression
import PieAgent.Proofs.Triggers.CronRegistry

/-! # What a scan does to the jobs

A job fires if it is enabled, not marked as running, and has a next run in the window. A scan marks the
jobs that fire and leaves the markers of the others alone.
-/

/-! ## The next run of a cron expression

Where truncating the seconds of local time stays in the same minute, the candidates of the search are the
minutes after the instant, and the search finds the least of them that matches.
-/

namespace JavaScript.TimeZone

/-- Truncating the seconds of local time leads to the start of the minute of an instant. This fails only
where clocks have been turned back. -/
def KeepsMinute (zone : TimeZone) (time : ℤ) : Prop := zone.setSecondsZero time = time - time % msPerMinute

instance (zone : TimeZone) (time : ℤ) : Decidable (zone.KeepsMinute time) := inferInstanceAs (Decidable (_ = _))

end JavaScript.TimeZone

namespace PieAgent.Model.CronExpression

open JavaScript

variable {zone : TimeZone} {expr : CronExpression}

/-- A minute, by the instant it begins at, that an expression matches. -/
def Matching (zone : TimeZone) (expr : CronExpression) (minute : ℤ) : Prop :=
  minute % msPerMinute = 0 ∧ expr.matchesAt zone minute = true

/-- The matching minutes that the search of the next run covers. -/
def Upcoming (zone : TimeZone) (expr : CronExpression) (after : ℤ) : Set ℤ :=
  {minute | after < minute ∧ minute ≤ after + fiveYearsMs ∧ expr.Matching zone minute}

private theorem next_candidate (candidate : ℤ) (k : ℕ) :
    candidate + msPerMinute + k * msPerMinute = candidate + ((k + 1 : ℕ) : ℤ) * msPerMinute := by
  push_cast
  ring

/-- A search finds the first candidate that matches. -/
theorem firstMatch_eq_some {count : ℕ} {candidate found : ℤ} :
    expr.firstMatch zone count candidate = some found ↔
      ∃ k < count, found = candidate + k * msPerMinute ∧ expr.matchesAt zone found = true ∧
        ∀ j < k, expr.matchesAt zone (candidate + j * msPerMinute) = false := by
  induction count generalizing candidate with
  | zero => simp [firstMatch]
  | succ count ih =>
    rw [firstMatch]
    split
    · next hit =>
      constructor
      · rintro ⟨⟩
        exact ⟨0, Nat.succ_pos count, by simp, hit, fun j before => absurd before (Nat.not_lt_zero j)⟩
      · rintro ⟨k, _, rfl, _, earlier⟩
        cases k with
        | zero => simp
        | succ k => simpa [hit] using earlier 0 (Nat.succ_pos k)
    · next miss =>
      rw [ih]
      constructor
      · rintro ⟨k, bound, rfl, hit, earlier⟩
        refine ⟨k + 1, by omega, next_candidate candidate k, hit, fun j before => ?_⟩
        cases j with
        | zero => simpa using miss
        | succ j =>
          rw [← next_candidate]
          exact earlier j (by omega)
      · rintro ⟨k, bound, rfl, hit, earlier⟩
        cases k with
        | zero => exact absurd hit (by simpa using miss)
        | succ k =>
          refine ⟨k, by omega, (next_candidate candidate k).symm, hit, fun j before => ?_⟩
          rw [next_candidate]
          exact earlier (j + 1) (by omega)

/-- A search that finds nothing has tried every candidate. -/
theorem firstMatch_eq_none {count : ℕ} {candidate : ℤ} :
    expr.firstMatch zone count candidate = none ↔
      ∀ k < count, expr.matchesAt zone (candidate + k * msPerMinute) = false := by
  constructor
  · intro nothing
    by_contra some
    push Not at some
    obtain ⟨bound, hit⟩ := Nat.find_spec some
    have found := (firstMatch_eq_some).mpr
      ⟨Nat.find some, bound, rfl, by simpa using hit, fun j before => by
        have := Nat.find_min some before
        simpa using fun inside => this ⟨by omega, inside⟩⟩
    rw [nothing] at found
    cases found
  · intro misses
    by_contra some
    obtain ⟨found, same⟩ := Option.ne_none_iff_exists'.mp some
    obtain ⟨k, bound, rfl, hit, _⟩ := (firstMatch_eq_some).mp same
    rw [misses k bound] at hit
    cases hit

variable {after : ℤ} (keeps : zone.KeepsMinute (after + msPerMinute))
include keeps

/-- The candidates of a search are the minutes that it covers. -/
private theorem candidate_iff (minute : ℤ) :
    (∃ k < ((after + fiveYearsMs - zone.setSecondsZero (after + msPerMinute)) / msPerMinute + 1).toNat,
        minute = zone.setSecondsZero (after + msPerMinute) + (k : ℕ) * msPerMinute) ↔
      after < minute ∧ minute ≤ after + fiveYearsMs ∧ minute % msPerMinute = 0 := by
  rw [keeps]
  simp only [msPerMinute, fiveYearsMs, msPerDay]
  constructor
  · rintro ⟨k, bound, rfl⟩
    omega
  · rintro ⟨later, inside, whole⟩
    refine ⟨((minute - (after + 60000 - (after + 60000) % 60000)) / 60000).toNat, ?_, ?_⟩ <;> omega

theorem nextAfter_isLeast {due : ℤ} : expr.nextAfter zone after = some due ↔ IsLeast (expr.Upcoming zone after) due := by
  simp only [nextAfter]
  rw [firstMatch_eq_some]
  constructor
  · rintro ⟨k, bound, same, hit, earlier⟩
    obtain ⟨later, inside, whole⟩ := (candidate_iff keeps due).mp ⟨k, bound, same⟩
    refine ⟨⟨later, inside, whole, hit⟩, fun other ⟨otherLater, otherInside, otherWhole, otherHit⟩ => ?_⟩
    obtain ⟨j, _, otherSame⟩ := (candidate_iff keeps other).mpr ⟨otherLater, otherInside, otherWhole⟩
    by_contra before
    have : j < k := by
      rw [same, otherSame] at before
      simp only [msPerMinute] at before
      omega
    rw [otherSame, earlier j this] at otherHit
    cases otherHit
  · rintro ⟨⟨later, inside, whole, hit⟩, least⟩
    obtain ⟨k, bound, same⟩ := (candidate_iff keeps due).mpr ⟨later, inside, whole⟩
    refine ⟨k, bound, same, hit, fun j before => ?_⟩
    by_contra otherHit
    obtain ⟨otherLater, otherInside, otherWhole⟩ := (candidate_iff keeps _).mp ⟨j, before.trans bound, rfl⟩
    have := least ⟨otherLater, otherInside, otherWhole, by simpa using otherHit⟩
    rw [same] at this
    simp only [msPerMinute] at this
    omega

theorem nextAfter_eq_none : expr.nextAfter zone after = none ↔ expr.Upcoming zone after = ∅ := by
  simp only [nextAfter]
  rw [firstMatch_eq_none, Set.eq_empty_iff_forall_notMem]
  constructor
  · rintro misses minute ⟨later, inside, whole, hit⟩
    obtain ⟨k, bound, rfl⟩ := (candidate_iff keeps minute).mpr ⟨later, inside, whole⟩
    rw [misses k bound] at hit
    cases hit
  · intro nothing k bound
    by_contra hit
    obtain ⟨later, inside, whole⟩ := (candidate_iff keeps _).mp ⟨k, bound, rfl⟩
    exact nothing _ ⟨later, inside, whole, by simpa using hit⟩

end PieAgent.Model.CronExpression

namespace PieAgent.Proofs

open JavaScript PieAgent.Model

variable {zone : TimeZone} {since now : ℤ}

/-- A scan of the window from `since` to `now` fires a job for the minute `dueAt`. -/
def FiresAt (zone : TimeZone) (since now : ℤ) (job : CronJob) (dueAt : ℤ) : Prop :=
  job.enabled = true ∧ job.runningTraceId = none ∧ dueAt ≤ now ∧
    ∃ expr, parseCronExpression job.schedule = .ok expr ∧ expr.nextAfter zone since = some dueAt

section Job

variable (uuid : JsString) (job : CronJob)

@[simp] theorem id_scan : (job.scan zone since now uuid).1.id = job.id := by
  unfold CronJob.scan
  repeat' split
  all_goals rfl

@[simp] theorem enabled_scan : (job.scan zone since now uuid).1.enabled = job.enabled := by
  unfold CronJob.scan
  repeat' split
  all_goals rfl

theorem scan_eq_some {dueAt : ℤ} : (job.scan zone since now uuid).2 = some dueAt ↔ FiresAt zone since now job dueAt := by
  unfold CronJob.scan FiresAt
  cases enabled : job.enabled with
  | false => simp
  | true =>
    cases parsed : parseCronExpression job.schedule with
    | error error => simp
    | ok expr =>
      cases next : expr.nextAfter zone since with
      | none => simp [next]
      | some minute =>
        by_cases later : now < minute
        · simp only [Bool.not_true, Bool.false_eq_true, if_false, next, later, if_true]
          constructor
          · rintro ⟨⟩
          · rintro ⟨_, _, inside, _, ⟨⟩, same⟩
            obtain rfl := Option.some.inj (next.symm.trans same)
            omega
        · cases marker : job.runningTraceId with
          | some traceId => simp [next, later]
          | none =>
            simp only [Bool.not_true, Bool.false_eq_true, if_false, next, later]
            constructor
            · rintro ⟨⟩
              exact ⟨trivial, trivial, by omega, expr, rfl, next⟩
            · rintro ⟨_, _, _, _, ⟨⟩, same⟩
              exact next.symm.trans same

/-- A scan marks a job that it fires. -/
theorem marker_scan_of_fires {dueAt : ℤ} (fires : (job.scan zone since now uuid).2 = some dueAt) :
    (job.scan zone since now uuid).1.runningTraceId = some (js "cron-" ++ uuid) := by
  unfold CronJob.scan at fires ⊢
  repeat' split
  all_goals simp_all

/-- A scan leaves the marker of a job alone that it does not fire. -/
theorem marker_scan_of_quiet (quiet : (job.scan zone since now uuid).2 = none) :
    (job.scan zone since now uuid).1.runningTraceId = job.runningTraceId := by
  unfold CronJob.scan at quiet ⊢
  repeat' split
  all_goals simp_all

end Job

/-- The jobs after a scan. -/
def scannedJobs (zone : TimeZone) (since now : ℤ) : (ℕ → JsString) → List CronJob → List CronJob
  | _, [] => []
  | uuids, job :: jobs =>
    (job.scan zone since now (uuids 0)).1 :: scannedJobs zone since now (fun place => uuids (place + 1)) jobs

/-- The firings of a scan. -/
def firingsOf (zone : TimeZone) (since now : ℤ) : (ℕ → JsString) → List CronJob → List (CronJob × ℤ × JsString)
  | _, [] => []
  | uuids, job :: jobs =>
    match (job.scan zone since now (uuids 0)).2 with
    | some dueAt => ((job.scan zone since now (uuids 0)).1, dueAt, js "cron-" ++ uuids 0) ::
        firingsOf zone since now (fun place => uuids (place + 1)) jobs
    | none => firingsOf zone since now (fun place => uuids (place + 1)) jobs

variable {uuids : ℕ → JsString} {jobs : List CronJob} {registry : CronRegistry} {outcome : WriteOutcome}

@[simp] theorem jobs_dueJobs : (registry.dueJobs zone since now uuids outcome).1.jobs =
    scannedJobs zone since now uuids registry.jobs := by
  have scanned : ∀ jobs uuids, (jobs.mapIdx fun place (job : CronJob) =>
      job.scan zone since now (uuids place)).map (·.1) = scannedJobs zone since now uuids jobs := by
    intro jobs
    induction jobs with
    | nil => intro uuids; rfl
    | cons job jobs ih =>
      intro uuids
      rw [List.mapIdx_cons, List.map_cons, ih]
      rfl
  unfold CronRegistry.dueJobs CronRegistry.scanJobs
  simp only [scanned]
  split
  · next same => exact same.symm
  · exact jobs_replaceAnyway _ _ _

theorem dueFirings_dueJobs : dueFirings (registry.dueJobs zone since now uuids outcome).2 =
    firingsOf zone since now uuids registry.jobs := by
  unfold CronRegistry.dueJobs CronRegistry.scanJobs dueFirings
  generalize registry.jobs = jobs
  induction jobs generalizing uuids with
  | nil => rfl
  | cons job jobs ih =>
    have rest := @ih fun place => uuids (place + 1)
    simp only at rest ⊢
    rw [List.mapIdx_cons, firingsOf]
    cases fires : (job.scan zone since now (uuids 0)).2 with
    | none => simpa [List.filterMap_cons, fires] using rest
    | some dueAt =>
      simpa [List.filterMap_cons, fires, marker_scan_of_fires _ _ fires] using rest

theorem saved_dueJobs : Saved registry (scannedJobs zone since now uuids registry.jobs)
    (registry.dueJobs zone since now uuids outcome).1 := by
  have jobs := @jobs_dueJobs zone since now uuids registry outcome
  unfold CronRegistry.dueJobs at jobs ⊢
  simp only at jobs ⊢
  split
  · exact saved_refl _ _
  · next differ =>
    rw [if_neg differ, jobs_replaceAnyway] at jobs
    rw [← jobs]
    exact saved_replaceAnyway _ _ _

@[simp] theorem jobIds_scannedJobs : jobIds (scannedJobs zone since now uuids jobs) = jobIds jobs := by
  induction jobs generalizing uuids with
  | nil => rfl
  | cons job jobs ih => simp [scannedJobs, ih]

/-- A scan enables no job. -/
theorem mem_scannedJobs {job : CronJob} (member : job ∈ scannedJobs zone since now uuids jobs) :
    ∃ old ∈ jobs, job.id = old.id ∧ job.enabled = old.enabled ∧
      (job.runningTraceId = old.runningTraceId ∨ old.runningTraceId = none) := by
  induction jobs generalizing uuids with
  | nil => exact absurd member List.not_mem_nil
  | cons old jobs ih =>
    rcases List.mem_cons.mp member with rfl | member
    · refine ⟨old, List.mem_cons_self, id_scan _ _, enabled_scan _ _, ?_⟩
      cases fires : (old.scan zone since now (uuids 0)).2 with
      | none => exact .inl (marker_scan_of_quiet _ _ fires)
      | some dueAt => exact .inr ((scan_eq_some _ _).mp fires).2.1
    · obtain ⟨old, known, same⟩ := ih member
      exact ⟨old, List.mem_cons_of_mem _ known, same⟩

/-- A firing comes from a job that fires, which the scan marks with the trace. -/
theorem mem_firingsOf {firing : CronJob × ℤ × JsString} (member : firing ∈ firingsOf zone since now uuids jobs) :
    firing.1 ∈ scannedJobs zone since now uuids jobs ∧ firing.1.runningTraceId = some firing.2.2 ∧
      ∃ old ∈ jobs, firing.1.id = old.id ∧ FiresAt zone since now old firing.2.1 := by
  induction jobs generalizing uuids with
  | nil => exact absurd member List.not_mem_nil
  | cons job jobs ih =>
    have later (member : firing ∈ firingsOf zone since now (fun place => uuids (place + 1)) jobs) :
        firing.1 ∈ scannedJobs zone since now uuids (job :: jobs) ∧ firing.1.runningTraceId = some firing.2.2 ∧
          ∃ old ∈ job :: jobs, firing.1.id = old.id ∧ FiresAt zone since now old firing.2.1 := by
      obtain ⟨scanned, marker, old, known, same⟩ := ih member
      exact ⟨List.mem_cons_of_mem _ scanned, marker, old, List.mem_cons_of_mem _ known, same⟩
    rw [firingsOf] at member
    split at member
    · next dueAt fires =>
      rcases List.mem_cons.mp member with rfl | member
      · exact ⟨List.mem_cons_self, marker_scan_of_fires _ _ fires, job, List.mem_cons_self, id_scan _ _,
          (scan_eq_some _ _).mp fires⟩
      · exact later member
    · exact later member

/-- A scan fires every job that is to fire. -/
theorem exists_firing {job : CronJob} {dueAt : ℤ} (member : job ∈ jobs) (fires : FiresAt zone since now job dueAt) :
    ∃ firing ∈ firingsOf zone since now uuids jobs, firing.1.id = job.id ∧ firing.2.1 = dueAt := by
  induction jobs generalizing uuids with
  | nil => exact absurd member List.not_mem_nil
  | cons head jobs ih =>
    rw [firingsOf]
    rcases List.mem_cons.mp member with rfl | member
    · rw [(scan_eq_some (uuids 0) job).mpr fires]
      exact ⟨_, List.mem_cons_self, id_scan _ _, rfl⟩
    · obtain ⟨firing, known, same⟩ := @ih (fun place => uuids (place + 1)) member
      split
      · exact ⟨firing, List.mem_cons_of_mem _ known, same⟩
      · exact ⟨firing, known, same⟩

/-- A scan fires every job at most once. -/
theorem ids_firingsOf_sublist : ((firingsOf zone since now uuids jobs).map (·.1.id)).Sublist (jobIds jobs) := by
  induction jobs generalizing uuids with
  | nil => exact List.Sublist.refl _
  | cons job jobs ih =>
    rw [firingsOf]
    split
    · rw [List.map_cons, id_scan]
      exact ih.cons_cons _
    · exact ih.cons _

theorem traces_firingsOf_sublist : ((firingsOf zone since now uuids jobs).map (·.2.2)).Sublist
    ((List.range jobs.length).map fun place => js "cron-" ++ uuids place) := by
  induction jobs generalizing uuids with
  | nil => exact List.Sublist.refl _
  | cons job jobs ih =>
    rw [firingsOf, List.length_cons, List.range_succ_eq_map, List.map_cons, List.map_map]
    split
    · exact ih.cons_cons _
    · exact ih.cons _

/-- The markers after a scan are the markers before it and the traces of the firings. -/
theorem markers_scannedJobs : (markers (scannedJobs zone since now uuids jobs)).Perm
    (markers jobs ++ (firingsOf zone since now uuids jobs).map (·.2.2)) := by
  induction jobs generalizing uuids with
  | nil => exact List.Perm.refl _
  | cons job jobs ih =>
    rw [scannedJobs, firingsOf]
    cases fires : (job.scan zone since now (uuids 0)).2 with
    | some dueAt =>
      have idle : job.runningTraceId = none := ((scan_eq_some _ _).mp fires).2.1
      simp only [markers, List.filterMap_cons, marker_scan_of_fires _ _ fires, idle, List.map_cons]
      exact (List.Perm.cons _ ih).trans List.perm_middle.symm
    | none =>
      simp only [markers, List.filterMap_cons, marker_scan_of_quiet _ _ fires]
      split
      · exact ih
      · exact List.Perm.cons _ ih

end PieAgent.Proofs
