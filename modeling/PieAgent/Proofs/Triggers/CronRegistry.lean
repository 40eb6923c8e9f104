import Mathlib.Data.List.Nodup
import PieAgent.Model.Triggers.CronScheduler

/-! # What the operations of the registry change

Tools and commands make one of three edits or none. A scan and a completion keep ids and states of all
jobs. Whatever is saved, the jobs are the old or the new ones, and the file lists what it listed or a prefix
of the new jobs.
-/

namespace PieAgent.Proofs

open JavaScript PieAgent.Model

section Lists

variable {α β : Type} {test : α → Bool} {change : α → α} {items : List α}

theorem updateFirst_cons (head : α) (items : List α) : updateFirst test change (head :: items) =
    if test head then change head :: items else head :: updateFirst test change items := rfl

theorem mem_updateFirst {item : α} (member : item ∈ updateFirst test change items) :
    item ∈ items ∨ ∃ old ∈ items, test old = true ∧ item = change old := by
  induction items with
  | nil => exact absurd member List.not_mem_nil
  | cons head items ih =>
    rw [updateFirst_cons] at member
    split at member
    · next hit =>
      rcases List.mem_cons.mp member with rfl | member
      · exact .inr ⟨head, List.mem_cons_self, hit, rfl⟩
      · exact .inl (List.mem_cons_of_mem _ member)
    · rcases List.mem_cons.mp member with rfl | member
      · exact .inl List.mem_cons_self
      · rcases ih member with old | ⟨old, known, hit, same⟩
        · exact .inl (List.mem_cons_of_mem _ old)
        · exact .inr ⟨old, List.mem_cons_of_mem _ known, hit, same⟩

/-- What a change keeps of every element, it keeps of the list. -/
theorem map_updateFirst {view : α → β} (keeps : ∀ item, view (change item) = view item) :
    (updateFirst test change items).map view = items.map view := by
  induction items with
  | nil => rfl
  | cons head items ih =>
    rw [updateFirst_cons]
    split
    · simp [keeps]
    · simp [ih]

/-- A change that keeps or drops a part of an element adds no part. -/
theorem filterMap_updateFirst_sublist {part : α → Option β} (keeps : ∀ item, part (change item) = part item ∨
    part (change item) = none) : ((updateFirst test change items).filterMap part).Sublist (items.filterMap part) := by
  induction items with
  | nil => exact List.Sublist.refl _
  | cons head items ih =>
    rw [updateFirst_cons]
    split
    · rcases keeps head with same | dropped
      · simp [List.filterMap_cons, same]
      · rw [List.filterMap_cons_none dropped, List.filterMap_cons]
        split
        · exact List.Sublist.refl _
        · exact List.sublist_cons_self _ _
    · rw [List.filterMap_cons, List.filterMap_cons]
      split
      · exact ih
      · exact ih.cons_cons _

/-- With distinct keys, only the element with the key is changed. -/
theorem updateFirst_key [DecidableEq β] {key : α → β} {wanted : β} (nodup : (items.map key).Nodup) {item : α}
    (member : item ∈ updateFirst (fun item => key item = wanted) change items) (hit : key item = wanted) :
    ∃ old ∈ items, item = change old := by
  induction items with
  | nil => exact absurd member List.not_mem_nil
  | cons head items ih =>
    rw [List.map_cons, List.nodup_cons] at nodup
    rw [updateFirst_cons] at member
    split at member
    · next first =>
      rcases List.mem_cons.mp member with rfl | member
      · exact ⟨head, List.mem_cons_self, rfl⟩
      · have first : key head = wanted := by simpa using first
        exact absurd (List.mem_map.mpr ⟨item, member, hit.trans first.symm⟩) nodup.1
    · next later =>
      rcases List.mem_cons.mp member with rfl | member
      · exact absurd hit (by simpa using later)
      · obtain ⟨old, known, same⟩ := ih nodup.2 member
        exact ⟨old, List.mem_cons_of_mem _ known, same⟩

/-- With distinct keys, no element with the key is left once the first one is erased. -/
theorem key_ne_of_mem_eraseP [DecidableEq β] {key : α → β} {wanted : β} (nodup : (items.map key).Nodup) {item : α}
    (member : item ∈ items.eraseP (fun item => key item = wanted)) : key item ≠ wanted := by
  induction items with
  | nil => exact absurd member List.not_mem_nil
  | cons head items ih =>
    rw [List.map_cons, List.nodup_cons] at nodup
    rw [List.eraseP_cons, Bool.cond_eq_ite] at member
    split at member
    · next first =>
      intro hit
      have first : key head = wanted := by simpa using first
      exact nodup.1 (List.mem_map.mpr ⟨item, member, hit.trans first.symm⟩)
    · next later =>
      rcases List.mem_cons.mp member with rfl | member
      · simpa using later
      · exact ih nodup.2 member

end Lists

abbrev jobIds (jobs : List CronJob) : List JsString := jobs.map (·.id)

/-- The traces of the jobs that are marked as running. -/
abbrev markers (jobs : List CronJob) : List JsString := jobs.filterMap (·.runningTraceId)

/-- What saving new jobs makes of a registry, whether the file is written or not. -/
structure Saved (registry : CronRegistry) (next : List CronJob) (final : CronRegistry) : Prop where
  storagePath : final.storagePath = registry.storagePath
  jobs : final.jobs = registry.jobs ∨ final.jobs = next
  listed : final.sidecar.listed = registry.sidecar.listed ∨
    registry.storagePath ≠ none ∧ final.sidecar.listed <+: next

theorem listed_write (sidecar : Sidecar) (jobs : List CronJob) (outcome : WriteOutcome) :
    (sidecar.write jobs outcome).1.listed = sidecar.listed ∨ (sidecar.write jobs outcome).1.listed <+: jobs := by
  rcases outcome with _ | ⟨error, _ | count | reason⟩
  · exact .inr (List.prefix_refl _)
  · exact .inl rfl
  · exact .inr (List.take_prefix _ _)
  · exact .inr (List.nil_prefix)

/-- A write without an error leaves exactly the jobs. -/
theorem listed_of_written {sidecar : Sidecar} {jobs : List CronJob} {outcome : WriteOutcome}
    (written : (sidecar.write jobs outcome).2 = none) : (sidecar.write jobs outcome).1.listed = jobs := by
  rcases outcome with _ | ⟨error, _ | count | reason⟩
  · rfl
  all_goals cases written

variable {registry : CronRegistry} {next : List CronJob} {outcome : WriteOutcome}

theorem saved_refl (registry : CronRegistry) (next : List CronJob) : Saved registry next registry :=
  ⟨rfl, .inl rfl, .inl rfl⟩

theorem saved_replace (registry : CronRegistry) (next : List CronJob) (outcome : WriteOutcome) :
    Saved registry next (registry.replace next outcome).1 := by
  unfold CronRegistry.replace
  split
  · exact ⟨rfl, .inr rfl, .inl rfl⟩
  · next stored =>
    have listed := listed_write registry.sidecar next outcome
    split
    · next sidecar same =>
      rw [same] at listed
      exact ⟨rfl, .inr rfl, listed.imp_right fun listed => ⟨stored, listed⟩⟩
    · next sidecar error same =>
      rw [same] at listed
      exact ⟨rfl, .inl rfl, listed.imp_right fun listed => ⟨stored, listed⟩⟩

theorem saved_replaceAnyway (registry : CronRegistry) (next : List CronJob) (outcome : WriteOutcome) :
    Saved registry next (registry.replaceAnyway next outcome) := by
  unfold CronRegistry.replaceAnyway
  split
  · exact ⟨rfl, .inr rfl, .inl rfl⟩
  · next stored =>
    exact ⟨rfl, .inr rfl, (listed_write registry.sidecar next outcome).imp_right fun listed => ⟨stored, listed⟩⟩

@[simp] theorem jobs_replaceAnyway (registry : CronRegistry) (next : List CronJob) (outcome : WriteOutcome) :
    (registry.replaceAnyway next outcome).jobs = next := by
  unfold CronRegistry.replaceAnyway
  split <;> rfl

/-- A replacement without an error takes effect in the registry and, if there is one, in the file. -/
theorem replace_of_saved (saved : (registry.replace next outcome).2 = none) :
    (registry.replace next outcome).1.jobs = next ∧
      (registry.storagePath ≠ none → (registry.replace next outcome).1.sidecar.listed = next) := by
  unfold CronRegistry.replace at saved ⊢
  split
  · next unstored => exact ⟨rfl, fun stored => absurd unstored stored⟩
  · next stored =>
    rw [if_neg stored] at saved
    have listed := @listed_of_written registry.sidecar next outcome
    split
    · next sidecar same =>
      rw [same] at listed
      exact ⟨rfl, fun _ => listed rfl⟩
    · next sidecar error same =>
      rw [same] at saved
      cases saved

/-- An edit of the jobs that a tool or a command asks for. -/
inductive CronEdit where
  | add (job : CronJob)
  | remove (id : JsString)
  | setEnabled (id : JsString) (enabled : Bool)

namespace CronEdit

def apply (jobs : List CronJob) : CronEdit → List CronJob
  | add job => jobs ++ [job]
  | remove id => jobs.eraseP (·.id = id)
  | setEnabled id enabled => updateFirst (·.id = id) (·.setEnabled enabled) jobs

/-- The job that an edit is about is there. -/
def Finds (jobs : List CronJob) : CronEdit → Prop
  | add _ => True
  | remove id | setEnabled id _ => ∃ job ∈ jobs, job.id = id

end CronEdit

/-- An operation made an edit; it answers with a job only if the edit was saved. -/
structure Performs {ε α : Type} (registry : CronRegistry) (edit : CronEdit) (outcome : WriteOutcome)
    (result : CronRegistry × Except ε α) : Prop where
  finds : edit.Finds registry.jobs
  replaced : result.1 = (registry.replace (edit.apply registry.jobs) outcome).1
  saved : ∀ answer, result.2 = .ok answer → (registry.replace (edit.apply registry.jobs) outcome).2 = none

/-- An operation changed nothing and answered with no job. -/
def Refused {ε α : Type} (registry : CronRegistry) (result : CronRegistry × Except ε α) : Prop :=
  result.1 = registry ∧ ∀ answer, result.2 ≠ .ok answer

theorem performs_change (edit : CronEdit) (job : CronJob) (outcome : WriteOutcome)
    (finds : edit.Finds registry.jobs) :
    Performs registry edit outcome (registry.change (edit.apply registry.jobs) job outcome) := by
  refine ⟨finds, ?_, fun answer answered => ?_⟩
  · unfold CronRegistry.change
    split <;> simp_all
  · unfold CronRegistry.change at answered
    split at answered
    · next same => simp [same]
    · cases answered

theorem setJobEnabled_cases (registry : CronRegistry) (id : JsString) (enabled : Bool) (outcome : WriteOutcome) :
    registry.setJobEnabled id enabled outcome = (registry, .ok none) ∨
      Performs registry (.setEnabled (trim id) enabled) outcome (registry.setJobEnabled id enabled outcome) := by
  unfold CronRegistry.setJobEnabled
  split
  · exact .inl rfl
  · next current found =>
    exact .inr (performs_change (.setEnabled (trim id) enabled) _ outcome
      ⟨current, List.mem_of_find?_eq_some found, by simpa using List.find?_some found⟩)

theorem removeJob_cases (registry : CronRegistry) (id : JsString) (outcome : WriteOutcome) :
    registry.removeJob id outcome = (registry, .ok none) ∨
      Performs registry (.remove (trim id)) outcome (registry.removeJob id outcome) := by
  unfold CronRegistry.removeJob
  split
  · exact .inl rfl
  · next removed found =>
    exact .inr (performs_change (.remove (trim id)) _ outcome
      ⟨removed, List.mem_of_find?_eq_some found, by simpa using List.find?_some found⟩)

theorem performs_insertJob (registry : CronRegistry) (job : CronJob) (outcome : WriteOutcome) :
    Performs registry (.add job) outcome (registry.insertJob job outcome) := by
  refine ⟨trivial, ?_, fun answer answered => ?_⟩
  · unfold CronRegistry.insertJob
    split <;> simp_all [CronEdit.apply]
  · unfold CronRegistry.insertJob at answered
    split at answered
    · next same => simp [CronEdit.apply, same]
    · cases answered

theorem refused_error {ε α : Type} {registry : CronRegistry} (error : ε) :
    Refused registry (registry, (.error error : Except ε α)) :=
  ⟨rfl, fun _ answered => by cases answered⟩

theorem addJobFull_cases (registry : CronRegistry) (schedule action : JsString) (stateful enabled : Bool)
    (uuid : JsString) (createdAt : ℤ) (outcome : WriteOutcome) :
    Refused registry (registry.addJobFull schedule action stateful enabled uuid createdAt outcome) ∨
      ∃ job : CronJob, job.id = js "cron-" ++ uuid ∧ job.enabled = enabled ∧ job.runningTraceId = none ∧
        Performs registry (.add job) outcome
          (registry.addJobFull schedule action stateful enabled uuid createdAt outcome) := by
  unfold CronRegistry.addJobFull
  split
  · exact .inl (refused_error _)
  split
  · exact .inl (refused_error _)
  split
  · exact .inl (refused_error _)
  · refine .inr ⟨_, ?_, ?_, ?_, performs_insertJob registry _ outcome⟩ <;> rfl

/-- Only an operation that found its job and saved it answers with a job. -/
theorem performs_requireJob {edit : CronEdit} {result : CronRegistry × Except JsString (Option CronJob)}
    {id : JsString} (performs : Performs registry edit outcome result) :
    Performs registry edit outcome (result.1, requireJob id result.2) := by
  refine ⟨performs.finds, performs.replaced, fun answer answered => ?_⟩
  rcases same : result.2 with error | found
  · rw [same] at answered
    cases answered
  · exact performs.saved found same

private theorem refused_requireJob (registry : CronRegistry) (id : JsString) :
    Refused registry (registry, requireJob id (.ok none)) :=
  refused_error _

theorem performs_mapError {ε δ : Type} {edit : CronEdit} {result : CronRegistry × Except ε CronJob}
    (message : ε → δ) (performs : Performs registry edit outcome result) :
    Performs registry edit outcome (result.1, result.2.mapError message) := by
  refine ⟨performs.finds, performs.replaced, fun answer answered => ?_⟩
  rcases same : result.2 with error | job
  · rw [same] at answered
    cases answered
  · exact performs.saved job same

private theorem refused_mapError {ε δ : Type} {result : CronRegistry × Except ε CronJob} (message : ε → δ)
    (refused : Refused registry result) : Refused registry (result.1, result.2.mapError message) := by
  refine ⟨refused.1, fun answer answered => ?_⟩
  rcases same : result.2 with error | job
  · rw [same] at answered
    cases answered
  · exact refused.2 job same

private theorem bind_eq_ok {α β : Type} {action : Except JsString α} {next : α → Except JsString β} {value : β} :
    (action >>= next) = .ok value ↔ ∃ item, action = .ok item ∧ next item = .ok value := by
  cases action with
  | error error => exact ⟨nofun, nofun⟩
  | ok item => exact ⟨fun same => ⟨item, rfl, same⟩, fun ⟨_, same, rest⟩ => by cases same; exact rest⟩

variable (registry) (params : Json) (draw : CronDraw)

/-- A job that a tool creates is disabled. -/
theorem newCronJob_cases : Refused registry (registry.newCronJob params draw) ∨
    ∃ job : CronJob, job.id = js "cron-" ++ draw.uuid ∧ job.enabled = false ∧ job.runningTraceId = none ∧
      Performs registry (.add job) draw.outcome (registry.newCronJob params draw) := by
  unfold CronRegistry.newCronJob CronRegistry.attempt
  split
  · next arguments _ =>
    obtain ⟨schedule, action⟩ := arguments
    rcases addJobFull_cases registry schedule action ((boolArg? params "stateful").getD false) false draw.uuid
      draw.createdAt draw.outcome with refused | ⟨job, id, enabled, marker, performs⟩
    · exact .inl (refused_mapError _ refused)
    · exact .inr ⟨job, id, enabled, marker, performs_mapError _ performs⟩
  · exact .inl (refused_error _)

theorem setCronJobState_cases : Refused registry (registry.setCronJobState params draw) ∨
    ∃ id, textArg params "id" = .ok id ∧ boolArg? params "enabled" = some false ∧
      Performs registry (.setEnabled (trim id) false) draw.outcome (registry.setCronJobState params draw) := by
  unfold CronRegistry.setCronJobState CronRegistry.attempt
  split
  · next id checked =>
    obtain ⟨given, isText, accepted⟩ := (bind_eq_ok).mp checked
    rcases wanted : boolArg? params "enabled" with _ | _ | _
    · rw [wanted] at accepted
      cases accepted
    · rw [wanted] at accepted
      cases accepted
      rcases setJobEnabled_cases registry id false draw.outcome with missing | performs
      · simp only [missing]
        exact .inl (refused_requireJob registry id)
      · exact .inr ⟨id, isText, rfl, performs_requireJob performs⟩
    · rw [wanted] at accepted
      cases accepted
  · exact .inl (refused_error _)

/-- A removal that is not confirmed changes nothing. -/
theorem removeCronJob_cases : (registry.removeCronJob params draw).1 = registry ∧
      ((∀ job, (registry.removeCronJob params draw).2 ≠ .ok job) ∨ (boolArg? params "confirm").getD false = false) ∨
    ∃ id, textArg params "id" = .ok id ∧ (boolArg? params "confirm").getD false = true ∧
      Performs registry (.remove (trim id)) draw.outcome (registry.removeCronJob params draw) := by
  unfold CronRegistry.removeCronJob CronRegistry.attempt
  split
  · next arguments checked =>
    obtain ⟨id, job⟩ := arguments
    obtain ⟨given, isText, found⟩ := (bind_eq_ok).mp checked
    obtain ⟨_, _, ⟨⟩⟩ := (bind_eq_ok).mp found
    rcases confirmed : (boolArg? params "confirm").getD false with _ | _
    · exact .inl ⟨rfl, .inr rfl⟩
    · rcases removeJob_cases registry id draw.outcome with missing | performs
      · simp only [if_true, missing]
        exact .inl ⟨trivial, .inl (refused_requireJob registry id).2⟩
      · exact .inr ⟨id, isText, rfl, performs_requireJob performs⟩
  · exact .inl ⟨rfl, .inl (refused_error _).2⟩

end PieAgent.Proofs
