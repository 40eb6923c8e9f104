import PieAgent.Proofs.Triggers.CronScheduler

/-! # Who enables a cron job

A job fires only if it is enabled, in the registry or in the file that a restart loads. Tools create jobs
disabled and refuse to enable them. So whenever a job fires, the user has added or enabled it before, and
nobody has disabled or removed it since, whatever tools, scans, writes and restarts do in between.
-/

namespace PieAgent.Soundness

open JavaScript Machine PieAgent.Model PieAgent.Proofs

variable {setting : CronSetting} {config : TriggerRuntimeConfig} {state next : CronState} {event : CronEvent}
  {events : List CronEvent} {id : JsString}

/-- The user adds or enables a job. -/
def UserEnables : CronEvent → JsString → Prop
  | .command (.add ..) draw, id => id = js "cron-" ++ draw.uuid
  | .command (.enable given) _, id => id = trim given
  | _, _ => False

/-- The job that an operation is to disable or remove. -/
def withdrawnId? : CronEvent → Option JsString
  | .command (.disable id) _ | .command (.remove id) _ => some (trim id)
  | .tool .setCronJobState params _ => (textArg params "id").toOption.map trim
  | .tool .removeCronJob params _ =>
    if (boolArg? params "confirm").getD false then (textArg params "id").toOption.map trim else none
  | _ => none

/-- An operation disables or removes a job, and answers so. -/
def Withdraws (id : JsString) (state : CronState) (event : CronEvent) : Prop :=
  withdrawnId? event = some id ∧ ∃ result job, operation? state.registry event = some result ∧ result.2 = .ok job

/-- A job is enabled, in the registry or in the file. -/
def HasEnabled (state : CronState) (id : JsString) : Prop :=
  ∃ job ∈ state.registry.jobs ++ state.registry.sidecar.listed, job.id = id ∧ job.enabled = true

/-- The last enablement of a job in a run was the user's: it took effect, and since then nobody has disabled
or removed the job. -/
def EnabledByUser (setting : CronSetting) (config : TriggerRuntimeConfig) (events : List CronEvent) (id : JsString) :
    Prop :=
  ∃ before event after enabled, events = before ++ event :: after ∧ UserEnables event id ∧
    run? (CronState.machine setting) (.initial config) (before ++ [event]) = some enabled ∧ HasEnabled enabled id ∧
      Meets (CronState.machine setting) (fun state event => ¬ Withdraws id state event) enabled after

/-- A withdrawal finds its job and is saved. -/
private theorem withdraws_cases (withdraws : Withdraws id state event)
    (stepped : state.step? setting event = some next) :
    ∃ (edit : CronEdit) (outcome : WriteOutcome), (edit = .remove id ∨ edit = .setEnabled id false) ∧ edit.Finds state.registry.jobs ∧
      next.registry = (state.registry.replace (edit.apply state.registry.jobs) outcome).1 ∧
        (state.registry.replace (edit.apply state.registry.jobs) outcome).2 = none := by
  obtain ⟨wanted, result, job, isOperation, answered⟩ := withdraws
  have registry : next.registry = result.1 := by
    have draws : ∃ draw, drawOf? event = some draw := by
      cases event <;> first | exact ⟨_, rfl⟩ | cases isOperation
    obtain ⟨draw, draws⟩ := draws
    obtain ⟨_, other, same, rfl⟩ := step_operation stepped draws
    rw [Option.some.inj (same.symm.trans isOperation)]
  have done {edit : CronEdit} {outcome : WriteOutcome} (isEdit : edit = .remove id ∨ edit = .setEnabled id false)
      (performs : Performs state.registry edit outcome result) :
      ∃ (edit : CronEdit) (outcome : WriteOutcome), (edit = .remove id ∨ edit = .setEnabled id false) ∧ edit.Finds state.registry.jobs ∧
        next.registry = (state.registry.replace (edit.apply state.registry.jobs) outcome).1 ∧
          (state.registry.replace (edit.apply state.registry.jobs) outcome).2 = none :=
    ⟨edit, outcome, isEdit, performs.finds, registry.trans performs.replaced, performs.saved job answered⟩
  cases event with
  | tool tool params draw =>
    obtain rfl := Option.some.inj isOperation
    cases tool with
    | newCronJob => cases wanted
    | setCronJobState =>
      rcases setCronJobState_cases state.registry params draw with refused | ⟨given, isText, _, performs⟩
      · exact absurd answered (refused.2 job)
      · rw [withdrawnId?, isText] at wanted
        obtain rfl := Option.some.inj wanted
        exact done (.inr rfl) performs
    | removeCronJob =>
      rcases removeCronJob_cases state.registry params draw with ⟨_, silent | unconfirmed⟩ | ⟨given, isText, confirmed, performs⟩
      · exact absurd answered (silent job)
      · rw [withdrawnId?, unconfirmed] at wanted
        cases wanted
      · rw [withdrawnId?, confirmed, isText] at wanted
        obtain rfl := Option.some.inj wanted
        exact done (.inl rfl) performs
  | command command draw =>
    obtain rfl := Option.some.inj isOperation
    cases command with
    | disable given =>
      obtain rfl := Option.some.inj wanted
      rcases setJobEnabled_cases state.registry given false draw.outcome with missing | performs
      · simp only [CronRegistry.runCommand, missing] at answered
        cases answered
      · exact done (.inr rfl) (performs_requireJob performs)
    | remove given =>
      obtain rfl := Option.some.inj wanted
      rcases removeJob_cases state.registry given draw.outcome with missing | performs
      · simp only [CronRegistry.runCommand, missing] at answered
        cases answered
      · exact done (.inl rfl) (performs_requireJob performs)
    | _ => cases wanted
  | _ => cases wanted

/-- After a withdrawal the job is enabled neither in the registry nor in the file. -/
private theorem not_hasEnabled_of_withdraws (distinct : DistinctIds state.registry) (withdraws : Withdraws id state event)
    (stepped : state.step? setting event = some next) : ¬ HasEnabled next id := by
  obtain ⟨edit, outcome, isEdit, finds, registry, saved⟩ := withdraws_cases withdraws stepped
  obtain ⟨jobs, listed⟩ := replace_of_saved saved
  have edited : ∀ job ∈ edit.apply state.registry.jobs, job.id = id → job.enabled ≠ true := by
    rcases isEdit with rfl | rfl
    · intro job known same
      exact absurd same (key_ne_of_mem_eraseP distinct.jobs known)
    · intro job known same
      obtain ⟨old, _, rfl⟩ := updateFirst_key distinct.jobs known same
      exact Bool.false_ne_true
  have found : id ∈ jobIds state.registry.jobs := by
    rcases isEdit with rfl | rfl
    · obtain ⟨job, known, same⟩ := finds
      exact List.mem_map.mpr ⟨job, known, same⟩
    · obtain ⟨job, known, same⟩ := finds
      exact List.mem_map.mpr ⟨job, known, same⟩
  rintro ⟨job, known, same, enabled⟩
  rw [registry] at known
  rcases List.mem_append.mp known with inRegistry | inFile
  · exact edited job (jobs ▸ inRegistry) same enabled
  · by_cases stored : state.registry.storagePath = none
    · have kept := (saved_replace state.registry (edit.apply state.registry.jobs) outcome).listed.resolve_right
        fun written => written.1 stored
      rw [kept] at inFile
      exact distinct.unstored stored id found (List.mem_map.mpr ⟨job, inFile, same⟩)
    · exact edited job (listed stored ▸ inFile) same enabled

private theorem hasEnabled_of_saved {jobs : List CronJob} (saved : Saved state.registry jobs next.registry)
    (enabled : HasEnabled next id) : HasEnabled state id ∨ ∃ job ∈ jobs, job.id = id ∧ job.enabled = true := by
  obtain ⟨job, known, holds⟩ := enabled
  rcases List.mem_append.mp known with inRegistry | inFile
  · rcases saved.jobs with same | same
    · exact .inl ⟨job, List.mem_append_left _ (same ▸ inRegistry), holds⟩
    · exact .inr ⟨job, same ▸ inRegistry, holds⟩
  · rcases saved.listed with same | ⟨_, listed⟩
    · exact .inl ⟨job, List.mem_append_right _ (same ▸ inFile), holds⟩
    · exact .inr ⟨job, listed.subset inFile, holds⟩

/-- Only the user enables a job by an operation. -/
private theorem hasEnabled_operation {draw : CronDraw} (draws : drawOf? event = some draw)
    (stepped : state.step? setting event = some next) (enabled : HasEnabled next id) :
    HasEnabled state id ∨ UserEnables event id := by
  rcases step_operation_cases stepped draws with rfl | ⟨edit, requests, _, saved, _⟩
  · exact .inl enabled
  · rcases hasEnabled_of_saved saved enabled with before | ⟨job, known, same, isEnabled⟩
    · exact .inl before
    · rcases mem_apply known with old | rfl | ⟨old, isOld, enabling, rfl, rfl⟩
      · exact .inl ⟨job, List.mem_append_left _ old, same, isEnabled⟩
      · refine .inr ?_
        cases event with
        | tool tool =>
          cases tool <;> first | exact requests.elim | skip
          rw [requests.2.1] at isEnabled
          cases isEnabled
        | command command =>
          obtain rfl := Option.some.inj draws
          cases command <;> first | exact requests.elim | exact same ▸ requests.1
        | _ => cases draws
      · cases enabling with
        | false => cases isEnabled
        | true =>
          refine .inr ?_
          cases event with
          | tool tool => cases tool <;> first | exact requests.elim | cases requests.1
          | command command => cases command <;> first | exact requests.elim | exact same ▸ requests.2 | cases requests.1
          | _ => cases draws

/-- Only the user enables a job. -/
private theorem hasEnabled_step (stepped : state.step? setting event = some next) (enabled : HasEnabled next id) :
    HasEnabled state id ∨ UserEnables event id := by
  have unchanged (registry : next.registry = state.registry) : HasEnabled state id := by
    obtain ⟨job, known, holds⟩ := enabled
    exact ⟨job, registry ▸ known, holds⟩
  cases event with
  | tool => exact hasEnabled_operation rfl stepped enabled
  | command => exact hasEnabled_operation rfl stepped enabled
  | tick scan =>
    obtain ⟨since, _, _, registry, _⟩ := step_tick stepped
    have saved : Saved state.registry (scannedJobs setting.zone since scan.now scan.uuids state.registry.jobs)
        next.registry := registry ▸ saved_dueJobs
    rcases hasEnabled_of_saved saved enabled with before | ⟨job, known, same, isEnabled⟩
    · exact .inl before
    · obtain ⟨old, isOld, id, kept, _⟩ := mem_scannedJobs known
      exact .inl ⟨old, List.mem_append_left _ isOld, id ▸ same, kept ▸ isEnabled⟩
  | settle trigger how completedAt outcome =>
    have saved : Saved state.registry (completedJobs trigger.traceId how.error completedAt state.registry.jobs)
        next.registry := (step_settle stepped).2.1 ▸ saved_markCompleted
    rcases hasEnabled_of_saved saved enabled with before | ⟨job, known, same, isEnabled⟩
    · exact .inl before
    · rcases mem_completedJobs known with old | ⟨old, isOld, _, rfl⟩
      · exact .inl ⟨job, List.mem_append_left _ old, same, isEnabled⟩
      · exact .inl ⟨old, List.mem_append_left _ isOld, same, isEnabled⟩
  | dispatch =>
    obtain ⟨_, _, _, registry, _⟩ := step_dispatch stepped
    exact .inl (unchanged registry)
  | pushOther => exact .inl (unchanged (step_pushOther stepped).2.2.2.1)
  | closeSink =>
    obtain rfl := Option.some.inj stepped
    exact .inl enabled
  | stop =>
    obtain rfl := Option.some.inj stepped
    exact .inl enabled
  | restart filePath startedAt config outcome =>
    obtain rfl := Option.some.inj stepped
    obtain ⟨jobs, listed⟩ := restart_cases state filePath startedAt config outcome
    have cleared {job : CronJob} (known : job ∈ state.registry.sidecar.listed.map CronJob.clearStale) (same : job.id = id)
        (isEnabled : job.enabled = true) : HasEnabled state id := by
      obtain ⟨old, isOld, rfl⟩ := List.mem_map.mp known
      exact ⟨old, List.mem_append_right _ isOld, (id_clearStale old).symm.trans same,
        (enabled_clearStale old).symm.trans isEnabled⟩
    obtain ⟨job, known, same, isEnabled⟩ := enabled
    refine .inl ?_
    rcases List.mem_append.mp known with inRegistry | inFile
    · rcases jobs with ⟨empty, _⟩ | ⟨loaded, _⟩
      · rw [empty] at inRegistry
        exact absurd inRegistry List.not_mem_nil
      · exact cleared (loaded ▸ inRegistry) same isEnabled
    · rcases listed with kept | listed
      · exact ⟨job, List.mem_append_right _ (kept ▸ inFile), same, isEnabled⟩
      · exact cleared (listed.subset inFile) same isEnabled

/-- An enablement stands until the job is withdrawn. -/
private theorem enabledByUser_concat (enabled : EnabledByUser setting config events id)
    (run : run? (CronState.machine setting) (.initial config) events = some state) (stays : ¬ Withdraws id state event) :
    EnabledByUser setting config (events ++ [event]) id := by
  obtain ⟨before, enabling, after, middle, rfl, isUser, ran, holds, meets⟩ := enabled
  refine ⟨before, enabling, after ++ [event], middle, by simp, isUser, ran, holds, meets.concat fun final rest => ?_⟩
  have whole : run? (CronState.machine setting) (.initial config) (before ++ enabling :: after) = some final := by
    rw [List.append_cons]
    exact run?_append.mpr ⟨middle, ran, rest⟩
  rw [Option.some.inj (whole.symm.trans run)]
  exact stays

/-- In every state, whatever is enabled was last enabled by the user. -/
private theorem enabledByUser_of_hasEnabled :
    ∀ (events : List CronEvent) (state : CronState),
      run? (CronState.machine setting) (.initial config) events = some state →
      DistinctIds state.registry ∧ ∀ id, HasEnabled state id → EnabledByUser setting config events id := by
  intro events
  induction events using List.reverseRecOn with
  | nil =>
    rintro _ ⟨⟩
    exact ⟨distinctIds_initial config, fun _ ⟨_, known, _⟩ => absurd known List.not_mem_nil⟩
  | append_singleton events event ih =>
    intro state run
    obtain ⟨before, ran, last⟩ := run?_append.mp run
    obtain ⟨_, stepped, ⟨⟩⟩ := run?_cons.mp last
    obtain ⟨distinct, standing⟩ := ih before ran
    refine ⟨distinctIds_step distinct stepped, fun id enabled => ?_⟩
    rcases hasEnabled_step stepped enabled with old | isUser
    · exact enabledByUser_concat (standing id old) ran
        fun withdraws => not_hasEnabled_of_withdraws distinct withdraws stepped enabled
    · exact ⟨events, event, [], state, rfl, isUser, run, enabled, meets_nil⟩

/-- A scan fires a job at its tick. -/
def FiresIn (setting : CronSetting) (config : TriggerRuntimeConfig) (events early : List CronEvent) (firing : CronFiring) :
    Prop :=
  ∃ scan late before after fired, events = early ++ CronEvent.tick scan :: late ∧
    run? (CronState.machine setting) (.initial config) early = some before ∧
      before.step? setting (.tick scan) = some after ∧ after.fired = before.fired ++ fired ∧ firing ∈ fired

/-- A scan fires jobs that are enabled. -/
private theorem hasEnabled_of_fires {scan : CronScan} {firing : CronFiring}
    (stepped : state.step? setting (.tick scan) = some next) (member : firing ∈ next.fired) :
    firing ∈ state.fired ∨ HasEnabled state firing.jobId ∧
      ∃ fired, next.fired = state.fired ++ fired ∧ firing ∈ fired := by
  obtain ⟨since, _, _, _, ⟨_, _, _, fired, _⟩ | ⟨_, fired, _⟩⟩ := step_tick stepped
  · exact .inl (fired ▸ member)
  · rw [fired] at member
    rcases List.mem_append.mp member with old | new
    · exact .inl old
    · refine .inr ⟨?_, _, fired, new⟩
      obtain ⟨due, fires, rfl⟩ := List.mem_map.mp new
      obtain ⟨_, _, job, known, id, firesAt⟩ := mem_firingsOf fires
      exact ⟨job, List.mem_append_left _ known, id.symm, firesAt.1⟩

private theorem firing_enabledByUser :
    ∀ (events : List CronEvent) (state : CronState),
      run? (CronState.machine setting) (.initial config) events = some state → ∀ firing ∈ state.fired,
        ∃ early, FiresIn setting config events early firing ∧ EnabledByUser setting config early firing.jobId := by
  intro events
  induction events using List.reverseRecOn with
  | nil =>
    rintro _ ⟨⟩ firing member
    exact absurd member List.not_mem_nil
  | append_singleton events event ih =>
    intro state run firing member
    obtain ⟨before, ran, last⟩ := run?_append.mp run
    obtain ⟨_, stepped, ⟨⟩⟩ := run?_cons.mp last
    have earlier (old : firing ∈ before.fired) : ∃ early, FiresIn setting config (events ++ [event]) early firing ∧
        EnabledByUser setting config early firing.jobId := by
      obtain ⟨early, ⟨scan, late, middle, after, fired, rfl, fires⟩, enabled⟩ := ih before ran firing old
      exact ⟨early, ⟨scan, late ++ [event], middle, after, fired, by simp, fires⟩, enabled⟩
    rcases fired_step stepped with same | ⟨scan, rfl⟩
    · exact earlier (same ▸ member)
    · rcases hasEnabled_of_fires stepped member with old | ⟨enabled, fired, grows, new⟩
      · exact earlier old
      · exact ⟨events, ⟨scan, [], before, state, fired, rfl, ran, stepped, grows, new⟩,
          (enabledByUser_of_hasEnabled events before ran).2 firing.jobId enabled⟩

/-- Whenever a job fires, the last enablement of the job was the user's, and without one nothing fires. -/
theorem fires_only_if_enabled_by_user (run : run? (CronState.machine setting) (.initial config) events = some state) :
    (∀ firing ∈ state.fired,
        ∃ early, FiresIn setting config events early firing ∧ EnabledByUser setting config early firing.jobId) ∧
      ((∀ event ∈ events, ∀ id, ¬ UserEnables event id) → state.fired = []) := by
  have all := firing_enabledByUser events state run
  refine ⟨all, fun nobody => List.eq_nil_iff_forall_not_mem.mpr fun firing member => ?_⟩
  obtain ⟨early, ⟨_, _, _, _, _, rfl, _⟩, ⟨before, event, after, _, rfl, isUser, _⟩⟩ := all firing member
  exact nobody event (List.mem_append_left _ (List.mem_append_right _ List.mem_cons_self)) _ isUser

section Runs

private def calmPlace : CronSetting := ⟨.utc, fun text => text⟩

private def plainDraw (uuid : String) : CronDraw := ⟨js uuid, 0, .written⟩

/-- A tool creates a job, the user enables it, and it fires. -/
private def userEnables : List CronEvent :=
  [.restart none 0 {} .written,
    .tool .newCronJob (.obj [(js "schedule", .str (js "* * * * *")), (js "action", .str (js "x"))]) (plainDraw "a"),
    .command (.enable (js "cron-a")) (plainDraw "b"), .tick ⟨60000, fun _ => js "c", 60000, .written⟩]

private theorem userEnables_ends : (run? (CronState.machine calmPlace) (.initial {}) userEnables).map (·.fired) =
    some [⟨js "cron-a", 60000, js "cron-c"⟩] := by
  decide

theorem fires_only_if_enabled_by_user_once : ∃ state,
    run? (CronState.machine calmPlace) (.initial {}) userEnables = some state ∧ state.fired ≠ [] ∧
      ∀ firing ∈ state.fired, ∃ early, FiresIn calmPlace {} userEnables early firing ∧
        EnabledByUser calmPlace {} early firing.jobId := by
  obtain ⟨state, run, ends⟩ := Option.map_eq_some_iff.mp userEnables_ends
  refine ⟨state, run, ?_, (fires_only_if_enabled_by_user run).1⟩
  rw [ends]
  exact List.cons_ne_nil _ _

end Runs

end PieAgent.Soundness
