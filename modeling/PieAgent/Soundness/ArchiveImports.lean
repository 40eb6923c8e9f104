import PieAgent.Model.Session.ArchiveImport

/-! # What a failed import or activation leaves behind

An import removes what it has written when a step fails, so nothing new is left on the disk. An activation rewrites the
trigger sidecar before it reads the one of the cron jobs: it keeps both when it fails exactly if no write that fails
damages its file, and the trigger sidecar already held what was written to it when the second half fails.
-/

namespace PieAgent.Soundness.ArchiveImports

open JavaScript Model Model.SessionArchive Model.ArchiveImport

variable {disk disk' : Disk} {path other : Location} {content : Buffer} {outcome : DiskWrite}
  {sidecars : List (Location × Buffer)} {outcomes : ImportOutcomes} {libraries : ArchiveLibraries}
  {imported : ImportRequest} {request : ActivationRequest}

section Statements

/-- Whatever the disk holds afterwards, it has held before. -/
def NothingLeft (before after : Disk) : Prop := ∀ path content, after path = some content → before path = some content

/-- A sidecar of an import in which everything is off. -/
inductive Inactive (libraries : ArchiveLibraries) (sessionPath : Location) : Location → Buffer → Prop
  | triggers (file : TriggerFile) (off : ∀ rule ∈ file.rules, rule.enabled = false) :
      Inactive libraries sessionPath (triggerSidecarPath sessionPath) file.bytes
  | cron (jobs : List CronJobWire) (off : ∀ job ∈ jobs, job.enabled = false) :
      Inactive libraries sessionPath (cronSidecarPath sessionPath) (libraries.stringifyToml jobs)

/-- What an import has put on the disk is the session, or a sidecar in which everything is off. -/
def ImportsInactive (libraries : ArchiveLibraries) (sessionPath : Location) (before after : Disk) : Prop :=
  ∀ path content, after path = some content →
    before path = some content ∨ path = sessionPath ∨ Inactive libraries sessionPath path content

/-- The new rule is the old one, enabled at most if it is asked for. -/
def EnablesRule (ids : List JsString) (old new : DynamicTriggerRule) : Prop :=
  new.id = old.id ∧ (new.enabled = true → old.enabled = true ∨ old.id ∈ ids)

def EnablesJob (ids : List JsString) (old new : CronJobWire) : Prop :=
  new.id = old.id ∧ (new.enabled = true → old.enabled = true ∨ old.id ∈ ids)

/-- An activation changes nothing but the sidecars, where it enables what it is asked for. -/
structure EnablesOnly (libraries : ArchiveLibraries) (request : ActivationRequest) (before after : Disk) : Prop where
  others : ∀ path, path ≠ triggerSidecarPath request.sessionPath → path ≠ cronSidecarPath request.sessionPath →
    after path = before path
  triggers : after (triggerSidecarPath request.sessionPath) = before (triggerSidecarPath request.sessionPath) ∨
    ∃ content, ∃ old new : TriggerFile, before (triggerSidecarPath request.sessionPath) = some content ∧
      parseTriggerSidecarFile content = .ok old ∧ List.Forall₂ (EnablesRule request.triggerIds) old.rules new.rules ∧
      after (triggerSidecarPath request.sessionPath) = some new.bytes
  cron : after (cronSidecarPath request.sessionPath) = before (cronSidecarPath request.sessionPath) ∨
    ∃ content, ∃ old new : List CronJobWire, before (cronSidecarPath request.sessionPath) = some content ∧
      parseCronSidecarFile libraries content = .ok old ∧ List.Forall₂ (EnablesJob request.cronIds) old new ∧
      after (cronSidecarPath request.sessionPath) = some (libraries.stringifyToml new)

/-- Imports and activations are all-or-nothing, and they enable nothing of their own. -/
structure AllOrNothing (libraries : ArchiveLibraries) (outcomes : ImportOutcomes) (imported : ImportRequest)
    (request : ActivationRequest) (before disk : Disk) : Prop where
  importLeaves : ∀ error, (importSession outcomes libraries imported before).2 = .error error →
    NothingLeft before (importSession outcomes libraries imported before).1
  importInactive : imported.activateTriggers ≠ .on →
    ImportsInactive libraries imported.sessionPath before (importSession outcomes libraries imported before).1
  activationKeeps : ∀ error, (activateImported libraries request disk).2 = .error error →
    (activateImported libraries request disk).1 (triggerSidecarPath request.sessionPath) =
        disk (triggerSidecarPath request.sessionPath) ∧
      (activateImported libraries request disk).1 (cronSidecarPath request.sessionPath) =
        disk (cronSidecarPath request.sessionPath)
  activationEnables : ∀ counts, (activateImported libraries request disk).2 = .ok counts →
    EnablesOnly libraries request disk (activateImported libraries request disk).1

/-- What an activation writes to the trigger sidecar, if it comes to that. -/
def writtenTriggers? (request : ActivationRequest) (disk : Disk) : Option Buffer :=
  if request.triggerIds = [] then none
  else (readFile disk (triggerSidecarPath request.sessionPath) request.readsTriggers >>=
    parseTriggerSidecarFile).toOption.map fun file => (file.activate request.triggerIds).bytes

/-- What it writes to the sidecar of the cron jobs, if it comes to that. -/
def writtenCron? (libraries : ArchiveLibraries) (request : ActivationRequest) (disk : Disk) : Option Buffer :=
  if request.cronIds = [] then none
  else (readFile disk (cronSidecarPath request.sessionPath) request.readsCron >>=
    parseCronSidecarFile libraries).toOption.map fun jobs => libraries.stringifyToml (activateJobs jobs request.cronIds)

/-- A write that fails leaves what has been there. -/
def Keeps (outcome : DiskWrite) (held : Option Buffer) : Prop := ∀ left, outcome = .failed left → left = held

/-- The first half of an activation succeeds. -/
def PassesTriggers (request : ActivationRequest) (disk : Disk) : Prop :=
  request.triggerIds = [] ∨ (writtenTriggers? request disk).isSome ∧ request.writesTriggers = .written

def FailsCron (libraries : ArchiveLibraries) (request : ActivationRequest) (disk : Disk) : Prop :=
  request.cronIds ≠ [] ∧ (writtenCron? libraries request disk = none ∨ request.writesCron ≠ .written)

/-- No failure of an activation finds a sidecar changed. -/
structure Undisturbed (libraries : ArchiveLibraries) (request : ActivationRequest) (disk : Disk) : Prop where
  triggers : (writtenTriggers? request disk).isSome →
    Keeps request.writesTriggers (disk (triggerSidecarPath request.sessionPath))
  cron : PassesTriggers request disk → (writtenCron? libraries request disk).isSome →
    Keeps request.writesCron (disk (cronSidecarPath request.sessionPath))
  between : PassesTriggers request disk → FailsCron libraries request disk →
    ∀ content ∈ writtenTriggers? request disk, disk (triggerSidecarPath request.sessionPath) = some content

end Statements

section Writes

private theorem writeFile_other (differ : other ≠ path) : (writeFile disk path content outcome).1 other = disk other := by
  cases outcome <;> exact Function.update_of_ne differ _ _

private theorem writeSidecars_other {outcome : Location → DiskWrite} (outside : other ∉ sidecars.map (·.1)) :
    (writeSidecars outcome disk sidecars).1 other = disk other := by
  induction sidecars generalizing disk with
  | nil => rfl
  | cons sidecar sidecars ih =>
    obtain ⟨path, content⟩ := sidecar
    rw [List.map_cons, List.mem_cons, not_or] at outside
    have same := @writeFile_other disk path other content (outcome path) outside.1
    rw [writeSidecars]
    split
    next disk' written =>
      rw [ih outside.2]
      rwa [written] at same
    next disk' failed => rwa [failed] at same

/-- What is on the disk after the sidecars have been written is one of them, or was there before. -/
private theorem of_writeSidecars {outcome : Location → DiskWrite}
    (written : writeSidecars outcome disk sidecars = (disk', true)) (holds : disk' other = some content) :
    disk other = some content ∨ (other, content) ∈ sidecars := by
  induction sidecars generalizing disk with
  | nil =>
    obtain rfl : disk = disk' := congrArg Prod.fst written
    exact .inl holds
  | cons sidecar sidecars ih =>
    obtain ⟨path, text⟩ := sidecar
    rw [writeSidecars] at written
    split at written
    next middle first =>
      rcases ih written with before | member
      · cases reached : outcome path with
        | written =>
          rw [reached] at first
          obtain rfl : Function.update disk path (some text) = middle := congrArg Prod.fst first
          by_cases same : other = path
          · rw [same, Function.update_self] at before
            cases before
            exact .inr (same ▸ List.mem_cons_self)
          · rw [Function.update_of_ne same] at before
            exact .inl before
        | failed left =>
          rw [reached] at first
          cases congrArg Prod.snd first
      · exact .inr (List.mem_cons_of_mem _ member)
    · cases congrArg Prod.snd written

private theorem foldl_unlink (other : Location) :
    (sidecars.foldl (fun disk sidecar => unlink disk sidecar.1) disk) other =
      if other ∈ sidecars.map (·.1) then none else disk other := by
  induction sidecars generalizing disk with
  | nil => rfl
  | cons sidecar sidecars ih =>
    rw [List.foldl_cons, ih, List.map_cons, unlink]
    by_cases later : other ∈ sidecars.map (·.1)
    · rw [if_pos later, if_pos (List.mem_cons_of_mem _ later)]
    · rw [if_neg later]
      by_cases same : other = sidecar.1
      · rw [if_pos (same ▸ List.mem_cons_self), same, Function.update_self]
      · rw [if_neg (by simp [same, later]), Function.update_of_ne same]

end Writes

section Import

variable {sessionPath tempPath : Location} {error : ArchiveError}

/-- A failed attempt has changed nothing but the files that are removed then. -/
private theorem stageImport_other
    (failed : (stageImport outcomes disk sessionPath tempPath content sidecars).2 = .error error)
    (differ : other ≠ tempPath) (outside : other ∉ sidecars.map (·.1)) :
    (stageImport outcomes disk sessionPath tempPath content sidecars).1 other = disk other := by
  have staged := @writeFile_other disk tempPath other content outcomes.session differ
  revert failed
  rw [stageImport]
  split
  next disk' written =>
    intro _
    rwa [written] at staged
  next disk' written =>
    rw [written] at staged
    split
    · exact fun _ => staged
    · split
      · exact fun _ => staged
      · have wrote := @writeSidecars_other disk' other sidecars outcomes.sidecar outside
        split
        next final failed =>
          rw [failed] at wrote
          exact fun _ => wrote.trans staged
        next final done =>
          rw [done] at wrote
          split
          · nofun
          · exact fun _ => wrote.trans staged

private theorem commitImport_leaves
    (failed : (commitImport outcomes disk sessionPath tempPath content sidecars).2 = .error error) :
    NothingLeft disk (commitImport outcomes disk sessionPath tempPath content sidecars).1 := by
  intro other text
  have kept := fun error failed =>
    @stageImport_other disk other content sidecars outcomes sessionPath tempPath error failed
  revert failed
  rw [commitImport]
  split
  · nofun
  next disk' error' staged =>
    intro _ holds
    dsimp only at holds
    rw [foldl_unlink] at holds
    split at holds
    · cases holds
    next outside =>
      by_cases same : other = tempPath
      · rw [same, unlink, Function.update_self] at holds
        cases holds
      · rw [unlink, Function.update_of_ne same] at holds
        have before := kept error' (by rw [staged]) same outside
        rw [staged] at before
        exact before ▸ holds

/-- What a committed import has put on the disk is the session, or one of the sidecars. -/
private theorem of_commitImport
    (committed : (commitImport outcomes disk sessionPath tempPath content sidecars).2 = .ok ())
    {text : Buffer} (holds : (commitImport outcomes disk sessionPath tempPath content sidecars).1 other = some text) :
    disk other = some text ∨ other = sessionPath ∨ (other, text) ∈ sidecars := by
  revert committed holds
  rw [commitImport]
  split
  swap
  · nofun
  next disk' staged =>
    intro _ holds
    dsimp only at holds
    revert staged
    rw [stageImport]
    split
    · nofun
    next first written =>
      split
      · nofun
      · split
        · nofun
        · split
          · nofun
          next second wrote =>
            split
            swap
            · nofun
            intro staged
            obtain rfl : rename second tempPath sessionPath = disk' := congrArg Prod.fst staged
            by_cases temporary : other = tempPath
            · rw [rename, temporary, Function.update_self] at holds
              cases holds
            rw [rename, Function.update_of_ne temporary] at holds
            by_cases session : other = sessionPath
            · exact .inr (.inl session)
            rw [Function.update_of_ne session] at holds
            rcases of_writeSidecars wrote holds with before | member
            · have same := @writeFile_other disk tempPath other content outcomes.session temporary
              rw [written] at same
              exact .inl (same ▸ before)
            · exact .inr (.inr member)

private theorem of_bind {ε α β : Type} {first : Except ε α} {next : α → Except ε β} {result : β}
    (run : first >>= next = .ok result) : ∃ value, first = .ok value ∧ next value = .ok result := by
  cases first with
  | error error => cases run
  | ok value => exact ⟨value, rfl, run⟩

private theorem of_mapM {ε α β : Type} {value? : Option α} {next : α → Except ε β} {result? : Option β} {result : β}
    (run : value?.mapM next = .ok result?) (some_ : result? = some result) : ∃ value, next value = .ok result := by
  cases value? with
  | none =>
    cases run
    cases some_
  | some value =>
    obtain ⟨image, mapped, same⟩ := of_bind (show next value >>= (fun image => .ok (some image)) = _ from run)
    cases same
    cases some_
    exact ⟨value, mapped⟩

variable {plan : ImportPlan}

private theorem of_planImport (planned : planImport libraries imported = .ok plan) :
    (∀ file, plan.triggers = some file → ∃ bytes, rewriteTriggerSidecar bytes imported.automationEnabled = .ok file) ∧
      ∀ jobs, plan.cron = some jobs →
        ∃ bytes, rewriteCronSidecar libraries bytes imported.automationEnabled = .ok jobs := by
  rw [planImport] at planned
  split at planned
  · cases planned
  obtain ⟨_, _, planned⟩ := of_bind planned
  obtain ⟨_, _, planned⟩ := of_bind planned
  obtain ⟨_, _, planned⟩ := of_bind planned
  obtain ⟨triggers, rewritten, planned⟩ := of_bind planned
  obtain ⟨cron, rewrittenCron, planned⟩ := of_bind planned
  cases planned
  exact ⟨fun file some_ => of_mapM rewritten some_, fun jobs some_ => of_mapM rewrittenCron some_⟩

private theorem off_of_rewriteTriggerSidecar {bytes : Buffer} {file : TriggerFile}
    (rewritten : rewriteTriggerSidecar bytes false = .ok file) : ∀ rule ∈ file.rules, rule.enabled = false := by
  obtain ⟨parsed, _, same⟩ := of_bind rewritten
  cases same
  intro rule member
  obtain ⟨old, _, rfl⟩ := List.mem_map.mp member
  exact Bool.and_false _

private theorem off_of_rewriteCronSidecar {bytes : Buffer} {jobs : List CronJobWire}
    (rewritten : rewriteCronSidecar libraries bytes false = .ok jobs) : ∀ job ∈ jobs, job.enabled = false := by
  obtain ⟨parsed, _, same⟩ := of_bind rewritten
  cases same
  intro job member
  obtain ⟨old, _, rfl⟩ := List.mem_map.mp member
  exact Bool.and_false _

/-- A failed import leaves nothing behind. -/
private theorem importSession_leaves (failed : (importSession outcomes libraries imported disk).2 = .error error) :
    NothingLeft disk (importSession outcomes libraries imported disk).1 := by
  revert failed
  rw [importSession]
  split
  · exact fun _ path content holds => holds
  next plan planned =>
    split
    · exact fun _ path content holds => holds
    · split
      · exact fun _ path content holds => holds
      · split
        · exact fun _ path content holds => holds
        next rewritten _ =>
          have leaves := fun error => @commitImport_leaves disk rewritten (plan.sidecars libraries imported) outcomes
            imported.sessionPath imported.tempPath error
          split
          next disk' error' committed =>
            intro _
            have left := leaves error' (by rw [committed])
            rwa [committed] at left
          · nofun

/-- Without activation an import puts nothing on the disk that is enabled. -/
private theorem importSession_inactive (off : imported.activateTriggers ≠ .on) :
    ImportsInactive libraries imported.sessionPath disk (importSession outcomes libraries imported disk).1 := by
  have disabled : imported.automationEnabled = false := decide_eq_false off
  intro path content
  cases result : (importSession outcomes libraries imported disk).2 with
  | error error => exact fun holds => .inl (importSession_leaves result path content holds)
  | ok summary =>
    revert result
    rw [importSession]
    split
    · nofun
    next plan planned =>
      obtain ⟨triggersOff, cronOff⟩ := of_planImport planned
      rw [disabled] at triggersOff cronOff
      split
      · nofun
      · split
        · nofun
        · split
          · nofun
          next rewritten _ =>
            have put := @of_commitImport disk path rewritten (plan.sidecars libraries imported) outcomes
              imported.sessionPath imported.tempPath
            split
            · nofun
            next disk' committed =>
              intro _ holds
              rw [committed] at put
              rcases put rfl holds with before | session | member
              · exact .inl before
              · exact .inr (.inl session)
              · refine .inr (.inr ?_)
                rw [ImportPlan.sidecars] at member
                rcases List.mem_append.mp member with member | member
                · obtain ⟨file, some_, same⟩ := Option.map_eq_some_iff.mp (Option.mem_toList.mp member)
                  cases same
                  obtain ⟨bytes, rewritten⟩ := triggersOff file some_
                  exact .triggers file (off_of_rewriteTriggerSidecar rewritten)
                · obtain ⟨jobs, some_, same⟩ := Option.map_eq_some_iff.mp (Option.mem_toList.mp member)
                  cases same
                  obtain ⟨bytes, rewritten⟩ := cronOff jobs some_
                  exact .cron jobs (off_of_rewriteCronSidecar rewritten)

end Import

section Activation

/-- How a half of an activation ends. -/
inductive Half (path : Location) (skips : Prop) (written? : Option Buffer) (write : DiskWrite) (disk : Disk) :
    Disk × Except ArchiveError ℕ → Prop
  | skipped (skip : skips) (none_ : written? = none) : Half path skips written? write disk (disk, .ok 0)
  | refused (error : ArchiveError) (run : ¬skips) (none_ : written? = none) :
      Half path skips written? write disk (disk, .error error)
  | wrote (content : Buffer) (count : ℕ) (run : ¬skips) (some_ : written? = some content) (wrote : write = .written) :
      Half path skips written? write disk (Function.update disk path (some content), .ok count)
  | failed (content : Buffer) (left : Option Buffer) (run : ¬skips) (some_ : written? = some content)
      (failed : write = .failed left) : Half path skips written? write disk (Function.update disk path left, .error .file)

private theorem half_activateTriggers (request : ActivationRequest) (disk : Disk) :
    Half (triggerSidecarPath request.sessionPath) (request.triggerIds = []) (writtenTriggers? request disk)
      request.writesTriggers disk (activateTriggers request disk) := by
  rw [activateTriggers, writtenTriggers?]
  by_cases skip : request.triggerIds = []
  · rw [if_pos skip, if_pos skip]
    exact .skipped skip rfl
  · rw [if_neg skip, if_neg skip]
    dsimp only
    cases readFile disk (triggerSidecarPath request.sessionPath) request.readsTriggers >>= parseTriggerSidecarFile with
    | error error => exact .refused error skip rfl
    | ok file =>
      cases write : request.writesTriggers with
      | written => exact .wrote _ _ skip rfl rfl
      | failed left => exact .failed _ left skip rfl rfl

private theorem half_activateCron (libraries : ArchiveLibraries) (request : ActivationRequest) (disk : Disk) :
    Half (cronSidecarPath request.sessionPath) (request.cronIds = []) (writtenCron? libraries request disk)
      request.writesCron disk (activateCron libraries request disk) := by
  rw [activateCron, writtenCron?]
  by_cases skip : request.cronIds = []
  · rw [if_pos skip, if_pos skip]
    exact .skipped skip rfl
  · rw [if_neg skip, if_neg skip]
    dsimp only
    cases readFile disk (cronSidecarPath request.sessionPath) request.readsCron >>= parseCronSidecarFile libraries with
    | error error => exact .refused error skip rfl
    | ok jobs =>
      cases write : request.writesCron with
      | written => exact .wrote _ _ skip rfl rfl
      | failed left => exact .failed _ left skip rfl rfl

private theorem sidecars_differ (sessionPath : Location) :
    cronSidecarPath sessionPath ≠ triggerSidecarPath sessionPath := by
  intro same
  have lengths := congrArg (fun location => location.fileName.length) same
  have triggers : (js "triggers.json").length = 13 := by decide
  have cron : (js "cron.toml").length = 9 := by decide
  simp only [cronSidecarPath, triggerSidecarPath, withSidecarExtension, List.length_append, triggers, cron] at lengths
  omega

/-- The second half reads nothing that the first half writes. -/
private theorem writtenCron?_congr
    (same : disk' (cronSidecarPath request.sessionPath) = disk (cronSidecarPath request.sessionPath)) :
    writtenCron? libraries request disk' = writtenCron? libraries request disk := by
  rw [writtenCron?, writtenCron?, readFile, readFile, same]

/-- The sidecars as the disk has them. -/
def Kept (request : ActivationRequest) (before after : Disk) : Prop :=
  after (triggerSidecarPath request.sessionPath) = before (triggerSidecarPath request.sessionPath) ∧
    after (cronSidecarPath request.sessionPath) = before (cronSidecarPath request.sessionPath)

private theorem kept_update_triggers {held : Option Buffer} :
    Kept request disk (Function.update disk (triggerSidecarPath request.sessionPath) held) ↔
      held = disk (triggerSidecarPath request.sessionPath) := by
  rw [Kept, Function.update_self, Function.update_of_ne (sidecars_differ _)]
  exact and_iff_left rfl

private theorem kept_update_cron {middle : Disk} {held : Option Buffer} :
    Kept request disk (Function.update middle (cronSidecarPath request.sessionPath) held) ↔
      middle (triggerSidecarPath request.sessionPath) = disk (triggerSidecarPath request.sessionPath) ∧
        held = disk (cronSidecarPath request.sessionPath) := by
  rw [Kept, Function.update_self, Function.update_of_ne (sidecars_differ _).symm]

/-- `activateImported` once its first half has succeeded. -/
private def finish (libraries : ArchiveLibraries) (request : ActivationRequest) (middle : Disk) (count : ℕ) :
    Disk × Except ArchiveError (ℕ × ℕ) :=
  match activateCron libraries request middle with
  | (disk, .error error) => (disk, .error error)
  | (disk, .ok cronEnabled) => (disk, .ok (count, cronEnabled))

private theorem finish_keeps_iff {middle : Disk} (count : ℕ) (passes : PassesTriggers request disk)
    (unwritten : (writtenTriggers? request disk).isSome →
      Keeps request.writesTriggers (disk (triggerSidecarPath request.sessionPath)))
    (cronSame : middle (cronSidecarPath request.sessionPath) = disk (cronSidecarPath request.sessionPath))
    (held : middle (triggerSidecarPath request.sessionPath) = disk (triggerSidecarPath request.sessionPath) ↔
      ∀ content ∈ writtenTriggers? request disk, disk (triggerSidecarPath request.sessionPath) = some content) :
    (∀ error, (finish libraries request middle count).2 = .error error →
      Kept request disk (finish libraries request middle count).1) ↔ Undisturbed libraries request disk := by
  have second := half_activateCron libraries request middle
  rw [writtenCron?_congr cronSame] at second
  rw [finish]
  generalize activateCron libraries request middle = result at second ⊢
  cases second with
  | skipped skip none_ =>
    refine ⟨fun _ => ⟨unwritten, fun _ some_ => ?_, fun _ fails => absurd skip fails.1⟩, fun _ => nofun⟩
    rw [none_] at some_
    cases some_
  | refused error run none_ =>
    refine ⟨fun keeps => ⟨unwritten, fun _ some_ => ?_, fun _ _ => held.mp (keeps error rfl).1⟩, fun calm _ _ => ?_⟩
    · rw [none_] at some_
      cases some_
    · exact ⟨held.mpr (calm.between passes ⟨run, .inl none_⟩), cronSame⟩
  | wrote content cronEnabled run some_ wrote =>
    refine ⟨fun _ => ⟨unwritten, fun _ _ left failed => ?_, fun _ fails => ?_⟩, fun _ => nofun⟩
    · cases wrote.symm.trans failed
    · rcases fails.2 with none_ | unwritten'
      · cases some_.symm.trans none_
      · exact absurd wrote unwritten'
  | failed content left run some_ failed =>
    have fails : FailsCron libraries request disk := ⟨run, .inr (by rw [failed]; nofun)⟩
    refine ⟨fun keeps => ?_, fun calm _ _ => ?_⟩
    · obtain ⟨same, leaves⟩ := (kept_update_cron).mp (keeps .file rfl)
      refine ⟨unwritten, fun _ _ other again => ?_, fun _ _ => held.mp same⟩
      cases failed.symm.trans again
      exact leaves
    · refine (kept_update_cron).mpr ⟨held.mpr (calm.between passes fails), ?_⟩
      exact calm.cron passes (Option.isSome_of_eq_some some_) left failed

/-- An activation that fails keeps both sidecars exactly if none of its failures finds one changed. -/
private theorem activationKeeps_iff :
    (∀ error, (activateImported libraries request disk).2 = .error error →
      Kept request disk (activateImported libraries request disk).1) ↔ Undisturbed libraries request disk := by
  have first := half_activateTriggers request disk
  rw [activateImported]
  generalize activateTriggers request disk = result at first ⊢
  cases first with
  | skipped skip none_ =>
    refine finish_keeps_iff 0 (.inl skip) (fun some_ => ?_) rfl (iff_of_true rfl ?_)
    · rw [none_] at some_
      cases some_
    · rw [none_]
      nofun
  | refused error run none_ =>
    have stops : ¬PassesTriggers request disk := by
      rintro (skip | ⟨some_, _⟩)
      · exact run skip
      · rw [none_] at some_
        cases some_
    refine ⟨fun _ => ⟨fun some_ => ?_, fun passes => absurd passes stops, fun passes => absurd passes stops⟩,
      fun _ _ _ => ⟨rfl, rfl⟩⟩
    rw [none_] at some_
    cases some_
  | wrote content count run some_ wrote =>
    refine finish_keeps_iff count (.inr ⟨Option.isSome_of_eq_some some_, wrote⟩) (fun _ left failed => ?_)
      (Function.update_of_ne (sidecars_differ _) _ _) ?_
    · cases wrote.symm.trans failed
    · rw [Function.update_self, some_]
      exact ⟨fun same _ held => (Option.mem_some.mp held) ▸ same.symm, fun holds => (holds content rfl).symm⟩
  | failed content left run some_ failed =>
    have stops : ¬PassesTriggers request disk := by
      rintro (skip | ⟨_, wrote⟩)
      · exact run skip
      · cases failed.symm.trans wrote
    refine ⟨fun keeps => ⟨fun _ other again => ?_, fun passes => absurd passes stops, fun passes => absurd passes stops⟩,
      fun calm _ _ => (kept_update_triggers).mpr (calm.triggers (Option.isSome_of_eq_some some_) left failed)⟩
    cases failed.symm.trans again
    exact (kept_update_triggers).mp (keeps .file rfl)

private theorem of_readFile {reads : Bool} (read : readFile disk path reads = .ok content) :
    disk path = some content := by
  rw [readFile] at read
  split at read
  · cases held : disk path with
    | none =>
      rw [held] at read
      cases read
    | some bytes =>
      rw [held] at read
      exact congrArg some (Except.ok.inj read)
  · cases read

private theorem of_writtenTriggers? (written : writtenTriggers? request disk = some content) :
    ∃ held file, disk (triggerSidecarPath request.sessionPath) = some held ∧ parseTriggerSidecarFile held = .ok file ∧
      content = (file.activate request.triggerIds).bytes := by
  rw [writtenTriggers?] at written
  split at written
  · cases written
  obtain ⟨file, parsed, rfl⟩ := Option.map_eq_some_iff.mp written
  cases read : readFile disk (triggerSidecarPath request.sessionPath) request.readsTriggers >>=
      parseTriggerSidecarFile with
  | error error =>
    rw [read] at parsed
    cases parsed
  | ok other =>
    rw [read] at parsed
    obtain ⟨held, reads, parses⟩ := of_bind read
    cases parsed
    exact ⟨held, file, of_readFile reads, parses, rfl⟩

private theorem of_writtenCron? (written : writtenCron? libraries request disk = some content) :
    ∃ held jobs, disk (cronSidecarPath request.sessionPath) = some held ∧ parseCronSidecarFile libraries held = .ok jobs ∧
      content = libraries.stringifyToml (activateJobs jobs request.cronIds) := by
  rw [writtenCron?] at written
  split at written
  · cases written
  obtain ⟨jobs, parsed, rfl⟩ := Option.map_eq_some_iff.mp written
  cases read : readFile disk (cronSidecarPath request.sessionPath) request.readsCron >>=
      parseCronSidecarFile libraries with
  | error error =>
    rw [read] at parsed
    cases parsed
  | ok other =>
    rw [read] at parsed
    obtain ⟨held, reads, parses⟩ := of_bind read
    cases parsed
    exact ⟨held, jobs, of_readFile reads, parses, rfl⟩

private theorem enablesRule_activate (file : TriggerFile) (ids : List JsString) :
    List.Forall₂ (EnablesRule ids) file.rules (file.activate ids).rules := by
  refine List.forall₂_map_right_iff.mpr (List.forall₂_same.mpr fun rule _ => ?_)
  by_cases asked : rule.id ∈ ids
  · rw [if_pos asked]
    exact ⟨rfl, fun _ => .inr asked⟩
  · rw [if_neg asked]
    exact ⟨rfl, .inl⟩

private theorem enablesJob_activate (jobs : List CronJobWire) (ids : List JsString) :
    List.Forall₂ (EnablesJob ids) jobs (activateJobs jobs ids) := by
  refine List.forall₂_map_right_iff.mpr (List.forall₂_same.mpr fun job _ => ?_)
  by_cases asked : job.id ∈ ids
  · rw [if_pos asked]
    exact ⟨rfl, fun _ => .inr asked⟩
  · rw [if_neg asked]
    exact ⟨rfl, .inl⟩

/-- The first half changes the trigger sidecar at most, as it is asked to. -/
private theorem enables_first {middle : Disk} {count : ℕ} (first : activateTriggers request disk = (middle, .ok count)) :
    (∀ path, path ≠ triggerSidecarPath request.sessionPath → middle path = disk path) ∧
      (middle (triggerSidecarPath request.sessionPath) = disk (triggerSidecarPath request.sessionPath) ∨
        ∃ content, ∃ old new : TriggerFile, disk (triggerSidecarPath request.sessionPath) = some content ∧
          parseTriggerSidecarFile content = .ok old ∧ List.Forall₂ (EnablesRule request.triggerIds) old.rules new.rules ∧
          middle (triggerSidecarPath request.sessionPath) = some new.bytes) := by
  have half := half_activateTriggers request disk
  rw [first] at half
  cases half with
  | skipped => exact ⟨fun _ _ => rfl, .inl rfl⟩
  | wrote content _ _ some_ _ =>
    obtain ⟨held, file, holds, parses, rfl⟩ := of_writtenTriggers? some_
    exact ⟨fun path differ => Function.update_of_ne differ _ _, .inr ⟨held, file, file.activate request.triggerIds,
      holds, parses, enablesRule_activate file _, Function.update_self ..⟩⟩

private theorem enables_second {middle final : Disk} {count : ℕ}
    (second : activateCron libraries request middle = (final, .ok count)) :
    (∀ path, path ≠ cronSidecarPath request.sessionPath → final path = middle path) ∧
      (final (cronSidecarPath request.sessionPath) = middle (cronSidecarPath request.sessionPath) ∨
        ∃ content, ∃ old new : List CronJobWire, middle (cronSidecarPath request.sessionPath) = some content ∧
          parseCronSidecarFile libraries content = .ok old ∧ List.Forall₂ (EnablesJob request.cronIds) old new ∧
          final (cronSidecarPath request.sessionPath) = some (libraries.stringifyToml new)) := by
  have half := half_activateCron libraries request middle
  rw [second] at half
  cases half with
  | skipped => exact ⟨fun _ _ => rfl, .inl rfl⟩
  | wrote content _ _ some_ _ =>
    obtain ⟨held, jobs, holds, parses, rfl⟩ := of_writtenCron? some_
    exact ⟨fun path differ => Function.update_of_ne differ _ _, .inr ⟨held, jobs, activateJobs jobs request.cronIds,
      holds, parses, enablesJob_activate jobs _, Function.update_self ..⟩⟩

/-- An activation that succeeds enables what it is asked for. -/
private theorem activationEnables {counts : ℕ × ℕ} (done : (activateImported libraries request disk).2 = .ok counts) :
    EnablesOnly libraries request disk (activateImported libraries request disk).1 := by
  revert done
  rw [activateImported]
  split
  · nofun
  next middle count first =>
    split
    · nofun
    next final cronEnabled second =>
      intro _
      obtain ⟨others, triggers⟩ := enables_first first
      obtain ⟨others', cron⟩ := enables_second second
      have differ := sidecars_differ request.sessionPath
      refine ⟨fun path one two => (others' path two).trans (others path one), ?_, ?_⟩
      · dsimp only
        rwa [others' _ differ.symm]
      · rwa [others _ differ] at cron

end Activation

section Example

private def sampleSession : Location := ⟨js "/s", js "a.jsonl"⟩

/-- A disk with one rule that is off, and no sidecar for cron jobs. -/
private def sampleDisk : Disk := fun path =>
  if path = triggerSidecarPath sampleSession then
    some (encodeUtf8 ("\x7b\"version\":1,\"rules\":[\x7b\"id\":\"r\",\"condition\":\"\",\"action\":\"\",".toList ++
      "\"enabled\":false,\"created_at\":\"\"\x7d]\x7d".toList))
  else none

private def sampleActivation : ActivationRequest where
  sessionPath := sampleSession
  triggerIds := [js "r"]
  cronIds := [js "c"]
  readsTriggers := true
  writesTriggers := .written
  readsCron := true
  writesCron := .written

private def noLibraries : ArchiveLibraries where
  parseToml _ := none
  stringifyToml _ := []
  sha256Hex _ := []

private def emptyImport : ImportRequest where
  sessionsDir := js "/s"
  files := .empty
  cwd := js "/"
  activateTriggers := .off
  newId := js "b"
  timestamp := js "now"

private def smooth : ImportOutcomes where
  makesDir := true
  session := .written
  reads := true
  sidecar _ := .written
  renames := true

end Example

end PieAgent.Soundness.ArchiveImports
