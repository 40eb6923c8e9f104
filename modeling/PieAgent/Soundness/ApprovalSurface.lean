import PieAgent.Machine.Core.Labeled
import PieAgent.Model.Ui.ControlPlane

/-! # The prompt on display and the calls that wait

Whoever waits for a decision has its prompt on display, in the queue, or in the hand of the select in between. A signal
settles a call and leaves its prompt where it is, and a select drops the prompt that it has taken when another branch wins.
-/

namespace PieAgent.Soundness

open JavaScript Machine Model Model.Ui

section Property

variable (app : App)

/-- The call has received no decision. -/
def Waits (id : ℕ) : Prop := app.calls[id]? = some none

/-- The calls whose prompts are on display, or on their way to it. -/
def promptedCalls : List ℕ :=
  (match app.controlPlanePrompt with | some (.call id) => [id] | _ => []) ++
    (match app.select with | some (.taken id) => [id] | _ => []) ++ app.prompts

/-- The prompt on display belongs to a call that waits, every call that waits has its prompt in one place, and the app
has reported as approved what has received an allow. -/
structure MirrorsCalls : Prop where
  displayed : ∀ id, app.controlPlanePrompt = some (.call id) → Waits app id
  once : ∀ id, Waits app id → (promptedCalls app).count id = 1
  reported : ∀ id, (∃ approval, (.call id, approval) ∈ app.resolved ∧ approval.decision = .allow) ↔
    app.calls[id]? = some (some .allow)

/-- No signal settles the call on display, no prompt is shown whose call has been settled, and no other branch wins when
the select has taken the prompt of a call that waits. -/
def KeepsSurface : AppEvent → Prop
  | .cancel id => app.controlPlanePrompt = some (.call id) → ¬Waits app id
  | .showPrompt => ∀ id, app.select = some (.taken id) → Waits app id
  | .resolve _ | .importActivation | .other => ∀ id, app.select = some (.taken id) → ¬Waits app id
  | _ => True

end Property

section Steps

variable {app next : App} {event : AppEvent} {id other : ℕ} {approval : Approval} {events : List AppEvent}

/-- The numbers in use are those of calls, and the branch of the control plane is there only when nothing is on display. -/
private structure WellNumbered (app : App) : Prop where
  prompted : ∀ id ∈ promptedCalls app, id < app.calls.length
  resolved : ∀ id approval, (.call id, approval) ∈ app.resolved → id < app.calls.length
  free : app.select = some .waiting ∨ (∃ id, app.select = some (.taken id)) → app.controlPlanePrompt = none

private theorem waits_settle {decision : ControlPlanePromptDecision} :
    Waits (app.settle id decision) other ↔ Waits app other ∧ other ≠ id := by
  unfold Waits App.settle
  rw [List.getElem?_modify]
  by_cases same : id = other
  · cases found : app.calls[other]? with
    | none => simp
    | some received => cases received <;> simp [same]
  · simp [same, Ne.symm same]

/-- A decision counts when the call has waited for it. -/
private theorem received_settle {decision value : ControlPlanePromptDecision} :
    (app.settle id decision).calls[other]? = some (some value) ↔
      app.calls[other]? = some (some value) ∨ (other = id ∧ Waits app id ∧ decision = value) := by
  unfold Waits App.settle
  rw [List.getElem?_modify]
  by_cases same : id = other
  · subst same
    cases found : app.calls[id]? with
    | none => simp
    | some received => cases received <;> simp
  · simp [same, Ne.symm same]

private theorem promptedCalls_call (app : App) : (promptedCalls app.call).Perm (app.calls.length :: promptedCalls app) := by
  rw [List.perm_iff_count]
  intro id
  unfold promptedCalls App.call
  cases app.select with
  | none =>
    simp only [List.count_append, List.count_cons, List.count_nil]
    omega
  | some branch =>
    cases branch with
    | absent =>
      simp only [List.count_append, List.count_cons, List.count_nil]
      omega
    | taken other =>
      simp only [List.count_append, List.count_cons, List.count_nil]
      omega
    | waiting =>
      simp only [List.count_append, List.count_cons, List.count_nil]
      omega

private theorem waits_call : Waits app.call other ↔ Waits app other ∨ other = app.calls.length := by
  have same : app.call.calls = app.calls ++ [none] := by
    unfold App.call
    dsimp only
    split
    · rfl
    · rfl
  unfold Waits
  rw [same, List.getElem?_append]
  rcases Nat.lt_trichotomy other app.calls.length with less | equal | more
  · rw [if_pos less]
    exact (or_iff_left less.ne).symm
  · simp [equal]
  · have far : other - app.calls.length ≠ 0 := by omega
    simp [Nat.not_lt.mpr more.le, far, more.ne']

private theorem call_fields (app : App) : app.call.calls = app.calls ++ [none] ∧ app.call.resolved = app.resolved ∧
    app.call.controlPlanePrompt = app.controlPlanePrompt ∧
    (app.call.select = app.select ∨ app.select = some .waiting) := by
  unfold App.call
  dsimp only
  split
  next waiting => exact ⟨rfl, rfl, rfl, .inr waiting⟩
  next => exact ⟨rfl, rfl, rfl, .inl rfl⟩

/-- A new select takes a prompt out of the queue, or leaves all as it is. -/
private theorem openSelect_fields (closed : app.select = none) :
    promptedCalls app.openSelect = promptedCalls app ∧ app.openSelect.calls = app.calls ∧
      app.openSelect.resolved = app.resolved ∧ app.openSelect.controlPlanePrompt = app.controlPlanePrompt ∧
      (app.openSelect.select = some .waiting ∨ (∃ id, app.openSelect.select = some (.taken id)) →
        app.controlPlanePrompt = none) := by
  cases displayed : app.controlPlanePrompt with
  | some prompt => simp [promptedCalls, App.openSelect, displayed, closed]
  | none =>
    cases queued : app.prompts with
    | nil => simp [promptedCalls, App.openSelect, displayed, closed, queued]
    | cons id prompts => simp [promptedCalls, App.openSelect, displayed, closed, queued]

/-- The call whose prompt the select has taken. -/
private def takenCalls (app : App) : List ℕ := match app.select with | some (.taken id) => [id] | _ => []

private theorem promptedCalls_drop (app : App) : (promptedCalls app).Perm (takenCalls app ++ promptedCalls { app with select := none }) := by
  unfold promptedCalls takenCalls
  simpa using List.perm_append_comm.append_right app.prompts

private theorem resolve_cases (app : App) (approval : Approval) :
    (app.controlPlanePrompt = none ∧ app.resolveControlPlanePrompt approval = app) ∨
    (∃ id, app.controlPlanePrompt = some (.importActivation id) ∧ app.resolveControlPlanePrompt approval =
      { app with controlPlanePrompt := none, resolved := app.resolved ++ [(.importActivation id, approval)] }) ∨
    ∃ id, app.controlPlanePrompt = some (.call id) ∧ app.resolveControlPlanePrompt approval =
      { app with
        controlPlanePrompt := none
        resolved := app.resolved ++ [(UiControlPlanePrompt.call id, approval)] : App }.settle id approval.decision := by
  unfold App.resolveControlPlanePrompt
  cases displayed : app.controlPlanePrompt with
  | none => exact .inl ⟨rfl, rfl⟩
  | some prompt =>
    cases prompt with
    | importActivation id => exact .inr (.inl ⟨id, rfl, rfl⟩)
    | call id => exact .inr (.inr ⟨id, rfl, rfl⟩)

private theorem import_cases (app : App) : app.promptImportActivation = app ∨
    (app.controlPlanePrompt = none ∧ app.promptImportActivation =
      { app with imports := app.imports + 1, controlPlanePrompt := some (.importActivation app.imports) }) := by
  unfold App.promptImportActivation
  split
  · exact .inl rfl
  next displayed => exact .inr ⟨displayed, rfl⟩

section Numbers

private theorem WellNumbered.drop (numbered : WellNumbered app) : WellNumbered { app with select := none } where
  prompted id member := numbered.prompted id ((promptedCalls_drop app).mem_iff.mpr (List.mem_append_right _ member))
  resolved := numbered.resolved
  free := nofun

private theorem WellNumbered.resolve (numbered : WellNumbered app) (closed : app.select = none) (approval : Approval) :
    WellNumbered (app.resolveControlPlanePrompt approval) := by
  have prompts : ∀ id ∈ app.prompts, id < app.calls.length := fun id member =>
    numbered.prompted id (List.mem_append_right _ member)
  rcases resolve_cases app approval with ⟨_, same⟩ | ⟨id, _, same⟩ | ⟨id, displayed, same⟩
  · rwa [same]
  · rw [same]
    refine ⟨fun other member => prompts other ?_, fun other given member => ?_, fun _ => rfl⟩
    · simpa [promptedCalls, closed] using member
    · rcases List.mem_append.mp member with before | new
      · exact numbered.resolved other given before
      · cases List.mem_singleton.mp new
  · have less : id < app.calls.length := numbered.prompted id (by simp [promptedCalls, displayed])
    rw [same]
    refine ⟨fun other member => ?_, fun other given member => ?_, fun _ => rfl⟩
    · have among : other ∈ app.prompts := by simpa [promptedCalls, App.settle, closed] using member
      simpa [App.settle] using prompts other among
    · rcases List.mem_append.mp member with before | new
      · simpa [App.settle] using numbered.resolved other given before
      · cases List.mem_singleton.mp new
        simpa [App.settle] using less

private theorem WellNumbered.step (numbered : WellNumbered app) (stepped : app.step event = some next) :
    WellNumbered next := by
  unfold App.step at stepped
  split at stepped
  next =>
    cases stepped
    obtain ⟨calls, resolved, displayed, select⟩ := call_fields app
    have more : app.call.calls.length = app.calls.length + 1 := by rw [calls, List.length_append]; rfl
    refine ⟨fun id member => ?_, fun id given member => ?_, fun branch => ?_⟩
    · rw [more]
      rcases List.mem_cons.mp ((promptedCalls_call app).mem_iff.mp member) with rfl | before
      · exact Nat.lt_succ_self _
      · exact (numbered.prompted id before).trans (Nat.lt_succ_self _)
    · rw [more]
      exact (numbered.resolved id given (resolved ▸ member)).trans (Nat.lt_succ_self _)
    · rw [displayed]
      rcases select with same | waiting
      · exact numbered.free (same ▸ branch)
      · exact numbered.free (.inl waiting)
  next id =>
    split_ifs at stepped with known
    cases stepped
    refine ⟨fun other member => ?_, fun other given member => ?_, numbered.free⟩
    · simpa [App.settle] using numbered.prompted other member
    · simpa [App.settle] using numbered.resolved other given member
  next closed =>
    cases stepped
    obtain ⟨prompted, calls, resolved, displayed, free⟩ := openSelect_fields closed
    refine ⟨fun id member => ?_, fun id given member => ?_, fun branch => displayed.trans (free branch)⟩
    · rw [calls]
      exact numbered.prompted id (prompted ▸ member)
    · rw [calls]
      exact numbered.resolved id given (resolved ▸ member)
  next id taken =>
    cases stepped
    refine ⟨fun other member => numbered.prompted other ?_, numbered.resolved, nofun⟩
    simpa [promptedCalls, App.showControlPlanePrompt, numbered.free (.inr ⟨id, taken⟩), taken] using member
  next approval _ _ =>
    split_ifs at stepped
    cases stepped
    have dropped : WellNumbered { app with select := none, approvals := app.approvals.erase approval } :=
      ⟨numbered.drop.prompted, numbered.resolved, nofun⟩
    exact dropped.resolve rfl approval
  next =>
    cases stepped
    rcases import_cases { app with select := none } with same | ⟨displayed, same⟩
    · rw [same]
      exact numbered.drop
    · rw [same]
      refine ⟨fun id member => numbered.drop.prompted id ?_, numbered.resolved, nofun⟩
      simpa [promptedCalls] using List.mem_append_right _ member
  next => cases stepped; exact numbered.drop
  next =>
    split_ifs at stepped
    cases stepped
    exact ⟨numbered.prompted, numbered.resolved, numbered.free⟩
  next => cases stepped; exact ⟨numbered.prompted, numbered.resolved, numbered.free⟩
  next =>
    split_ifs at stepped
    cases stepped
    exact ⟨numbered.prompted, numbered.resolved, numbered.free⟩
  next => cases stepped

end Numbers

section Surface

/-- The calls, their prompts and the reports are the same. -/
private theorem MirrorsCalls.congr (calls : next.calls = app.calls) (resolved : next.resolved = app.resolved)
    (displayed : ∀ id, next.controlPlanePrompt = some (.call id) ↔ app.controlPlanePrompt = some (.call id))
    (places : ∀ id, (promptedCalls next).count id = (promptedCalls app).count id) : MirrorsCalls next ↔ MirrorsCalls app := by
  have waits (id : ℕ) : Waits next id ↔ Waits app id := by rw [Waits, Waits, calls]
  constructor
  · intro mirrors
    refine ⟨fun id shown => (waits id).mp (mirrors.displayed id ((displayed id).mpr shown)), fun id waiting => ?_,
      fun id => ?_⟩
    · exact (places id).symm.trans (mirrors.once id ((waits id).mpr waiting))
    · rw [← calls, ← resolved]
      exact mirrors.reported id
  · intro mirrors
    refine ⟨fun id shown => (waits id).mpr (mirrors.displayed id ((displayed id).mp shown)), fun id waiting => ?_,
      fun id => ?_⟩
    · exact (places id).trans (mirrors.once id ((waits id).mp waiting))
    · rw [calls, resolved]
      exact mirrors.reported id

private theorem mirrors_call (numbered : WellNumbered app) (mirrors : MirrorsCalls app) : MirrorsCalls app.call := by
  obtain ⟨calls, resolved, displayed, _⟩ := call_fields app
  refine ⟨fun id shown => (waits_call).mpr (.inl (mirrors.displayed id (displayed ▸ shown))), fun id waiting => ?_,
    fun id => ?_⟩
  · rw [(promptedCalls_call app).count_eq]
    rcases (waits_call).mp waiting with before | rfl
    · have less : id < app.calls.length := (List.getElem?_eq_some_iff.mp before).1
      rw [List.count_cons_of_ne (by omega)]
      exact mirrors.once id before
    · have fresh : app.calls.length ∉ promptedCalls app := fun member => (numbered.prompted _ member).false
      rw [List.count_cons_self, List.count_eq_zero_of_not_mem fresh]
  · rw [resolved, calls, mirrors.reported id, List.getElem?_append]
    split_ifs with less
    · exact Iff.rfl
    · rw [List.getElem?_eq_none (Nat.not_lt.mp less), List.getElem?_singleton]
      split_ifs
      · simp
      · simp

/-- A signal may not settle the call on display. -/
private theorem mirrors_cancel_iff {reason : Option JsString} (mirrors : MirrorsCalls app) :
    MirrorsCalls (app.settle id (.deny reason)) ↔ (app.controlPlanePrompt = some (.call id) → ¬Waits app id) := by
  constructor
  · exact fun after shown _ => ((waits_settle).mp (after.displayed id shown)).2 rfl
  · intro condition
    refine ⟨fun other shown => ?_, fun other waiting => mirrors.once other ((waits_settle).mp waiting).1, fun other => ?_⟩
    · have waiting := mirrors.displayed other shown
      refine (waits_settle).mpr ⟨waiting, ?_⟩
      rintro rfl
      exact condition shown waiting
    · rw [received_settle, or_iff_left (fun other => by cases other.2.2)]
      exact mirrors.reported other

private theorem mirrors_show_iff (numbered : WellNumbered app) (mirrors : MirrorsCalls app)
    (taken : app.select = some (.taken id)) :
    MirrorsCalls ({ app with select := none }.showControlPlanePrompt (.call id)) ↔ Waits app id := by
  have empty := numbered.free (.inr ⟨id, taken⟩)
  have places : promptedCalls ({ app with select := none }.showControlPlanePrompt (.call id)) = promptedCalls app := by
    simp [promptedCalls, App.showControlPlanePrompt, empty, taken]
  constructor
  · exact fun after => after.displayed id rfl
  · intro waiting
    refine ⟨fun other shown => ?_, fun other waits => ?_, mirrors.reported⟩
    · cases shown
      exact waiting
    · rw [places]
      exact mirrors.once other waits

/-- Another branch may not win when the prompt of a waiting call has been taken. -/
private theorem mirrors_drop_iff (mirrors : MirrorsCalls app) :
    MirrorsCalls { app with select := none } ↔ ∀ id, app.select = some (.taken id) → ¬Waits app id := by
  constructor
  · intro after id taken waiting
    have before := mirrors.once id waiting
    rw [(promptedCalls_drop app).count_eq, List.count_append, after.once id waiting, takenCalls, taken] at before
    simp at before
  · intro condition
    refine ⟨mirrors.displayed, fun id waiting => ?_, mirrors.reported⟩
    have before := mirrors.once id waiting
    have untaken : (takenCalls app).count id = 0 := by
      rw [List.count_eq_zero]
      intro member
      unfold takenCalls at member
      split at member
      next other taken =>
        obtain rfl := List.mem_singleton.mp member
        exact condition id taken waiting
      next => cases member
    rwa [(promptedCalls_drop app).count_eq, List.count_append, untaken, Nat.zero_add] at before

private theorem mirrors_resolve (mirrors : MirrorsCalls app) (approval : Approval) :
    MirrorsCalls (app.resolveControlPlanePrompt approval) := by
  rcases resolve_cases app approval with ⟨_, same⟩ | ⟨id, displayed, same⟩ | ⟨id, displayed, same⟩
  · rwa [same]
  · rw [same]
    refine ⟨nofun, fun other waiting => ?_, fun other => ?_⟩
    · have before := mirrors.once other waiting
      simpa [promptedCalls, displayed] using before
    · rw [← mirrors.reported other]
      simp
  · have waits := mirrors.displayed id displayed
    rw [same]
    refine ⟨nofun, fun other waiting => ?_, fun other => ?_⟩
    · obtain ⟨before, differ⟩ := (waits_settle).mp waiting
      have count := mirrors.once other before
      simpa [promptedCalls, displayed, App.settle, List.count_cons, Ne.symm differ] using count
    · rw [received_settle]
      show _ ↔ app.calls[other]? = some (some .allow) ∨ (other = id ∧ Waits app id ∧ approval.decision = .allow)
      rw [← mirrors.reported other]
      constructor
      · rintro ⟨given, member, allows⟩
        rcases List.mem_append.mp member with before | new
        · exact .inl ⟨given, before, allows⟩
        · cases List.mem_singleton.mp new
          exact .inr ⟨rfl, waits, allows⟩
      · rintro (⟨given, member, allows⟩ | ⟨rfl, _, allows⟩)
        · exact ⟨given, List.mem_append_left _ member, allows⟩
        · exact ⟨approval, List.mem_append_right _ (List.mem_singleton.mpr rfl), allows⟩

private theorem mirrors_import_iff : MirrorsCalls app.promptImportActivation ↔ MirrorsCalls app := by
  rcases import_cases app with same | ⟨displayed, same⟩
  · rw [same]
  · rw [same]
    refine MirrorsCalls.congr rfl rfl (fun id => ?_) fun id => ?_
    · simp [displayed]
    · simp [promptedCalls, displayed]

/-- A step that keeps the surface is one that meets the condition. -/
private theorem mirrors_step (numbered : WellNumbered app) (mirrors : MirrorsCalls app)
    (stepped : app.step event = some next) : MirrorsCalls next ↔ KeepsSurface app event := by
  unfold App.step at stepped
  split at stepped
  next =>
    cases stepped
    exact iff_of_true (mirrors_call numbered mirrors) trivial
  next id =>
    split_ifs at stepped
    cases stepped
    exact mirrors_cancel_iff mirrors
  next closed =>
    cases stepped
    obtain ⟨prompted, calls, resolved, displayed, _⟩ := openSelect_fields closed
    refine iff_of_true ((MirrorsCalls.congr calls resolved (fun id => ?_) fun id => ?_).mpr mirrors) trivial
    · rw [displayed]
    · rw [prompted]
  next id taken =>
    cases stepped
    rw [mirrors_show_iff numbered mirrors taken]
    constructor
    · intro waiting other same
      cases taken.symm.trans same
      exact waiting
    · exact fun condition => condition id taken
  next approval branch open_ =>
    split_ifs at stepped
    cases stepped
    have dropped := mirrors_drop_iff mirrors
    have lost : MirrorsCalls { app with select := none, approvals := app.approvals.erase approval } ↔
        MirrorsCalls { app with select := none } := MirrorsCalls.congr rfl rfl (fun _ => Iff.rfl) fun _ => rfl
    rcases resolve_cases { app with select := none, approvals := app.approvals.erase approval } approval with
      ⟨_, same⟩ | shown
    · rw [same, lost, dropped]
      rfl
    · -- Something was on display, so that the select has taken no prompt.
      have untaken : ∀ id, app.select = some (.taken id) → ¬Waits app id := by
        intro id taken
        have empty := numbered.free (.inr ⟨id, taken⟩)
        rcases shown with ⟨_, displayed, _⟩ | ⟨_, displayed, _⟩
        · cases empty.symm.trans displayed
        · cases empty.symm.trans displayed
      exact iff_of_true (mirrors_resolve (lost.mpr (dropped.mpr untaken)) approval) untaken
  next =>
    cases stepped
    rw [mirrors_import_iff]
    exact mirrors_drop_iff mirrors
  next => cases stepped; exact mirrors_drop_iff mirrors
  next =>
    split_ifs at stepped
    cases stepped
    exact iff_of_true ⟨mirrors.displayed, mirrors.once, mirrors.reported⟩ trivial
  next =>
    cases stepped
    exact iff_of_true ⟨mirrors.displayed, mirrors.once, mirrors.reported⟩ trivial
  next =>
    split_ifs at stepped
    cases stepped
    exact iff_of_true ⟨mirrors.displayed, mirrors.once, mirrors.reported⟩ trivial
  next => cases stepped

end Surface

/-- In every state of a run the surface mirrors the waiting calls exactly when no signal settles the call on display, no
prompt of a settled call is shown, and no select drops the prompt of a waiting call. -/
theorem surface_mirrors_iff (run : run? App.step {} events = some app) :
    (∀ n state, run? App.step {} (events.take n) = some state → MirrorsCalls state) ↔
      Meets App.step KeepsSurface {} events := by
  have numbered : WellNumbered {} := ⟨nofun, nofun, nofun⟩
  have mirrors : MirrorsCalls {} := by
    refine ⟨nofun, fun _ waiting => ?_, fun _ => ?_⟩
    · cases waiting
    · exact iff_of_false nofun nofun
  exact forall_take_iff_meets (fun _ _ _ numbered stepped => numbered.step stepped)
    (fun _ _ _ numbered mirrors stepped => mirrors_step numbered mirrors stepped) numbered mirrors run

end Steps

theorem surface_mirrors_iff_shown :
    ∃ state, run? App.step {} [AppEvent.call, .select, .showPrompt] = some state ∧ MirrorsCalls state := by
  have meets : Meets App.step KeepsSurface {} [.call, .select, .showPrompt] := by
    refine .cons trivial rfl (.cons trivial rfl (.cons (fun id taken => ?_) rfl meets_nil))
    cases taken
    rfl
  exact ⟨_, rfl, (@surface_mirrors_iff _ [.call, .select, .showPrompt] rfl).mpr meets 3 _ rfl⟩

/-- An aborted call is denied, and approved by the app when the user answers its prompt. A call waits without a prompt when
the prompt has been taken by a select that another branch wins. -/
theorem surface_misleads :
    (∃ app, run? App.step {} [.call, .select, .showPrompt, .cancel 0, .select, .receive 0 2, .send 0 .web true,
      .resolve { source := .web, approve := true, shown := some (.call 0) }] = some app ∧ ¬MirrorsCalls app) ∧
    ∃ app, run? App.step {} [.call, .select, .other] = some app ∧ ¬MirrorsCalls app := by
  constructor
  · refine ⟨_, rfl, fun mirrors => ?_⟩
    have received := (mirrors.reported 0).mp ⟨_, List.mem_singleton.mpr rfl, rfl⟩
    cases received
  · refine ⟨_, rfl, fun mirrors => ?_⟩
    have count := mirrors.once 0 rfl
    cases count

end PieAgent.Soundness
