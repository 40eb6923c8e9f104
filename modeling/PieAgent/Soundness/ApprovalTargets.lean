import PieAgent.Machine.Core.Labeled
import PieAgent.Model.Ui.ControlPlane

/-! # Which prompt an approval is for

An approval is applied to the prompt that is on display when it arrives. This is the prompt its viewer has seen if viewers
approve only what is on display, and no other prompt is shown while approvals are under way.
-/

namespace PieAgent.Soundness

open JavaScript Machine Model Model.Ui

section Property

/-- The approval was sent by a viewer that saw its prompt while it was on display. -/
def SentSeeing (events : List AppEvent) (approval : Approval) : Prop :=
  ∃ before after app viewer, events = before ++ AppEvent.send viewer approval.source approval.approve :: after ∧
    run? App.step {} before = some app ∧ app.shown viewer = approval.shown ∧ app.controlPlanePrompt = approval.shown

/-- What is approved has been approved by an approval that was sent for it, and no call has been allowed otherwise. -/
structure ApprovesWhatWasSeen (events : List AppEvent) (app : App) : Prop where
  seen : ∀ prompt approval, (prompt, approval) ∈ app.resolved → approval.approve = true →
    approval.shown = some prompt ∧ SentSeeing events approval
  approved : ∀ id : ℕ, app.calls[id]? = some (some .allow) →
    ∃ approval, (.call id, approval) ∈ app.resolved ∧ approval.approve = true

/-- A viewer approves when nothing is on display but what it sees. A prompt is shown when nobody's approval is under way. -/
def ApprovesInTime (app : App) : AppEvent → Prop
  | .send viewer _ true => app.controlPlanePrompt = none ∨ app.shown viewer = app.controlPlanePrompt
  | .showPrompt => ∀ approval ∈ app.approvals, approval.approve = false
  | .importActivation => app.controlPlanePrompt = none → ∀ approval ∈ app.approvals, approval.approve = false
  | _ => True

end Property

section Steps

variable {app next : App} {event : AppEvent} {past events : List AppEvent} {approval : Approval}

/-- Whoever approves has seen what is on display. -/
private structure InTime (past : List AppEvent) (app : App) : Prop extends ApprovesWhatWasSeen past app where
  run : run? App.step {} past = some app
  aimed : ∀ approval ∈ app.approvals, approval.approve = true →
    app.controlPlanePrompt = none ∨ (approval.shown = app.controlPlanePrompt ∧ SentSeeing past approval)

private theorem SentSeeing.mono (sent : SentSeeing past approval) : SentSeeing (past ++ [event]) approval := by
  obtain ⟨before, after, app, viewer, rfl, run, shown⟩ := sent
  exact ⟨before, after ++ [event], app, viewer, by rw [List.append_assoc, List.cons_append], run, shown⟩

private theorem run?_concat (run : run? App.step {} past = some app) (stepped : app.step event = some next) :
    run? App.step {} (past ++ [event]) = some next :=
  run?_append.mpr ⟨app, run, run?_cons.mpr ⟨next, stepped, rfl⟩⟩

/-- A step that resolves nothing and sends nothing. -/
private theorem InTime.kept (inTime : InTime past app) (stepped : app.step event = some next)
    (resolved : next.resolved = app.resolved)
    (calls : ∀ id : ℕ, next.calls[id]? = some (some .allow) → app.calls[id]? = some (some .allow))
    (aimed : ∀ approval ∈ next.approvals, approval.approve = true →
      next.controlPlanePrompt = none ∨ (approval.shown = next.controlPlanePrompt ∧ SentSeeing past approval)) :
    InTime (past ++ [event]) next where
  seen prompt approval member approves :=
    (inTime.seen prompt approval (resolved ▸ member) approves).imp_right SentSeeing.mono
  approved id allowed := by
    rw [resolved]
    exact inTime.approved id (calls id allowed)
  run := run?_concat inTime.run stepped
  aimed approval member approves := (aimed approval member approves).imp_right (And.imp_right SentSeeing.mono)

private theorem allowed_of_settle {id other : ℕ} {decision : ControlPlanePromptDecision}
    (allowed : (app.settle id decision).calls[other]? = some (some .allow)) :
    app.calls[other]? = some (some .allow) ∨ (other = id ∧ decision = .allow) := by
  unfold App.settle at allowed
  rw [List.getElem?_modify] at allowed
  by_cases same : id = other
  · subst same
    cases found : app.calls[id]? with
    | none => simp [found] at allowed
    | some received =>
      rw [found] at allowed
      cases received with
      | none => exact .inr ⟨rfl, by simpa using allowed⟩
      | some value => exact .inl (by simpa using allowed)
  · exact .inl (by simpa [same] using allowed)

/-- The approvals that are under way are for the prompt on display when one of them is applied. -/
private theorem InTime.resolve (inTime : InTime past app) (member : approval ∈ app.approvals)
    (stepped : app.step (.resolve approval) = some
      ({ app with select := none, approvals := app.approvals.erase approval }.resolveControlPlanePrompt approval)) :
    InTime (past ++ [AppEvent.resolve approval])
      ({ app with select := none, approvals := app.approvals.erase approval }.resolveControlPlanePrompt approval) := by
  cases displayed : app.controlPlanePrompt with
  | none =>
    simp only [App.resolveControlPlanePrompt, displayed] at stepped ⊢
    exact inTime.kept stepped rfl (fun _ allowed => allowed) fun _ _ _ => .inl rfl
  | some prompt =>
    simp only [App.resolveControlPlanePrompt, displayed] at stepped ⊢
    have aimed : approval.approve = true → approval.shown = some prompt ∧ SentSeeing past approval := fun approves =>
      displayed ▸ (inTime.aimed approval member approves).resolve_left (by simp [displayed])
    have seen : ∀ other given, (other, given) ∈ app.resolved ++ [(prompt, approval)] → given.approve = true →
        given.shown = some other ∧ SentSeeing (past ++ [AppEvent.resolve approval]) given := by
      intro other given among approves
      rcases List.mem_append.mp among with before | new
      · exact (inTime.seen other given before approves).imp_right SentSeeing.mono
      · cases List.mem_singleton.mp new
        exact (aimed approves).imp_right SentSeeing.mono
    cases prompt with
    | importActivation id =>
      refine ⟨⟨seen, fun id allowed => ?_⟩, run?_concat inTime.run stepped, fun _ _ _ => .inl rfl⟩
      obtain ⟨given, among, approves⟩ := inTime.approved id allowed
      exact ⟨given, List.mem_append_left _ among, approves⟩
    | call id =>
      refine ⟨⟨seen, fun other allowed => ?_⟩, run?_concat inTime.run stepped, fun _ _ _ => .inl rfl⟩
      rcases allowed_of_settle allowed with before | ⟨rfl, decision⟩
      · obtain ⟨given, among, approves⟩ := inTime.approved other before
        exact ⟨given, List.mem_append_left _ among, approves⟩
      · refine ⟨approval, List.mem_append_right _ (List.mem_singleton.mpr rfl), ?_⟩
        unfold Approval.decision at decision
        split_ifs at decision with approves
        · exact approves
        · split at decision
          · cases decision
          · cases decision

private theorem InTime.step (inTime : InTime past app) (condition : ApprovesInTime app event)
    (stepped : app.step event = some next) : InTime (past ++ [event]) next := by
  have whole := stepped
  unfold App.step at stepped
  split at stepped
  next =>
    cases stepped
    have fields : app.call.resolved = app.resolved ∧ app.call.approvals = app.approvals ∧
        app.call.controlPlanePrompt = app.controlPlanePrompt ∧ app.call.calls = app.calls ++ [none] := by
      unfold App.call
      dsimp only
      split
      · exact ⟨rfl, rfl, rfl, rfl⟩
      · exact ⟨rfl, rfl, rfl, rfl⟩
    obtain ⟨resolved, approvals, displayed, calls⟩ := fields
    refine inTime.kept whole resolved (fun id allowed => ?_) ?_
    · rw [calls, List.getElem?_append] at allowed
      split_ifs at allowed with less
      · exact allowed
      · rw [List.getElem?_singleton] at allowed
        split_ifs at allowed
        cases allowed
    · rw [approvals, displayed]
      exact inTime.aimed
  next id =>
    split_ifs at stepped
    cases stepped
    refine inTime.kept whole rfl (fun other allowed => ?_) inTime.aimed
    exact (allowed_of_settle allowed).resolve_right fun denied => by cases denied.2
  next =>
    cases stepped
    have fields : app.openSelect.resolved = app.resolved ∧ app.openSelect.approvals = app.approvals ∧
        app.openSelect.controlPlanePrompt = app.controlPlanePrompt ∧ app.openSelect.calls = app.calls := by
      unfold App.openSelect
      dsimp only
      split
      · exact ⟨rfl, rfl, rfl, rfl⟩
      · exact ⟨rfl, rfl, rfl, rfl⟩
      · exact ⟨rfl, rfl, rfl, rfl⟩
    obtain ⟨resolved, approvals, displayed, calls⟩ := fields
    refine inTime.kept whole resolved (fun id allowed => calls ▸ allowed) ?_
    rw [approvals, displayed]
    exact inTime.aimed
  next =>
    cases stepped
    refine inTime.kept whole rfl (fun _ allowed => allowed) fun other among approves => ?_
    cases (condition other among).symm.trans approves
  next approval _ _ =>
    split_ifs at stepped with member
    cases stepped
    exact inTime.resolve member whole
  next =>
    cases stepped
    unfold App.promptImportActivation at whole ⊢
    dsimp only at whole ⊢
    split at whole
    · exact inTime.kept whole rfl (fun _ allowed => allowed) inTime.aimed
    next displayed =>
      refine inTime.kept whole rfl (fun _ allowed => allowed) fun other among approves => ?_
      cases (condition displayed other among).symm.trans approves
  next =>
    cases stepped
    exact inTime.kept whole rfl (fun _ allowed => allowed) inTime.aimed
  next =>
    split_ifs at stepped
    cases stepped
    exact inTime.kept whole rfl (fun _ allowed => allowed) inTime.aimed
  next viewer source approve =>
    cases stepped
    refine ⟨⟨fun prompt given among approves => ?_, inTime.approved⟩, run?_concat inTime.run whole, ?_⟩
    · exact (inTime.seen prompt given among approves).imp_right SentSeeing.mono
    · intro other among approves
      rcases List.mem_append.mp among with before | new
      · exact (inTime.aimed other before approves).imp_right (And.imp_right SentSeeing.mono)
      · cases List.mem_singleton.mp new
        obtain rfl : approve = true := approves
        rcases condition with empty | seen
        · exact .inl empty
        · exact .inr ⟨seen, past, [], app, viewer, rfl, inTime.run, rfl, seen.symm⟩
  next lost =>
    split_ifs at stepped
    cases stepped
    exact inTime.kept whole rfl (fun _ allowed => allowed) fun other among =>
      inTime.aimed other (List.mem_of_mem_erase among)
  next => cases stepped

/-- When viewers approve only what is on display, and no prompt is shown while an approval is under way, a call is allowed
by an approval that was sent for it. -/
theorem approvals_hit_seen (run : run? App.step {} events = some app) (meets : Meets App.step ApprovesInTime {} events) :
    ApprovesWhatWasSeen events app := by
  have fresh : InTime [] {} := by
    refine ⟨⟨nofun, fun _ allowed => ?_⟩, rfl, nofun⟩
    cases allowed
  exact (@run?_history _ _ _ _ _ _ _ InTime (fun _ _ _ _ => InTime.step) [] fresh meets run).toApprovesWhatWasSeen

end Steps

theorem approvals_hit_seen_once : ∃ app, run? App.step {} [.call, .select, .showPrompt, .select, .receive 0 2,
    .send 0 .relay true, .resolve { source := .relay, approve := true, shown := some (.call 0) }] = some app ∧
    ApprovesWhatWasSeen [.call, .select, .showPrompt, .select, .receive 0 2, .send 0 .relay true,
      .resolve { source := .relay, approve := true, shown := some (.call 0) }] app := by
  refine ⟨_, rfl, approvals_hit_seen rfl ?_⟩
  exact .cons trivial rfl (.cons trivial rfl (.cons nofun rfl (.cons trivial rfl (.cons trivial rfl
    (.cons (.inr rfl) rfl (.cons trivial rfl meets_nil))))))

/-- Two viewers approve the first of two prompts, and the second approval allows the second call. -/
theorem approval_hits_unseen :
    let first : Approval := { source := .relay, approve := true, shown := some (.call 0) }
    let events : List AppEvent := [.call, .call, .select, .showPrompt, .select, .receive 0 2, .receive 1 2,
      .send 0 .relay true, .send 1 .relay true, .resolve first, .select, .showPrompt, .select, .resolve first]
    ∃ app, run? App.step {} events = some app ∧ app.calls[1]? = some (some .allow) ∧ ¬ApprovesWhatWasSeen events app := by
  refine ⟨_, rfl, rfl, fun approves => ?_⟩
  have seen := (approves.seen (.call 1) { source := .relay, approve := true, shown := some (.call 0) }
    (List.mem_cons_of_mem _ (List.mem_singleton.mpr rfl)) rfl).1
  cases seen

end PieAgent.Soundness
