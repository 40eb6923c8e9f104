import PieAgent.Model.Agent.ToolExecution

/-! # Prompts of the control plane

A tool call that needs an approval calls the hook, which queues a prompt and waits for a decision or for its signal. The
loop of the app selects between its queues. It shows a queued prompt when none is on display, and resolves the prompt on
display with the approvals that come as keys, from the local web server, or over the relay.

An open select has taken a value out of each queue that has one. Only the value of the branch that wins is used. A viewer
sends an approval when it sees a snapshot; what an approval carries to the app is a boolean. The numbers of the calls, the
snapshot behind an approval, and the record of the resolutions are read by no operation. The labels of the prompts are
left out.
-/

namespace PieAgent.Model.Ui

open JavaScript

/-- A prompt of a call of the hook, or one that asks for the activation of imported automation. -/
inductive UiControlPlanePrompt where
  | call (id : ℕ)
  | importActivation (id : ℕ)
deriving DecidableEq

/-- The branch of the control plane in an open select. It is absent while a prompt is on display. -/
inductive ControlPlaneBranch where
  | absent
  | waiting
  | taken (id : ℕ)

inductive ApprovalSource where
  | key
  | web
  | relay
deriving DecidableEq

/-- An approval under way, and the prompt in the latest snapshot of its viewer. -/
structure Approval where
  source : ApprovalSource
  approve : Bool
  shown : Option UiControlPlanePrompt
deriving DecidableEq

def Approval.decision (approval : Approval) : ControlPlanePromptDecision :=
  if approval.approve then .allow
  else match approval.source with
    | .relay => .deny (some (js "denied via web relay"))
    | _ => .deny (some (js "denied by user"))

/-- The calls of the hook with the decisions they have received, the queue of their prompts, and the app. -/
structure App where
  calls : List (Option ControlPlanePromptDecision) := []
  prompts : List ℕ := []
  select : Option ControlPlaneBranch := none
  controlPlanePrompt : Option UiControlPlanePrompt := none
  imports : ℕ := 0
  snapshots : List (Option UiControlPlanePrompt) := [none]
  seen : ℕ → ℕ := fun _ => 0
  approvals : List Approval := []
  resolved : List (UiControlPlanePrompt × Approval) := []

inductive AppEvent where
  /-- The hook is called. -/
  | call
  /-- The signal of a call fires. -/
  | cancel (id : ℕ)
  /-- The loop publishes a snapshot and opens a select. -/
  | select
  /-- The branch of the control plane wins. -/
  | showPrompt
  /-- A branch with an approval wins. -/
  | resolve (approval : Approval)
  /-- A command that has imported a session wins. -/
  | importActivation
  /-- Any other branch wins. -/
  | other
  /-- A viewer receives a snapshot. -/
  | receive (viewer snapshot : ℕ)
  | send (viewer : ℕ) (source : ApprovalSource) (approve : Bool)
  /-- An approval is lost, on its way or to a branch that does not win. -/
  | lose (approval : Approval)
deriving DecidableEq

namespace App

variable (app : App)

/-- A call receives its first decision. -/
def settle (id : ℕ) (decision : ControlPlanePromptDecision) : App :=
  { app with calls := app.calls.modify id fun received => received.or (some decision) }

/-- The hook pushes its prompt to the branch that waits for one, or to the buffer. -/
def call : App :=
  let id := app.calls.length
  let app := { app with calls := app.calls ++ [none] }
  match app.select with
  | some .waiting => { app with select := some (.taken id) }
  | _ => { app with prompts := app.prompts ++ [id] }

def openSelect : App :=
  let app := { app with snapshots := app.snapshots ++ [app.controlPlanePrompt] }
  match app.controlPlanePrompt, app.prompts with
  | some _, _ => { app with select := some .absent }
  | none, [] => { app with select := some .waiting }
  | none, id :: prompts => { app with select := some (.taken id), prompts }

def showControlPlanePrompt (prompt : UiControlPlanePrompt) : App := { app with controlPlanePrompt := some prompt }

/-- `resolveControlPlanePrompt`, with the approval that brings the decision. -/
def resolveControlPlanePrompt (approval : Approval) : App :=
  match app.controlPlanePrompt with
  | none => app
  | some prompt =>
    let app := { app with controlPlanePrompt := none, resolved := app.resolved ++ [(prompt, approval)] }
    match prompt with
    | .call id => app.settle id approval.decision
    | .importActivation _ => app

def promptImportActivation : App :=
  match app.controlPlanePrompt with
  | some _ => app
  | none => { app with imports := app.imports + 1 }.showControlPlanePrompt (.importActivation app.imports)

/-- The prompt in the latest snapshot of a viewer. -/
def shown (viewer : ℕ) : Option UiControlPlanePrompt := (app.snapshots[app.seen viewer]?).join

def step (event : AppEvent) : Option App :=
  match event, app.select with
  | .call, _ => some app.call
  | .cancel id, _ =>
    if id < app.calls.length then some (app.settle id (.deny (some (js "control-plane prompt cancelled")))) else none
  | .select, none => some app.openSelect
  | .showPrompt, some (.taken id) => some ({ app with select := none }.showControlPlanePrompt (.call id))
  | .resolve approval, some _ =>
    if approval ∈ app.approvals then
      some ({ app with select := none, approvals := app.approvals.erase approval }.resolveControlPlanePrompt approval)
    else none
  | .importActivation, some _ => some { app with select := none }.promptImportActivation
  | .other, some _ => some { app with select := none }
  | .receive viewer snapshot, _ =>
    if app.seen viewer ≤ snapshot ∧ snapshot < app.snapshots.length then
      some { app with seen := fun other => if other = viewer then snapshot else app.seen other }
    else none
  | .send viewer source approve, _ =>
    some { app with approvals := app.approvals ++ [{ source, approve, shown := app.shown viewer }] }
  | .lose approval, _ =>
    if approval ∈ app.approvals then some { app with approvals := app.approvals.erase approval } else none
  | _, _ => none

end App

end PieAgent.Model.Ui
