import PieAgent.JavaScript.Core.Strings

/-! # The goal of a session

The goal is kept in the log of the session, whose newest valid state counts. A command reads the log and appends the
state that it makes of the goal. The evaluation at the end of a turn reads the goal, asks a model, and appends a copy of
what it has read. Others may take steps in between.

What the model answers is an event. What it is asked, and the payload of a decision, are left out.
-/

namespace PieAgent.Model.Goal

open JavaScript

def goalCustomType : JsString := js "goal_state"

def maxContinuations : ℚ := 8

inductive GoalStatus where
  | pursuing
  | paused
  | achieved
  | budgetLimited
  | cleared
deriving DecidableEq

def GoalStatus.text : GoalStatus → JsString
  | .pursuing => js "pursuing"
  | .paused => js "paused"
  | .achieved => js "achieved"
  | .budgetLimited => js "budget_limited"
  | .cleared => js "cleared"

def goalStatuses : List GoalStatus := [.pursuing, .paused, .achieved, .budgetLimited, .cleared]

structure GoalState where
  condition : JsString
  status : GoalStatus
  iterations : JsNumber
  lastReason : Option JsString := none
  updatedAt : JsString
deriving DecidableEq

/-- An entry of the session, as far as the goal is concerned. -/
structure GoalSessionEntry where
  type : JsString
  customType : Option JsString := none
  data : Option JsonValue := none

section Log

/-- What `appendCustomEntry` is given. -/
def GoalState.data (state : GoalState) : JsonValue :=
  .obj ([(js "condition", JsonValue.str state.condition), (js "status", .str state.status.text),
    (js "iterations", .num state.iterations)] ++
    (state.lastReason.toList.map fun reason => (js "last_reason", JsonValue.str reason)) ++
    [(js "updated_at", JsonValue.str state.updatedAt)])

def GoalState.entry (state : GoalState) : GoalSessionEntry where
  type := js "custom"
  customType := some goalCustomType
  data := some state.data

def parseGoalState (data : JsonValue) : Option GoalState :=
  match data.field? "condition", data.field? "status", data.field? "updated_at" with
  | some (.str condition), some (.str text), some (.str updatedAt) =>
    (goalStatuses.find? fun status => status.text = text).map fun status =>
      { condition, status, updatedAt
        iterations := match data.field? "iterations" with
          | some (.num iterations) => iterations
          | _ => .finite 0
        lastReason := match data.field? "last_reason" with
          | some (.str reason) => some reason
          | _ => none }
  | _, _, _ => none

def GoalSessionEntry.isGoal (entry : GoalSessionEntry) : Bool :=
  entry.type = js "custom" && entry.customType = some goalCustomType

def latestFromEntries (entries : List GoalSessionEntry) : Option GoalState :=
  entries.reverse.findSome? fun entry => if entry.isGoal then entry.data.bind parseGoalState else none

/-- `current` of entries that can be read. -/
def current (entries : List GoalSessionEntry) : Option GoalState :=
  (latestFromEntries entries).filter fun state => state.status ≠ .cleared

end Log

section Commands

inductive GoalCommand where
  | set (condition : JsString)
  | pause
  | resume
  | clear
deriving DecidableEq

/-- The state that a command makes of the goal at a time, absent when it throws. -/
def GoalCommand.state? (goal : Option GoalState) (now : JsString) : GoalCommand → Option GoalState
  | .set condition => some { condition, status := .pursuing, iterations := .finite 0, updatedAt := now }
  | .pause => goal.map fun goal => { goal with status := .paused, updatedAt := now }
  | .resume => goal.bind fun goal =>
    if goal.status = .paused ∨ goal.status = .budgetLimited then
      some { goal with status := .pursuing, updatedAt := now }
    else none
  | .clear =>
    let base := goal.getD { condition := [], status := .cleared, iterations := .finite 0, updatedAt := now }
    some { base with status := .cleared, updatedAt := now }

end Commands

section Evaluation

inductive TurnEndAction where
  | noop
  | stop
  | pause (reason : JsString)
  | continue (prompt : JsString)

/-- What comes of the model call: a decision, or the reason for which there is none. -/
inductive Verdict where
  | decided (ok : Bool) (reason : JsString)
  | failed (reason : JsString)

def continuationPrompt (condition reason : JsString) : JsString :=
  js "The current /goal is not satisfied yet.\n\nGoal condition:\n" ++ condition ++
    js "\n\nGoal evaluator says what is missing or blocking completion:\n" ++ reason ++
    js ("\n\nContinue working toward the goal. Do not claim completion until the transcript contains explicit " ++
      "evidence that satisfies the condition.")

/-- The state that `evaluateStopHook` records, and the action that it returns. -/
def evaluated (initial : GoalState) (now : JsString) : Verdict → GoalState × TurnEndAction
  | .failed reason =>
    ({ initial with status := .paused, lastReason := some reason, updatedAt := now }, .pause reason)
  | .decided ok reason =>
    let state := { initial with iterations := initial.iterations.next, lastReason := some reason, updatedAt := now }
    if ok then ({ state with status := .achieved }, .stop)
    else if state.iterations.atLeast maxContinuations then
      ({ state with status := .budgetLimited },
        .pause (js "goal continuation limit reached (8); resume with /goal resume"))
    else (state, .continue (continuationPrompt state.condition reason))

inductive EvaluationPhase where
  | idle
  | asking (initial : GoalState)
  | recording (state : GoalState) (action : TurnEndAction)
  | returning (action : TurnEndAction)

end Evaluation

/-- A session, the commands that have read the goal and have not recorded their state, and the evaluation. -/
structure GoalSession where
  entries : List GoalSessionEntry := []
  pending : List (GoalCommand × GoalState) := []
  phase : EvaluationPhase := .idle
  decision : Option TurnEndAction := none

/-- A read of the entries may fail, and so may an append. -/
inductive GoalEvent where
  | append (entry : GoalSessionEntry)
  | command (command : GoalCommand) (now : JsString) (readable : Bool)
  | record (command : GoalCommand) (state : GoalState) (ok : Bool)
  | evaluate (readable : Bool)
  | answer (verdict : Verdict) (now : JsString)
  | unavailable
  | persist (ok : Bool)
  | finish

namespace GoalSession

variable (session : GoalSession)

def read (readable : Bool) : Option GoalState := if readable then current session.entries else none

def appendState (state : GoalState) (ok : Bool) : List GoalSessionEntry :=
  if ok then session.entries ++ [state.entry] else session.entries

def step (event : GoalEvent) : Option GoalSession :=
  match event, session.phase with
  | .append entry, _ => if entry.isGoal then none else some { session with entries := session.entries ++ [entry] }
  | .command command now readable, _ =>
    match command.state? (session.read readable) now with
    | none => some session
    | some state => some { session with pending := session.pending ++ [(command, state)] }
  | .record command state ok, _ =>
    if (command, state) ∈ session.pending then
      some { session with
        entries := session.appendState state ok
        pending := session.pending.erase (command, state) }
    else none
  | .evaluate readable, .idle =>
    match session.read readable with
    | none => some { session with phase := .returning .noop }
    | some goal =>
      if goal.status = .pursuing then some { session with phase := .asking goal }
      else some { session with phase := .returning .noop }
  | .answer verdict now, .asking initial =>
    let (state, action) := evaluated initial now verdict
    some { session with phase := .recording state action }
  -- Without a model the hook throws before it asks.
  | .unavailable, .asking _ => some { session with phase := .idle, decision := none }
  | .persist ok, .recording state action =>
    some { session with entries := session.appendState state ok, phase := .returning action }
  | .finish, .returning action => some { session with phase := .idle, decision := some action }
  | _, _ => none

end GoalSession

end PieAgent.Model.Goal
