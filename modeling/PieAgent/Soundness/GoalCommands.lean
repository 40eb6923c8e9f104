import PieAgent.Machine.Core.Labeled
import PieAgent.Model.Session.Goal

/-! # The goal commands of the user against a running evaluation

The evaluation records a copy of the goal that it has read before the model call. The commands of the user win when this
copy is recorded over a goal that is still pursued, or that is paused by the evaluation as well, and has the same condition.
-/

namespace PieAgent.Soundness

open JavaScript Machine Model.Goal

section Property

/-- The condition of the last set command, or of the goal that the session started with. -/
def lastCondition (entries : List GoalSessionEntry) (events : List GoalEvent) : Option JsString :=
  events.foldl (fun last event => match event with
    | .record (.set condition) _ true => some condition
    | _ => last) ((current entries).map (·.condition))

/-- The last command that has been recorded since the evaluation has read the goal. -/
def commandSinceRead? (events : List GoalEvent) : Option GoalCommand :=
  events.foldl (fun last event => match event with
    | .evaluate _ => none
    | .record command _ true => some command
    | _ => last) none

/-- What the user has said of the goal holds after an evaluation. -/
structure UserWins (entries : List GoalSessionEntry) (events : List GoalEvent) (session : GoalSession) : Prop where
  condition : ∀ goal, current session.entries = some goal → lastCondition entries events = some goal.condition
  paused : commandSinceRead? events = some .pause → ∃ goal, current session.entries = some goal ∧ goal.status = .paused
  cleared : commandSinceRead? events = some .clear → current session.entries = none
  rests : commandSinceRead? events = some .pause ∨ commandSinceRead? events = some .clear →
    ∀ prompt, session.decision ≠ some (.continue prompt)

/-- The model call returns to a goal with the condition that was read, which is still pursued unless the call has failed.
While the evaluation records its state no command is recorded, and no pause and no clear before it returns the request to
continue. No goal with another condition is set while a pause or a resume has yet to record its copy. -/
def Undisturbed (session : GoalSession) : GoalEvent → Prop
  | .answer verdict _ => ∀ initial, session.phase = .asking initial →
    ∃ goal, current session.entries = some goal ∧ goal.condition = initial.condition ∧
      (goal.status = .pursuing ∨ ∃ reason, verdict = .failed reason)
  | .record command _ true =>
    (∀ state action, session.phase ≠ .recording state action) ∧
    (∀ prompt, session.phase = .returning (.continue prompt) → command ≠ .pause ∧ command ≠ .clear) ∧
    ∀ condition, command = .set condition → ∀ other ∈ session.pending, other.1 = .pause ∨ other.1 = .resume →
      other.2.condition = condition
  | _ => True

end Property

section Entries

variable {entries : List GoalSessionEntry} {entry : GoalSessionEntry} {state : GoalState}

private theorem parseGoalState_data (state : GoalState) : parseGoalState state.data = some state := by
  obtain ⟨condition, status, iterations, lastReason, updatedAt⟩ := state
  have known : (goalStatuses.find? fun other => other.text = status.text) = some status := by
    cases status with
    | pursuing => decide
    | paused => decide
    | achieved => decide
    | budgetLimited => decide
    | cleared => decide
  cases lastReason with
  | none =>
    show (goalStatuses.find? fun other => other.text = status.text).map _ = _
    rw [known]
    rfl
  | some reason =>
    show (goalStatuses.find? fun other => other.text = status.text).map _ = _
    rw [known]
    rfl

/-- A state that is appended is the goal, unless it is cleared. -/
private theorem current_append (entries : List GoalSessionEntry) (state : GoalState) :
    current (entries ++ [state.entry]) = if state.status = .cleared then none else some state := by
  have latest : latestFromEntries (entries ++ [state.entry]) = some state := by
    have isGoal : state.entry.isGoal = true := rfl
    rw [latestFromEntries, List.reverse_append, List.reverse_singleton, List.singleton_append, List.findSome?_cons,
      if_pos isGoal]
    have parsed : state.entry.data.bind parseGoalState = some state := parseGoalState_data state
    rw [parsed]
  rw [current, latest]
  by_cases cleared : state.status = .cleared
  · simp [cleared]
  · simp [cleared]

private theorem current_append_other (other : entry.isGoal = false) : current (entries ++ [entry]) = current entries := by
  simp [current, latestFromEntries, other]

end Entries

section Runs

variable {entries : List GoalSessionEntry} {past : List GoalEvent} {session next : GoalSession} {event : GoalEvent}

private theorem lastCondition_append (entries : List GoalSessionEntry) (past : List GoalEvent) (event : GoalEvent) :
    lastCondition entries (past ++ [event]) = match event with
      | .record (.set condition) _ true => some condition
      | _ => lastCondition entries past := by
  rw [lastCondition, List.foldl_append]
  rfl

private theorem commandSinceRead?_append (past : List GoalEvent) (event : GoalEvent) :
    commandSinceRead? (past ++ [event]) = match event with
      | .evaluate _ => none
      | .record command _ true => some command
      | _ => commandSinceRead? past := by
  rw [commandSinceRead?, List.foldl_append]
  rfl

/-- The state that a pending command records. -/
private def IsStateOf (last : Option JsString) (state : GoalState) : GoalCommand → Prop
  | .set condition => state.condition = condition ∧ state.status = .pursuing
  | .pause => last = some state.condition ∧ state.status = .paused
  | .resume => last = some state.condition ∧ state.status = .pursuing
  | .clear => state.status = .cleared

/-- What a phase of the evaluation knows of the commands since the read. -/
private def PhaseKnows (last : Option JsString) (since : Option GoalCommand) : EvaluationPhase → Prop
  | .idle => True
  | .asking initial => initial.status = .pursuing
  | .recording state action => last = some state.condition ∧ state.status ≠ .cleared ∧ since ≠ some .clear ∧
    (state.status = .paused ∨ since ≠ some .pause) ∧ ((∃ prompt, action = .continue prompt) → since ≠ some .pause)
  | .returning action => (∃ prompt, action = .continue prompt) → since ≠ some .pause ∧ since ≠ some .clear

private structure GoalInvariant (entries : List GoalSessionEntry) (past : List GoalEvent) (session : GoalSession) : Prop where
  shown : ∀ goal, current session.entries = some goal → lastCondition entries past = some goal.condition
  pending : ∀ command state, (command, state) ∈ session.pending → IsStateOf (lastCondition entries past) state command
  paused : commandSinceRead? past = some .pause → ∃ goal, current session.entries = some goal ∧ goal.status = .paused
  cleared : commandSinceRead? past = some .clear → current session.entries = none
  phase : PhaseKnows (lastCondition entries past) (commandSinceRead? past) session.phase

/-- The event records a command or starts an evaluation. -/
private def tells : GoalEvent → Bool
  | .record _ _ ok => ok
  | .evaluate _ => true
  | _ => false

/-- A step that records no command keeps what is known of the commands. -/
private theorem GoalInvariant.kept (invariant : GoalInvariant entries past session) (quiet : tells event = false)
    (shown : current next.entries = current session.entries)
    (pending : ∀ command state, (command, state) ∈ next.pending → IsStateOf (lastCondition entries past) state command)
    (phase : PhaseKnows (lastCondition entries past) (commandSinceRead? past) next.phase) :
    GoalInvariant entries (past ++ [event]) next := by
  have sameLast : lastCondition entries (past ++ [event]) = lastCondition entries past := by
    rw [lastCondition_append]
    split
    · cases quiet
    · rfl
  have sameSince : commandSinceRead? (past ++ [event]) = commandSinceRead? past := by
    rw [commandSinceRead?_append]
    split
    · cases quiet
    · cases quiet
    · rfl
  constructor
  · rw [shown, sameLast]
    exact invariant.shown
  · rwa [sameLast]
  · rw [shown, sameSince]
    exact invariant.paused
  · rw [shown, sameSince]
    exact invariant.cleared
  · rwa [sameLast, sameSince]

/-- A command makes its state of the goal that it has read. -/
private theorem isStateOf_command {goal : Option GoalState} {last : Option JsString} {command : GoalCommand} {now : JsString}
    {state : GoalState} (read : ∀ state, goal = some state → last = some state.condition)
    (made : command.state? goal now = some state) : IsStateOf last state command := by
  cases command with
  | set condition =>
    cases made
    exact ⟨rfl, rfl⟩
  | pause =>
    obtain ⟨found, isGoal, rfl⟩ := Option.map_eq_some_iff.mp made
    exact ⟨read found isGoal, rfl⟩
  | resume =>
    obtain ⟨found, isGoal, kept⟩ := Option.bind_eq_some_iff.mp made
    obtain ⟨_, same⟩ := Option.ite_none_right_eq_some.mp kept
    cases same
    exact ⟨read found isGoal, rfl⟩
  | clear =>
    cases made
    exact rfl

private theorem shown_of_read {goal : GoalState} {readable : Bool} (read : session.read readable = some goal) :
    current session.entries = some goal := by
  cases readable with
  | true => exact read
  | false => cases read

/-- What the evaluation makes of a goal. -/
private theorem evaluated_spec (initial : GoalState) (now : JsString) (verdict : Verdict) :
    (evaluated initial now verdict).1.condition = initial.condition ∧
      ((evaluated initial now verdict).1.status = .paused ∨ ∃ ok reason, verdict = .decided ok reason) ∧
      ((∃ prompt, (evaluated initial now verdict).2 = .continue prompt) →
        (evaluated initial now verdict).1.status = initial.status ∧ ∃ ok reason, verdict = .decided ok reason) ∧
      (initial.status = .pursuing → (evaluated initial now verdict).1.status ≠ .cleared) := by
  cases verdict with
  | failed reason => exact ⟨rfl, .inl rfl, fun ⟨_, same⟩ => (nomatch same), fun _ => nofun⟩
  | decided ok reason =>
    unfold evaluated
    dsimp only
    split_ifs
    · exact ⟨rfl, .inr ⟨_, _, rfl⟩, fun ⟨_, same⟩ => (nomatch same), fun _ => nofun⟩
    · exact ⟨rfl, .inr ⟨_, _, rfl⟩, fun ⟨_, same⟩ => (nomatch same), fun _ => nofun⟩
    · refine ⟨rfl, .inr ⟨_, _, rfl⟩, fun _ => ⟨rfl, _, _, rfl⟩, fun pursuing cleared => ?_⟩
      rw [pursuing] at cleared
      cases cleared

/-- A command records the state that it has made. -/
private theorem GoalInvariant.record {command : GoalCommand} {state : GoalState}
    (invariant : GoalInvariant entries past session) (undisturbed : Undisturbed session (.record command state true))
    (member : (command, state) ∈ session.pending) :
    GoalInvariant entries (past ++ [GoalEvent.record command state true]) { session with
      entries := session.entries ++ [state.entry]
      pending := session.pending.erase (command, state) } := by
  obtain ⟨notRecording, returning, sets⟩ := undisturbed
  have made := invariant.pending command state member
  have isShown := current_append session.entries state
  have since : commandSinceRead? (past ++ [GoalEvent.record command state true]) = some command :=
    commandSinceRead?_append ..
  constructor
  · intro goal shown
    rw [isShown] at shown
    obtain ⟨notCleared, same⟩ := Option.ite_none_left_eq_some.mp shown
    cases same
    rw [lastCondition_append]
    cases command with
    | set condition => exact congrArg some made.1.symm
    | pause => exact made.1
    | resume => exact made.1
    | clear => exact absurd made notCleared
  · intro other copy isOther
    have before := invariant.pending other copy (List.mem_of_mem_erase isOther)
    rw [lastCondition_append]
    cases command with
    | set condition =>
      have same := sets condition rfl (other, copy) (List.mem_of_mem_erase isOther)
      cases other with
      | set => exact before
      | pause => exact ⟨congrArg some (same (.inl rfl)).symm, before.2⟩
      | resume => exact ⟨congrArg some (same (.inr rfl)).symm, before.2⟩
      | clear => exact before
    | pause => exact before
    | resume => exact before
    | clear => exact before
  · intro pauses
    obtain rfl := Option.some.inj (since.symm.trans pauses)
    have status : state.status = .paused := made.2
    exact ⟨state, by rw [isShown, if_neg (by rw [status]; exact nofun)], status⟩
  · intro clears
    obtain rfl := Option.some.inj (since.symm.trans clears)
    exact isShown.trans (if_pos made)
  · show PhaseKnows _ _ session.phase
    rw [since]
    have known := invariant.phase
    cases phase : session.phase with
    | idle => trivial
    | asking initial => rwa [phase] at known
    | recording state action => exact absurd phase (notRecording state action)
    | returning action =>
      rintro ⟨prompt, rfl⟩
      obtain ⟨notPause, notClear⟩ := returning prompt phase
      exact ⟨fun same => notPause (Option.some.inj same), fun same => notClear (Option.some.inj same)⟩

/-- The evaluation records its state. -/
private theorem GoalInvariant.persist {state : GoalState} {action : TurnEndAction}
    (invariant : GoalInvariant entries past session) (phase : session.phase = .recording state action) (ok : Bool) :
    GoalInvariant entries (past ++ [GoalEvent.persist ok])
      { session with entries := session.appendState state ok, phase := .returning action } := by
  have known := invariant.phase
  rw [phase] at known
  obtain ⟨last, notCleared, sinceClear, pauses, continues⟩ := known
  have sinceLast : lastCondition entries (past ++ [GoalEvent.persist ok]) = lastCondition entries past :=
    lastCondition_append ..
  have since : commandSinceRead? (past ++ [GoalEvent.persist ok]) = commandSinceRead? past :=
    commandSinceRead?_append ..
  have returns : PhaseKnows (lastCondition entries past) (commandSinceRead? past) (.returning action) :=
    fun continue_ => ⟨continues continue_, sinceClear⟩
  cases ok with
  | false => exact invariant.kept rfl rfl invariant.pending returns
  | true =>
    have isShown : current (session.appendState state true) = some state :=
      (current_append session.entries state).trans (if_neg notCleared)
    constructor
    · intro goal shown
      rw [sinceLast]
      cases isShown.symm.trans shown
      exact last
    · rw [sinceLast]
      exact invariant.pending
    · rw [since]
      intro paused
      exact ⟨state, isShown, pauses.resolve_right fun other => other paused⟩
    · rw [since]
      exact fun clears => absurd clears sinceClear
    · rw [sinceLast, since]
      exact returns

/-- The answer of the model comes to a goal that is still the one that was read. -/
private theorem GoalInvariant.answer {initial : GoalState} {verdict : Verdict} {now : JsString}
    (invariant : GoalInvariant entries past session) (undisturbed : Undisturbed session (.answer verdict now))
    (phase : session.phase = .asking initial) :
    GoalInvariant entries (past ++ [GoalEvent.answer verdict now]) { session with
      phase := .recording (evaluated initial now verdict).1 (evaluated initial now verdict).2 } := by
  obtain ⟨goal, shown, same, status⟩ := undisturbed initial phase
  obtain ⟨condition, pauses, continues, cleared⟩ := evaluated_spec initial now verdict
  have known := invariant.phase
  rw [phase] at known
  -- A decision comes to a goal that is pursued, so that the last command was no pause.
  have notPaused (decided : ∃ ok reason, verdict = .decided ok reason) : commandSinceRead? past ≠ some .pause := by
    obtain ⟨ok, reason, rfl⟩ := decided
    have pursued : goal.status = .pursuing := status.resolve_right nofun
    intro paused
    obtain ⟨other, isOther, isPaused⟩ := invariant.paused paused
    cases shown.symm.trans isOther
    cases pursued.symm.trans isPaused
  refine invariant.kept rfl rfl invariant.pending ⟨?_, cleared known, fun clears => ?_, ?_, ?_⟩
  · rw [condition, ← same]
    exact invariant.shown goal shown
  · cases shown.symm.trans (invariant.cleared clears)
  · exact pauses.imp_right notPaused
  · exact fun continue_ => notPaused (continues continue_).2

private theorem GoalInvariant.step (invariant : GoalInvariant entries past session) (undisturbed : Undisturbed session event)
    (stepped : session.step event = some next) : GoalInvariant entries (past ++ [event]) next := by
  unfold GoalSession.step at stepped
  split at stepped
  next entry =>
    split_ifs at stepped with isGoal
    cases stepped
    exact invariant.kept rfl (current_append_other (Bool.eq_false_iff.mpr isGoal)) invariant.pending invariant.phase
  next command now readable =>
    split at stepped
    next => cases stepped; exact invariant.kept rfl rfl invariant.pending invariant.phase
    next state made =>
      cases stepped
      refine invariant.kept rfl rfl (fun other copy member => ?_) invariant.phase
      rcases List.mem_append.mp member with before | new
      · exact invariant.pending other copy before
      · cases List.mem_singleton.mp new
        exact isStateOf_command (fun goal read => invariant.shown goal (shown_of_read read)) made
  next command state ok =>
    split_ifs at stepped with member
    cases stepped
    cases ok with
    | true => exact invariant.record undisturbed member
    | false =>
      exact invariant.kept rfl rfl
        (fun other copy isOther => invariant.pending other copy (List.mem_of_mem_erase isOther)) invariant.phase
  next readable phase =>
    have reads (started : GoalSession) (entriesSame : started.entries = session.entries)
        (pendingSame : started.pending = session.pending)
        (knows : PhaseKnows (lastCondition entries past) none started.phase) :
        GoalInvariant entries (past ++ [GoalEvent.evaluate readable]) started := by
      have since : commandSinceRead? (past ++ [GoalEvent.evaluate readable]) = none := commandSinceRead?_append ..
      have last : lastCondition entries (past ++ [GoalEvent.evaluate readable]) = lastCondition entries past :=
        lastCondition_append ..
      constructor
      · rw [entriesSame, last]
        exact invariant.shown
      · rw [pendingSame, last]
        exact invariant.pending
      · rw [since]
        exact nofun
      · rw [since]
        exact nofun
      · rw [since, last]
        exact knows
    split at stepped
    next => cases stepped; exact reads _ rfl rfl fun ⟨_, same⟩ => nomatch same
    next goal read =>
      split_ifs at stepped with pursuing
      · cases stepped
        exact reads _ rfl rfl pursuing
      · cases stepped
        exact reads _ rfl rfl fun ⟨_, same⟩ => nomatch same
  next verdict now initial phase =>
    cases stepped
    exact invariant.answer undisturbed phase
  next initial phase =>
    cases stepped
    exact invariant.kept rfl rfl invariant.pending trivial
  next ok state action phase =>
    cases stepped
    exact invariant.persist phase ok
  next action phase =>
    cases stepped
    exact invariant.kept rfl rfl invariant.pending trivial
  next => cases stepped

end Runs

private def shipGoal : GoalState where
  condition := js "ship"
  status := .pursuing
  iterations := .finite 0
  updatedAt := js "12:00"

private def clearEvents : List GoalEvent :=
  [.evaluate true, .command .clear (js "12:00") true, .record .clear { shipGoal with status := .cleared } true,
    .answer (.decided false []) [], .persist true, .finish]

private def setEvents : List GoalEvent :=
  [.evaluate true, .command (.set (js "test")) (js "12:00") true,
    .record (.set (js "test")) { shipGoal with condition := js "test" } true,
    .answer (.decided false []) [], .persist true, .finish]

private def continuation? : TurnEndAction → Option JsString
  | .continue prompt => some prompt
  | _ => none

end PieAgent.Soundness
