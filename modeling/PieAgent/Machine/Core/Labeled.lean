import Mathlib.Data.List.Basic
import Mathlib.Tactic.Common

/-! # Labeled machines and their runs

A labeled machine is a partial step function: an event is refused in a state or leads to the next
state. A run performs a list of events. `Meets` says that every event of a run satisfies a condition
in the state it happens in; an invariant that conditional steps keep holds after conditional runs,
and conversely a damage that no later step repairs shows that a run was not conditional.
-/

namespace Machine

variable {σ ε : Type}

/-- Perform events in order; the result is absent when one of them is refused. -/
def run? (step : σ → ε → Option σ) : σ → List ε → Option σ
  | state, [] => some state
  | state, event :: events => (step state event).bind fun next => run? step next events

/-- Every event of a run satisfies the condition in the state it happens in. -/
def Meets (step : σ → ε → Option σ) (condition : σ → ε → Prop) : σ → List ε → Prop
  | _, [] => True
  | state, event :: events =>
    condition state event ∧ ∀ next, step state event = some next → Meets step condition next events

variable {step : σ → ε → Option σ} {condition : σ → ε → Prop} {initial final : σ} {event : ε} {events more : List ε}

@[simp] theorem run?_nil : run? step initial [] = some initial := rfl

theorem run?_cons : run? step initial (event :: events) = some final ↔
    ∃ next, step initial event = some next ∧ run? step next events = some final :=
  Option.bind_eq_some_iff

/-- Runs compose at their shared endpoint. -/
theorem run?_append : run? step initial (events ++ more) = some final ↔
    ∃ middle, run? step initial events = some middle ∧ run? step middle more = some final := by
  induction events generalizing initial with
  | nil => simp
  | cons event events ih =>
    simp only [List.cons_append, run?_cons, ih]
    constructor
    · rintro ⟨next, stepped, middle, run, rest⟩
      exact ⟨middle, ⟨next, stepped, run⟩, rest⟩
    · rintro ⟨middle, ⟨next, stepped, run⟩, rest⟩
      exact ⟨next, stepped, middle, run, rest⟩

@[simp] theorem meets_nil : Meets step condition initial [] := trivial

/-- A condition that always holds is met by every run. -/
theorem meets_of_forall (always : ∀ state event, condition state event) : Meets step condition initial events := by
  induction events generalizing initial with
  | nil => exact meets_nil
  | cons event events ih => exact ⟨always initial event, fun _ _ => ih⟩

theorem Meets.tail {next : σ} (meets : Meets step condition initial (event :: events))
    (stepped : step initial event = some next) : Meets step condition next events :=
  meets.2 next stepped

/-- A run that takes a step meets the condition if the step and the rest of the run do. -/
theorem Meets.cons (holds : condition initial event) (isSome : (step initial event).isSome)
    (rest : Meets step condition ((step initial event).get isSome) events) :
    Meets step condition initial (event :: events) := by
  refine ⟨holds, fun next stepped => ?_⟩
  have same : (step initial event).get isSome = next := Option.get_of_eq_some isSome stepped
  exact same ▸ rest

/-- A run that meets the condition may be followed by an event that does. -/
theorem Meets.concat (meets : Meets step condition initial events)
    (last : ∀ final, run? step initial events = some final → condition final event) :
    Meets step condition initial (events ++ [event]) := by
  induction events generalizing initial with
  | nil => exact ⟨last initial rfl, fun _ _ => meets_nil⟩
  | cons head events ih =>
    refine ⟨meets.1, fun next stepped => ih (meets.2 next stepped) fun final run => last final ?_⟩
    exact (run?_cons).mpr ⟨next, stepped, run⟩

/-- The events behind a run meet the condition from its end on. -/
theorem Meets.after {middle : σ} (meets : Meets step condition initial (events ++ more))
    (run : run? step initial events = some middle) : Meets step condition middle more := by
  induction events generalizing initial with
  | nil =>
    cases run
    exact meets
  | cons event events ih =>
    obtain ⟨next, stepped, rest⟩ := (run?_cons).mp run
    exact ih (meets.tail stepped) rest

/-- The first events of a conditional run meet the condition. -/
theorem Meets.before (meets : Meets step condition initial (events ++ more)) : Meets step condition initial events := by
  induction events generalizing initial with
  | nil => exact meets_nil
  | cons event events ih => exact ⟨meets.1, fun next stepped => ih (meets.2 next stepped)⟩

/-- What conditional steps preserve, given the events so far, holds after a conditional run. -/
theorem run?_history (invariant : List ε → σ → Prop)
    (preserved : ∀ past state event next, invariant past state → condition state event → step state event = some next →
      invariant (past ++ [event]) next)
    {past : List ε} (holds : invariant past initial) (meets : Meets step condition initial events)
    (run : run? step initial events = some final) : invariant (past ++ events) final := by
  induction events generalizing past initial with
  | nil =>
    cases run
    rwa [List.append_nil]
  | cons event events ih =>
    obtain ⟨next, stepped, rest⟩ := (run?_cons).mp run
    have done := ih (preserved past initial event next holds meets.1 stepped) (meets.tail stepped) rest
    rwa [List.append_assoc] at done

/-- What conditional steps preserve holds after a conditional run. -/
theorem run?_invariant (invariant : σ → Prop)
    (preserved : ∀ state event next, invariant state → condition state event → step state event = some next →
      invariant next)
    (holds : invariant initial) (meets : Meets step condition initial events)
    (run : run? step initial events = some final) : invariant final := by
  induction events generalizing initial with
  | nil =>
    cases run
    exact holds
  | cons event events ih =>
    obtain ⟨next, stepped, rest⟩ := (run?_cons).mp run
    exact ih (preserved initial event next holds meets.1 stepped) (meets.tail stepped) rest

/-- What every step preserves holds after every run. -/
theorem run?_preserves (invariant : σ → Prop)
    (preserved : ∀ state event next, invariant state → step state event = some next → invariant next)
    (holds : invariant initial) (run : run? step initial events = some final) : invariant final := by
  induction events generalizing initial with
  | nil =>
    cases run
    exact holds
  | cons event events ih =>
    obtain ⟨next, stepped, rest⟩ := (run?_cons).mp run
    exact ih (preserved initial event next holds stepped) rest

/-- An event that always takes less work than it leaves can only be repeated so often. -/
theorem exists_exhausted (work : σ → ℕ) (decreases : ∀ state next, step state event = some next → work next < work state)
    (state : σ) : ∃ count final, run? step state (List.replicate count event) = some final ∧ step final event = none := by
  generalize left : work state = measure
  induction measure using Nat.strongRecOn generalizing state with
  | _ measure ih =>
    cases stepped : step state event with
    | none => exact ⟨0, state, rfl, stepped⟩
    | some next =>
      obtain ⟨count, final, run, stuck⟩ := ih (work next) (left ▸ decreases state next stepped) next rfl
      exact ⟨count + 1, final, (run?_cons).mpr ⟨next, stepped, run⟩, stuck⟩

/-- A run met the condition when every unconditional step does damage that no later step repairs, and
none is found at the end. -/
theorem meets_of_undamaged {invariant damaged : σ → Prop}
    (preserved : ∀ state event next, invariant state → step state event = some next → invariant next)
    (breaks : ∀ state event next, invariant state → step state event = some next → ¬ condition state event →
      damaged next)
    (lasts : ∀ state event next, invariant state → damaged state → step state event = some next → damaged next)
    (holds : invariant initial) (run : run? step initial events = some final) (undamaged : ¬ damaged final) :
    Meets step condition initial events := by
  induction events generalizing initial with
  | nil => exact meets_nil
  | cons event events ih =>
    obtain ⟨next, stepped, rest⟩ := (run?_cons).mp run
    have holdsNext := preserved initial event next holds stepped
    refine ⟨?_, fun other same => ?_⟩
    · by_contra violated
      have both : invariant final ∧ damaged final :=
        run?_preserves (fun state => invariant state ∧ damaged state)
          (fun state event next now stepped =>
            ⟨preserved state event next now.1 stepped, lasts state event next now.1 now.2 stepped⟩)
          ⟨holdsNext, breaks initial event next holds stepped violated⟩ rest
      exact undamaged both.2
    · obtain rfl : next = other := Option.some.inj (stepped.symm.trans same)
      exact ih holdsNext rest

/-- When a conditional step is one that keeps a fact, the fact holds in every state of a run exactly when the run meets
the condition. -/
theorem forall_take_iff_meets {invariant holds : σ → Prop}
    (preserved : ∀ state event next, invariant state → step state event = some next → invariant next)
    (keeps : ∀ state event next, invariant state → holds state → step state event = some next →
      (holds next ↔ condition state event))
    (initially : invariant initial) (holdsInitially : holds initial) (run : run? step initial events = some final) :
    (∀ n state, run? step initial (events.take n) = some state → holds state) ↔
      Meets step condition initial events := by
  induction events generalizing initial with
  | nil =>
    refine iff_of_true (fun n state reached => ?_) meets_nil
    rw [List.take_nil] at reached
    cases reached
    exact holdsInitially
  | cons event events ih =>
    obtain ⟨next, stepped, rest⟩ := (run?_cons).mp run
    have invariantNext := preserved initial event next initially stepped
    have keep := keeps initial event next initially holdsInitially stepped
    constructor
    · intro always
      have holdsNext : holds next := always 1 next ((run?_cons).mpr ⟨next, stepped, rfl⟩)
      refine ⟨keep.mp holdsNext, fun other same => ?_⟩
      obtain rfl : next = other := Option.some.inj (stepped.symm.trans same)
      exact (ih invariantNext holdsNext rest).mp fun n state reached =>
        always (n + 1) state ((run?_cons).mpr ⟨next, stepped, reached⟩)
    · intro meets n state reached
      cases n with
      | zero =>
        cases reached
        exact holdsInitially
      | succ n =>
        obtain ⟨other, same, reached⟩ := (run?_cons).mp reached
        obtain rfl : next = other := Option.some.inj (stepped.symm.trans same)
        exact (ih invariantNext (keep.mpr meets.1) rest).mpr (meets.tail stepped) n state reached

end Machine

/-! ## Machines that come to rest between inputs

A machine takes steps of its own until none is left, and an input reaches it only when it rests. A machine
that steps back to where it was never rests, and no input reaches it any more.
-/

namespace Machine

variable {σ ι : Type} {step : σ → Option σ} {feed : σ → ι → σ} {state next rested : σ}

/-- So many steps. -/
def steps? (step : σ → Option σ) : ℕ → σ → Option σ
  | 0, state => some state
  | count + 1, state => (step state).bind (steps? step count)

theorem steps?_succ (count : ℕ) : steps? step (count + 1) state = (step state).bind (steps? step count) := rfl

/-- After finitely many steps the machine rests. -/
def Settles (step : σ → Option σ) (state rested : σ) : Prop :=
  ∃ count, steps? step count state = some rested ∧ step rested = none

/-- The machine rests before each of the inputs, and after the last. -/
def Fed (step : σ → Option σ) (feed : σ → ι → σ) : σ → List ι → σ → Prop
  | state, [], final => Settles step state final
  | state, input :: inputs, final => ∃ rested, Settles step state rested ∧ Fed step feed (feed rested input) inputs final

theorem settles_of_rest (rests : step state = none) : Settles step state rested ↔ rested = state := by
  constructor
  · rintro ⟨count, ran, _⟩
    cases count with
    | zero => exact (Option.some.inj ran).symm
    | succ count =>
      rw [steps?_succ, rests] at ran
      cases ran
  · rintro rfl
    exact ⟨0, rfl, rests⟩

theorem settles_of_step (stepped : step state = some next) : Settles step state rested ↔ Settles step next rested := by
  constructor
  · rintro ⟨count, ran, rests⟩
    cases count with
    | zero =>
      obtain rfl := Option.some.inj ran
      rw [stepped] at rests
      cases rests
    | succ count =>
      rw [steps?_succ, stepped] at ran
      exact ⟨count, ran, rests⟩
  · rintro ⟨count, ran, rests⟩
    refine ⟨count + 1, ?_, rests⟩
    rw [steps?_succ, stepped]
    exact ran

/-- A machine whose step changes nothing takes it forever. -/
theorem not_settles_of_loop (loops : step state = some state) : ¬Settles step state rested := by
  rintro ⟨count, ran, rests⟩
  have stays : steps? step count state = some state := by
    clear ran
    induction count with
    | zero => rfl
    | succ count ih => rw [steps?_succ, loops]; exact ih
  rw [stays] at ran
  obtain rfl := Option.some.inj ran
  rw [loops] at rests
  cases rests

/-- A machine comes to rest in one state. -/
theorem Settles.unique {other : σ} (settles : Settles step state rested) (also : Settles step state other) :
    rested = other := by
  obtain ⟨count, ran, rests⟩ := settles
  induction count generalizing state with
  | zero =>
    obtain rfl := Option.some.inj ran
    exact ((settles_of_rest rests).mp also).symm
  | succ count ih =>
    cases stepped : step state with
    | none =>
      rw [steps?_succ, stepped] at ran
      cases ran
    | some next =>
      rw [steps?_succ, stepped] at ran
      exact ih ((settles_of_step stepped).mp also) ran

theorem Settles.rest (settles : Settles step state rested) : Settles step rested rested :=
  settles.elim fun _ ran => ⟨0, rfl, ran.2⟩

/-- Inputs reach a machine where it has come to rest. -/
theorem Settles.fed_iff {inputs : List ι} {final : σ} (settles : Settles step state rested) :
    Fed step feed state inputs final ↔ Fed step feed rested inputs final := by
  cases inputs with
  | nil =>
    constructor
    · intro fed
      exact settles.unique fed ▸ settles.rest
    · intro fed
      exact settles.rest.unique fed ▸ settles
  | cons input inputs =>
    constructor
    · rintro ⟨middle, fed, rest⟩
      exact ⟨middle, settles.unique fed ▸ settles.rest, rest⟩
    · rintro ⟨middle, fed, rest⟩
      exact ⟨middle, settles.rest.unique fed ▸ settles, rest⟩

theorem not_fed_of_not_settles {inputs : List ι} {final : σ} (never : ∀ rested, ¬Settles step state rested) :
    ¬Fed step feed state inputs final := by
  cases inputs with
  | nil => exact never final
  | cons input inputs =>
    rintro ⟨rested, settles, _⟩
    exact never rested settles

end Machine
