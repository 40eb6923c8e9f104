import Mathlib.Data.List.Basic
import Mathlib.Data.List.Dedup
import Mathlib.Tactic.Common

/-! # Computations that log and may throw

A traced computation returns an outcome together with the observations it made, in order. A throw
ends it but keeps the observations made so far. `all` runs several computations as one: each logs its
observations as a block, in the order in which the computations settle.
-/

namespace Effects

structure Traced (ε ω α : Type) where
  outcome : Except ε α
  trace : List ω

namespace Traced

variable {ε ω α β : Type}

/-- A computation without observations. -/
def lift (outcome : Except ε α) : Traced ε ω α := ⟨outcome, []⟩

def bind (first : Traced ε ω α) (next : α → Traced ε ω β) : Traced ε ω β :=
  match first.outcome with
  | .error error => ⟨.error error, first.trace⟩
  | .ok value => ⟨(next value).outcome, first.trace ++ (next value).trace⟩

instance : Monad (Traced ε ω) where
  pure value := lift (.ok value)
  bind := bind

/-- Call something outside and log the call with its answer. -/
def call (observe : Except ε α → ω) (answer : Except ε α) : Traced ε ω α := ⟨answer, [observe answer]⟩

/-- Make observations. -/
def log (observations : List ω) : Traced ε ω Unit := ⟨.ok (), observations⟩

/-- `try … catch`. -/
def handle (body : Traced ε ω α) (handler : ε → Traced ε ω α) : Traced ε ω α :=
  match body.outcome with
  | .error error => ⟨(handler error).outcome, body.trace ++ (handler error).trace⟩
  | .ok value => ⟨.ok value, body.trace⟩

/-- The order in which `count` computations settle, given a preference. -/
def settleOrder (preference : List ℕ) (count : ℕ) : List ℕ :=
  (preference ++ List.range count).dedup.filter (· < count)

/-- `Promise.all`: the first failure in settling order wins, otherwise all values in their own order. -/
def all (preference : List ℕ) (tasks : List (Traced ε ω α)) : Traced ε ω (List α) :=
  let settled := (settleOrder preference tasks.length).filterMap fun index => tasks[index]?
  { outcome :=
      match settled.findSome? fun task => match task.outcome with
        | .error error => some error
        | .ok _ => none with
      | some error => .error error
      | none => tasks.mapM (·.outcome)
    trace := settled.flatMap (·.trace) }

@[simp] theorem outcome_pure (value : α) : (pure value : Traced ε ω α).outcome = .ok value := rfl

@[simp] theorem trace_pure (value : α) : (pure value : Traced ε ω α).trace = [] := rfl

@[simp] theorem outcome_lift (outcome : Except ε α) : (lift outcome : Traced ε ω α).outcome = outcome := rfl

@[simp] theorem trace_lift (outcome : Except ε α) : (lift outcome : Traced ε ω α).trace = [] := rfl

@[simp] theorem outcome_call (observe : Except ε α → ω) (answer : Except ε α) :
    (call observe answer).outcome = answer := rfl

@[simp] theorem trace_call (observe : Except ε α → ω) (answer : Except ε α) :
    (call observe answer).trace = [observe answer] := rfl

@[simp] theorem outcome_log (observations : List ω) : (log observations : Traced ε ω Unit).outcome = .ok () := rfl

@[simp] theorem trace_log (observations : List ω) : (log observations : Traced ε ω Unit).trace = observations := rfl

theorem call_error_bind (observe : Except ε α → ω) (error : ε) (next : α → Traced ε ω β) :
    (call observe (.error error) >>= next) = ⟨.error error, [observe (.error error)]⟩ := rfl

theorem call_ok_bind (observe : Except ε α → ω) (value : α) (next : α → Traced ε ω β) :
    (call observe (.ok value) >>= next) = ⟨(next value).outcome, observe (.ok value) :: (next value).trace⟩ := rfl

theorem lift_ok_bind (value : α) (next : α → Traced ε ω β) : (lift (.ok value) >>= next) = next value := rfl

theorem log_bind (observations : List ω) (next : Unit → Traced ε ω β) :
    (log observations >>= next) = ⟨(next ()).outcome, observations ++ (next ()).trace⟩ := rfl

/-- A successful sequence ran its first part to a value and its second part on that value. -/
theorem bind_ok {first : Traced ε ω α} {next : α → Traced ε ω β} {result : β}
    (success : (first >>= next).outcome = .ok result) :
    ∃ value, first.outcome = .ok value ∧ (next value).outcome = .ok result ∧
      (first >>= next).trace = first.trace ++ (next value).trace := by
  obtain ⟨outcome, trace⟩ := first
  cases outcome with
  | error error => cases success
  | ok value => exact ⟨value, rfl, success, rfl⟩

/-- A sequence throws what its first part throws, or what its second part throws after it. -/
theorem outcome_bind_error {first : Traced ε ω α} {next : α → Traced ε ω β} {error : ε} :
    (first >>= next).outcome = .error error ↔
      first.outcome = .error error ∨ ∃ value, first.outcome = .ok value ∧ (next value).outcome = .error error := by
  obtain ⟨outcome, trace⟩ := first
  cases outcome with
  | error other => exact ⟨fun same => Or.inl (by cases same; rfl), fun or => by
      rcases or with same | ⟨value, ok, _⟩
      · cases same
        rfl
      · cases ok⟩
  | ok value => exact ⟨fun same => Or.inr ⟨value, rfl, same⟩, fun or => by
      rcases or with same | ⟨other, ok, thrown⟩
      · cases same
      · cases ok
        exact thrown⟩

/-- A sequence returns a value when its second part returns it for a value of the first part. -/
theorem outcome_bind_ok {first : Traced ε ω α} {next : α → Traced ε ω β} {result : β} :
    (first >>= next).outcome = .ok result ↔
      ∃ value, first.outcome = .ok value ∧ (next value).outcome = .ok result := by
  constructor
  · intro success
    obtain ⟨value, reached, finished, _⟩ := bind_ok success
    exact ⟨value, reached, finished⟩
  · rintro ⟨value, reached, finished⟩
    obtain ⟨outcome, trace⟩ := first
    cases reached
    exact finished

/-- The trace of a sequence extends the trace of its first part by a trace of its second part, if any. -/
theorem trace_bind_cases (first : Traced ε ω α) (next : α → Traced ε ω β) :
    (first >>= next).trace = first.trace ∨
      ∃ value, first.outcome = .ok value ∧ (first >>= next).trace = first.trace ++ (next value).trace := by
  obtain ⟨outcome, trace⟩ := first
  cases outcome with
  | error error => exact Or.inl rfl
  | ok value => exact Or.inr ⟨value, rfl, rfl⟩

/-- A handled computation returns what its body returns, or what the handler makes of its error. -/
theorem handle_ok {body : Traced ε ω α} {handler : ε → Traced ε ω α} {value : α}
    (success : (handle body handler).outcome = .ok value) :
    (body.outcome = .ok value ∧ (handle body handler).trace = body.trace) ∨
      ∃ error, body.outcome = .error error ∧ (handler error).outcome = .ok value := by
  obtain ⟨outcome, trace⟩ := body
  cases outcome with
  | error error => exact Or.inr ⟨error, rfl, success⟩
  | ok other => exact Or.inl ⟨success, rfl⟩

/-- No observation of the computation satisfies `bad`. -/
def Avoids (bad : ω → Prop) (computation : Traced ε ω α) : Prop := ∀ seen ∈ computation.trace, ¬ bad seen

section Avoids

variable {bad : ω → Prop}

theorem Avoids.pure (value : α) : Avoids bad (pure value : Traced ε ω α) := by simp [Avoids]

theorem Avoids.lift (outcome : Except ε α) : Avoids bad (lift outcome : Traced ε ω α) := by simp [Avoids]

theorem Avoids.call {observe : Except ε α → ω} {answer : Except ε α} (good : ¬ bad (observe answer)) :
    Avoids bad (call observe answer) := by
  simpa [Avoids] using good

theorem Avoids.bind {first : Traced ε ω α} {next : α → Traced ε ω β} (start : Avoids bad first)
    (rest : ∀ value, first.outcome = .ok value → Avoids bad (next value)) : Avoids bad (first >>= next) := by
  rcases trace_bind_cases first next with same | ⟨value, ok, same⟩
  · exact fun seen member => start seen (same ▸ member)
  · intro seen member
    rcases List.mem_append.mp (same ▸ member) with before | after
    · exact start seen before
    · exact rest value ok seen after

theorem Avoids.handle {body : Traced ε ω α} {handler : ε → Traced ε ω α} (start : Avoids bad body)
    (rest : ∀ error, Avoids bad (handler error)) : Avoids bad (handle body handler) := by
  unfold Traced.handle
  split
  · next error _ =>
    intro seen member
    rcases List.mem_append.mp member with before | after
    · exact start seen before
    · exact rest error seen after
  · exact start

theorem Avoids.all {preference : List ℕ} {tasks : List (Traced ε ω α)} (each : ∀ task ∈ tasks, Avoids bad task) :
    Avoids bad (all preference tasks) := by
  intro seen member
  obtain ⟨task, settled, member⟩ := List.mem_flatMap.mp member
  obtain ⟨index, _, found⟩ := List.mem_filterMap.mp settled
  exact each task (List.mem_of_getElem? found) seen member

end Avoids

/-- Every observation is allowed after the observations before it, `earlier` ones included. -/
def Guarded (allowed : List ω → ω → Prop) (earlier : List ω) (computation : Traced ε ω α) : Prop :=
  ∀ before seen after, computation.trace = before ++ seen :: after → allowed (earlier ++ before) seen

section Guarded

variable {allowed : List ω → ω → Prop} {earlier : List ω}

theorem Guarded.of_avoids {bad : ω → Prop} {computation : Traced ε ω α} (good : Avoids bad computation)
    (harmless : ∀ earlier seen, ¬ bad seen → allowed earlier seen) : Guarded allowed earlier computation :=
  fun before seen after split => harmless _ _ (good seen (by simp [split]))

theorem Guarded.log {observations : List ω}
    (permitted : ∀ more, ∀ seen ∈ observations, allowed (earlier ++ more) seen) :
    Guarded allowed earlier (log observations : Traced ε ω Unit) :=
  fun before seen after split => permitted before seen (by rw [trace_log] at split; simp [split])

/-- A sequence is guarded when its parts are, the second one after the observations of the first. -/
theorem Guarded.bind {first : Traced ε ω α} {next : α → Traced ε ω β} (start : Guarded allowed earlier first)
    (rest : ∀ value, first.outcome = .ok value → Guarded allowed (earlier ++ first.trace) (next value)) :
    Guarded allowed earlier (first >>= next) := by
  intro before seen after split
  rcases trace_bind_cases first next with same | ⟨value, ok, same⟩
  · exact start before seen after (same ▸ split)
  · rw [same, List.append_eq_append_iff] at split
    rcases split with ⟨between, rfl, tail⟩ | ⟨between, head, tail⟩
    · simpa using rest value ok between seen after tail
    · cases between with
      | nil =>
        have permitted := rest value ok [] seen after (by simpa using tail.symm)
        simpa [head] using permitted
      | cons other between =>
        obtain ⟨rfl, rfl⟩ := List.cons.inj tail
        exact start before _ between head

end Guarded

/-- When all computations succeed as one, each of them succeeded with its value. -/
theorem all_ok {preference : List ℕ} {tasks : List (Traced ε ω α)} {values : List α}
    (success : (all preference tasks).outcome = .ok values) :
    List.Forall₂ (fun task value => task.outcome = .ok value) tasks values := by
  unfold all at success
  dsimp only at success
  split at success
  · cases success
  · clear * - success
    induction tasks generalizing values with
    | nil =>
      cases success
      exact .nil
    | cons task tasks ih =>
      rw [List.mapM_cons] at success
      cases first : task.outcome with
      | error error => simp [first, Bind.bind, Except.bind] at success
      | ok value =>
        cases rest : tasks.mapM (·.outcome) with
        | error error => simp [first, rest, Bind.bind, Except.bind] at success
        | ok others =>
          simp only [first, rest, Bind.bind, Except.bind, Pure.pure, Except.pure, Except.ok.injEq] at success
          subst success
          exact .cons first (ih rest)

private theorem mapM_ok {tasks : List (Traced ε ω α)} {values : List α}
    (each : List.Forall₂ (fun task value => task.outcome = .ok value) tasks values) :
    tasks.mapM (·.outcome) = .ok values := by
  induction each with
  | nil => rfl
  | cons first _ ih =>
    rw [List.mapM_cons, first, ih]
    rfl

/-- Computations succeed as one exactly when each of them does. -/
theorem all_ok_iff {preference : List ℕ} {tasks : List (Traced ε ω α)} {values : List α} :
    (all preference tasks).outcome = .ok values ↔
      List.Forall₂ (fun task value => task.outcome = .ok value) tasks values := by
  refine ⟨all_ok, fun each => ?_⟩
  have fine : ∀ task ∈ tasks, ∃ value, task.outcome = .ok value := by
    intro task member
    obtain ⟨index, inside, rfl⟩ := List.getElem_of_mem member
    exact ⟨_, (List.forall₂_iff_get.mp each).2 index inside (by rw [← each.length_eq]; exact inside)⟩
  unfold all
  dsimp only
  rw [List.findSome?_eq_none_iff.mpr]
  · exact mapM_ok each
  · intro task settled
    obtain ⟨index, _, found⟩ := List.mem_filterMap.mp settled
    obtain ⟨value, same⟩ := fine task (List.mem_of_getElem? found)
    rw [same]

end Traced

end Effects
