import Mathlib.Data.List.Basic
import Mathlib.Tactic.Common
import PieAgent.Machine.Core.Labeled

/-! # Asynchronous programs

An asynchronous program runs without interruption from one request to the next. A request is an
`await`: the program pauses there, other programs may run and change the shared state, and it goes on
with an answer that the outside gives. Requests and the types of their answers form an interface.

Loops carry fuel, so that a program is a well-founded tree. A loop without fuel is halted: it never
goes on. Every finite run of a loop is a run with enough fuel.
-/

namespace Async

/-- The requests of a program, and what each of them may be answered with. -/
structure Interface where
  Request : Type
  Answer : Request → Type

/-- A program over a shared state that may throw. -/
inductive Program (I : Interface) (σ ε α : Type) : Type
  | done (outcome : Except ε α)
  | act (change : σ → σ) (next : σ → Program I σ ε α)
  | ask (request : I.Request) (next : I.Answer request → Program I σ ε α)
  | halted

namespace Program

variable {I : Interface} {σ ε α β τ : Type}

def bind : Program I σ ε α → (α → Program I σ ε β) → Program I σ ε β
  | done (.ok value), next => next value
  | done (.error error), _ => done (.error error)
  | act change rest, next => act change fun state => (rest state).bind next
  | ask request rest, next => ask request fun answer => (rest answer).bind next
  | halted, _ => halted

instance : Monad (Program I σ ε) where
  pure value := done (.ok value)
  bind := bind

/-- `throw`. -/
def raise (error : ε) : Program I σ ε α := done (.error error)

/-- Use the shared state. -/
def read (view : σ → α) : Program I σ ε α := act id fun state => done (.ok (view state))

/-- Change the shared state. -/
def update (change : σ → σ) : Program I σ ε Unit := act change fun _ => done (.ok ())

/-- `await` an answer. -/
def request (request : I.Request) : Program I σ ε (I.Answer request) := ask request fun answer => done (.ok answer)

/-- Go on with a value, or throw. -/
def lift (outcome : Except ε α) : Program I σ ε α := done outcome

/-- `try … catch`. -/
def handle : Program I σ ε α → (ε → Program I σ ε α) → Program I σ ε α
  | done (.ok value), _ => done (.ok value)
  | done (.error error), handler => handler error
  | act change rest, handler => act change fun state => (rest state).handle handler
  | ask request rest, handler => ask request fun answer => (rest answer).handle handler
  | halted, _ => halted

/-- `try … finally`. -/
def ensure (body : Program I σ ε α) (cleanup : Program I σ ε Unit) : Program I σ ε α := do
  let value ← body.handle fun error => cleanup.bind fun _ => raise error
  cleanup
  pure value

/-- A loop whose body ends with the next state of the loop or with its result. -/
def loop (body : τ → Program I σ ε (τ ⊕ α)) : ℕ → τ → Program I σ ε α
  | 0, _ => halted
  | fuel + 1, state => do
    match ← body state with
    | .inl next => loop body fuel next
    | .inr value => pure value

/-- Perform an action if a condition holds. -/
def when (condition : Bool) (action : Program I σ ε Unit) : Program I σ ε Unit :=
  if condition then action else pure ()

/-- Perform an action for each item, in order. -/
def each (action : β → Program I σ ε Unit) : List β → Program I σ ε Unit
  | [] => pure ()
  | item :: items => do
    action item
    each action items

/-- Run up to the next request. -/
def run : Program I σ ε α → σ → Program I σ ε α × σ
  | act change rest, state => (rest state).run (change state)
  | program, state => (program, state)

theorem bind_eq (first : Program I σ ε α) (next : α → Program I σ ε β) : first >>= next = first.bind next := rfl

theorem map_eq (change : α → β) (program : Program I σ ε α) :
    change <$> program = program >>= fun value => pure (change value) := rfl

end Program

end Async

/-! ## Pools of asynchronous programs

A pool runs several programs over one shared state. A call starts a program, which runs up to its
first request; later the outside answers the request of one program, which runs up to its next one.
Between two events nothing runs, so the order of the events is the order in which the programs
interleave.
-/

namespace Async

variable {I : Interface} {σ ε α κ : Type}

/-- A call and what is left of its program. -/
structure Thread (I : Interface) (σ ε α κ : Type) where
  call : κ
  program : Program I σ ε α

structure Pool (I : Interface) (σ ε α κ : Type) where
  shared : σ
  threads : List (Thread I σ ε α κ)

/-- A call is made, or the request of a thread is answered. -/
inductive Pool.Event (I : Interface) (κ : Type) where
  | begin (call : κ)
  | resume (thread : ℕ) (answers : ∀ request, I.Answer request)

/-- Perform an event; absent when there is no request to answer. -/
def Pool.step? (entry : κ → Program I σ ε α) (pool : Pool I σ ε α κ) :
    Pool.Event I κ → Option (Pool I σ ε α κ)
  | .begin call =>
    let (program, shared) := (entry call).run pool.shared
    some ⟨shared, pool.threads ++ [⟨call, program⟩]⟩
  | .resume index answers =>
    match pool.threads[index]? with
    | some ⟨call, .ask request next⟩ =>
      let (program, shared) := (next (answers request)).run pool.shared
      some ⟨shared, pool.threads.set index ⟨call, program⟩⟩
    | _ => none

/-- A thread that is answered was waiting, and the answer is what its program goes on with. -/
theorem Pool.step?_resume {entry : κ → Program I σ ε α} {pool next : Pool I σ ε α κ} {index : ℕ}
    {answers : ∀ request, I.Answer request}
    (stepped : pool.step? entry (.resume index answers) = some next) :
    ∃ call request rest, pool.threads[index]? = some ⟨call, .ask request rest⟩ ∧
      next = ⟨((rest (answers request)).run pool.shared).2,
        pool.threads.set index ⟨call, ((rest (answers request)).run pool.shared).1⟩⟩ := by
  simp only [Pool.step?] at stepped
  split at stepped
  · next call request rest found => exact ⟨call, request, rest, found, (Option.some.inj stepped).symm⟩
  · cases stepped

/-- A run of a pool. -/
abbrev Pool.run? (entry : κ → Program I σ ε α) (pool : Pool I σ ε α κ) (events : List (Pool.Event I κ)) :
    Option (Pool I σ ε α κ) :=
  Machine.run? (Pool.step? entry) pool events

end Async

/-! ## What a program does

A complete run of a program leaves a trail: the requests with their answers and the changes of the shared state. Between
two steps others may change the state in any way.
-/

namespace Async

/-- One step of a run. -/
inductive Step (I : Interface) (σ : Type)
  | asked (request : I.Request) (answer : I.Answer request)
  | changed (before after : σ)

namespace Program

variable {I : Interface} {σ ε α β : Type}

/-- The trail of every complete run satisfies a condition. -/
def EveryTrail (holds : List (Step I σ) → Prop) : Program I σ ε α → Prop
  | done _ => holds []
  | act change next => ∀ state, (next state).EveryTrail fun trail => holds (.changed state (change state) :: trail)
  | ask request next => ∀ answer, (next answer).EveryTrail fun trail => holds (.asked request answer :: trail)
  | halted => holds []

variable {holds : List (Step I σ) → Prop}

@[simp] theorem everyTrail_done (outcome : Except ε α) :
    (done outcome : Program I σ ε α).EveryTrail holds ↔ holds [] := Iff.rfl

@[simp] theorem everyTrail_pure (value : α) : (pure value : Program I σ ε α).EveryTrail holds ↔ holds [] := Iff.rfl

@[simp] theorem everyTrail_read_bind (view : σ → α) (next : α → Program I σ ε β) :
    (read view >>= next).EveryTrail holds ↔
      ∀ state, (next (view state)).EveryTrail fun trail => holds (.changed state state :: trail) := Iff.rfl

/-- Weakening of the condition. -/
theorem EveryTrail.mono {weaker : List (Step I σ) → Prop} {program : Program I σ ε α} (every : program.EveryTrail holds)
    (implies : ∀ trail, holds trail → weaker trail) : program.EveryTrail weaker := by
  induction program generalizing holds weaker with
  | done outcome => exact implies [] every
  | act change next ih => exact fun state => ih state (every state) fun trail => implies _
  | ask request next ih => exact fun answer => ih answer (every answer) fun trail => implies _
  | halted => exact implies [] every

theorem EveryTrail.of_forall {program : Program I σ ε α} (all : ∀ trail, holds trail) : program.EveryTrail holds := by
  induction program generalizing holds with
  | done outcome => exact all []
  | act change next ih => exact fun state => ih _ fun trail => all _
  | ask request next ih => exact fun answer => ih _ fun trail => all _
  | halted => exact all []

end Program

end Async

/-! ## The outcomes of asynchronous programs

A program yields an outcome when some answers to its requests, in some shared states at its reads, lead
it there. What holds of every outcome that a program yields holds of its result in every run of every
pool, whatever the other threads do.
-/

namespace Async

variable {I : Interface} {σ ε α β τ κ : Type}

/-- Some answers and some shared states lead the program to the outcome. -/
def Program.Yields : Program I σ ε α → Except ε α → Prop
  | done reached, outcome => reached = outcome
  | act _ next, outcome => ∃ state, (next state).Yields outcome
  | ask _ next, outcome => ∃ answer, (next answer).Yields outcome
  | halted, _ => False

@[simp] theorem yields_pure {value : α} {outcome : Except ε α} :
    (pure value : Program I σ ε α).Yields outcome ↔ .ok value = outcome := Iff.rfl

@[simp] theorem yields_lift {reached outcome : Except ε α} :
    (Program.lift reached : Program I σ ε α).Yields outcome ↔ reached = outcome := Iff.rfl

/-- A sequence yields a value that its second part yields from a value of its first part. -/
theorem yields_bind {program : Program I σ ε α} {next : α → Program I σ ε β} {value : β} :
    (program >>= next).Yields (.ok value) ↔
      ∃ middle, program.Yields (.ok middle) ∧ (next middle).Yields (.ok value) := by
  rw [Program.bind_eq]
  induction program with
  | done outcome => cases outcome <;> simp [Program.bind, Program.Yields]
  | act change rest ih => simp only [Program.bind, Program.Yields, ih, exists_and_right, exists_comm (α := σ)]
  | ask request rest ih => simp only [Program.bind, Program.Yields, ih, exists_and_right, exists_comm (β := α)]
  | halted => simp [Program.bind, Program.Yields]

theorem yields_map {program : Program I σ ε α} {change : α → β} {value : β} :
    (change <$> program).Yields (.ok value) ↔ ∃ middle, program.Yields (.ok middle) ∧ change middle = value := by
  rw [Program.map_eq, yields_bind]
  simp

/-- What the body of a loop keeps holds where the loop ends. -/
theorem yields_loop {body : τ → Program I σ ε (τ ⊕ α)} (holds : τ → Prop) {ends : α → Prop}
    (next : ∀ state later, holds state → (body state).Yields (.ok (.inl later)) → holds later)
    (last : ∀ state value, holds state → (body state).Yields (.ok (.inr value)) → ends value)
    {fuel : ℕ} {start : τ} (initially : holds start) {value : α}
    (yields : (Program.loop body fuel start).Yields (.ok value)) : ends value := by
  induction fuel generalizing start with
  | zero => cases yields
  | succ fuel ih =>
    obtain ⟨step, stepped, rest⟩ := (yields_bind).mp yields
    cases step with
    | inl later => exact ih (next start later initially stepped) rest
    | inr other =>
      cases rest
      exact last start value initially stepped

/-- What a program yields after it has run for a while it yields. -/
theorem Program.Yields.of_run {program : Program I σ ε α} {state : σ} {outcome : Except ε α}
    (yields : (program.run state).1.Yields outcome) : program.Yields outcome := by
  induction program generalizing state with
  | done reached => exact yields
  | act change next ih => exact ⟨state, ih state yields⟩
  | ask request next ih => exact yields
  | halted => exact yields

/-- What the threads of a pool yield is what the programs of their calls yield. -/
def Pool.Traceable (entry : κ → Program I σ ε α) (pool : Pool I σ ε α κ) : Prop :=
  ∀ thread ∈ pool.threads, ∀ outcome, thread.program.Yields outcome → (entry thread.call).Yields outcome

theorem Pool.Traceable.step {entry : κ → Program I σ ε α} {pool next : Pool I σ ε α κ} {event : Pool.Event I κ}
    (traceable : pool.Traceable entry) (stepped : pool.step? entry event = some next) : next.Traceable entry := by
  intro thread member outcome yields
  cases event with
  | begin call =>
    cases stepped
    rcases List.mem_append.mp member with old | new
    · exact traceable thread old outcome yields
    · obtain rfl := List.mem_singleton.mp new
      exact yields.of_run
  | resume index answers =>
    obtain ⟨call, request, rest, found, rfl⟩ := Pool.step?_resume stepped
    rcases List.mem_or_eq_of_mem_set member with old | rfl
    · exact traceable thread old outcome yields
    · exact traceable _ (List.mem_of_getElem? found) outcome ⟨answers request, yields.of_run⟩

/-- The outcome of a thread, in any run of any pool, is one that the program of its call yields. -/
theorem Pool.run?_yields {entry : κ → Program I σ ε α} {shared : σ} {events : List (Pool.Event I κ)}
    {final : Pool I σ ε α κ} (run : (⟨shared, []⟩ : Pool I σ ε α κ).run? entry events = some final) {call : κ}
    {outcome : Except ε α} (settled : ⟨call, .done outcome⟩ ∈ final.threads) : (entry call).Yields outcome := by
  have traceable : final.Traceable entry :=
    Machine.run?_preserves (Pool.Traceable entry) (fun _ _ _ holds stepped => holds.step stepped)
      (fun thread member => absurd member List.not_mem_nil) run
  exact traceable _ settled outcome rfl

end Async
