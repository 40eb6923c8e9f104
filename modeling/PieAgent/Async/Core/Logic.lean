import Mathlib.Algebra.Group.Basic
import PieAgent.Async.Core.Program

/-! # A logic of shares for asynchronous programs

Every thread of a pool owns a share, an element of a commutative monoid, and one invariant relates the
shared state to the sum of all shares. `wp` says that a program, from a state and with the shares of
the others as a frame, keeps the invariant whenever it pauses, whatever the others do meanwhile, and
ends with the postcondition. A discipline also restricts which answers and which calls are considered.

A pool whose calls all satisfy their `wp` keeps the invariant in every run that the discipline permits.
-/

namespace Async

variable {I : Interface} {σ ε α β τ κ γ : Type} [AddCommMonoid γ]

/-- The invariant of the shares and the state, and the events that are considered. -/
structure Discipline (I : Interface) (σ κ γ : Type) where
  invariant : γ → σ → Prop
  allowed : σ → (request : I.Request) → I.Answer request → Prop
  admits : σ → κ → Prop

variable (discipline : Discipline I σ κ γ)

/-- From the state and in the frame, the program keeps the invariant and rests only where `rests`
allows it: at a request, or halted. At its end the postcondition holds of the outcome. -/
def Program.wp (rests : Option I.Request → γ → Prop) (post : Except ε α → γ → σ → Prop) :
    Program I σ ε α → γ → σ → Prop
  | done outcome, frame, state => post outcome frame state
  | act change next, frame, state => (next state).wp rests post frame (change state)
  | ask request next, frame, state =>
    ∃ share, rests (some request) share ∧ discipline.invariant (share + frame) state ∧
      ∀ answer frame state, discipline.invariant (share + frame) state →
        discipline.allowed state request answer → (next answer).wp rests post frame state
  | halted, frame, state => ∃ share, rests none share ∧ discipline.invariant (share + frame) state

/-- The thread rests with a share: what it does from here on it does well. -/
def Program.Rests (rests : Option I.Request → γ → Prop) (settles : Except ε α → γ → Prop) (share : γ) :
    Program I σ ε α → Prop
  | .done outcome => settles outcome share
  | .act _ _ => False
  | .ask request next => rests (some request) share ∧
    ∀ answer frame state, discipline.invariant (share + frame) state →
      discipline.allowed state request answer →
        (next answer).wp discipline rests
          (fun outcome frame state => ∃ share, settles outcome share ∧ discipline.invariant (share + frame) state)
          frame state
  | .halted => rests none share

variable {discipline} {rests : Option I.Request → γ → Prop} {post : Except ε α → γ → σ → Prop} {frame : γ} {state : σ}

section Rules

@[simp] theorem wp_pure (value : α) :
    (pure value : Program I σ ε α).wp discipline rests post frame state ↔ post (.ok value) frame state := Iff.rfl

@[simp] theorem wp_lift (outcome : Except ε α) :
    (Program.lift outcome : Program I σ ε α).wp discipline rests post frame state ↔ post outcome frame state := Iff.rfl

@[simp] theorem wp_update {post : Except ε Unit → γ → σ → Prop} (change : σ → σ) :
    (Program.update change : Program I σ ε Unit).wp discipline rests post frame state ↔
      post (.ok ()) frame (change state) := Iff.rfl

/-- Weakening of the postcondition. -/
theorem Program.wp.mono {program : Program I σ ε α} {other : Except ε α → γ → σ → Prop}
    (weaker : ∀ outcome frame state, post outcome frame state → other outcome frame state)
    (holds : program.wp discipline rests post frame state) : program.wp discipline rests other frame state := by
  induction program generalizing frame state with
  | done outcome => exact weaker _ _ _ holds
  | act change next ih => exact ih state holds
  | ask request next ih =>
    obtain ⟨share, resting, kept, goesOn⟩ := holds
    exact ⟨share, resting, kept, fun answer frame state kept allowed => ih answer (goesOn answer frame state kept allowed)⟩
  | halted => exact holds

/-- What a sequence has to ensure at the end of its first part. -/
def Follows (discipline : Discipline I σ κ γ) (rests : Option I.Request → γ → Prop)
    (post : Except ε β → γ → σ → Prop) (next : α → Program I σ ε β) : Except ε α → γ → σ → Prop
  | .ok value, frame, state => (next value).wp discipline rests post frame state
  | .error error, frame, state => post (.error error) frame state

@[simp] theorem follows_ok {post : Except ε β → γ → σ → Prop} {next : α → Program I σ ε β} (value : α) :
    Follows discipline rests post next (.ok value) frame state ↔
      (next value).wp discipline rests post frame state := Iff.rfl

@[simp] theorem wp_bind {post : Except ε β → γ → σ → Prop} (program : Program I σ ε α)
    (next : α → Program I σ ε β) : (program >>= next).wp discipline rests post frame state ↔
      program.wp discipline rests (Follows discipline rests post next) frame state := by
  rw [Program.bind_eq]
  induction program generalizing frame state with
  | done outcome => cases outcome <;> exact Iff.rfl
  | act change rest ih => exact ih state
  | ask request rest ih =>
    exact exists_congr fun share => and_congr Iff.rfl (and_congr Iff.rfl (forall_congr' fun answer =>
      forall₄_congr fun frame state _ _ => ih answer))
  | halted => exact Iff.rfl

/-- What a `try` block has to ensure at its end. -/
def Catches (discipline : Discipline I σ κ γ) (rests : Option I.Request → γ → Prop)
    (post : Except ε α → γ → σ → Prop) (handler : ε → Program I σ ε α) : Except ε α → γ → σ → Prop
  | .ok value, frame, state => post (.ok value) frame state
  | .error error, frame, state => (handler error).wp discipline rests post frame state

@[simp] theorem wp_handle (program : Program I σ ε α) (handler : ε → Program I σ ε α) :
    (program.handle handler).wp discipline rests post frame state ↔
      program.wp discipline rests (Catches discipline rests post handler) frame state := by
  induction program generalizing frame state with
  | done outcome => cases outcome <;> exact Iff.rfl
  | act change rest ih => exact ih state
  | ask request rest ih =>
    exact exists_congr fun share => and_congr Iff.rfl (and_congr Iff.rfl (forall_congr' fun answer =>
      forall₄_congr fun frame state _ _ => ih answer))
  | halted => exact Iff.rfl

/-- An `await` with a share of one's own choice. -/
theorem wp_request {request : I.Request} {post : Except ε (I.Answer request) → γ → σ → Prop} (share : γ)
    (resting : rests (some request) share) (kept : discipline.invariant (share + frame) state)
    (goesOn : ∀ answer frame state, discipline.invariant (share + frame) state →
      discipline.allowed state request answer → post (.ok answer) frame state) :
    (Program.request request : Program I σ ε (I.Answer request)).wp discipline rests post frame state :=
  ⟨share, resting, kept, goesOn⟩

/-- What the body of a loop has to ensure at its end. -/
def Iterates (holds : τ → γ → σ → Prop) (post : Except ε α → γ → σ → Prop) : Except ε (τ ⊕ α) → γ → σ → Prop
  | .ok (.inl next), frame, state => holds next frame state
  | .ok (.inr value), frame, state => post (.ok value) frame state
  | .error error, frame, state => post (.error error) frame state

/-- A loop keeps its own invariant, and where its fuel ends a share is left. -/
theorem wp_loop {body : τ → Program I σ ε (τ ⊕ α)} (holds : τ → γ → σ → Prop)
    (leaves : ∀ next frame state, holds next frame state →
      ∃ share, rests none share ∧ discipline.invariant (share + frame) state)
    (once : ∀ next frame state, holds next frame state →
      (body next).wp discipline rests (Iterates holds post) frame state)
    (fuel : ℕ) {start : τ} (initially : holds start frame state) :
    (Program.loop body fuel start).wp discipline rests post frame state := by
  induction fuel generalizing start frame state with
  | zero => exact leaves start frame state initially
  | succ fuel ih =>
    rw [Program.loop, wp_bind]
    refine (once start frame state initially).mono fun outcome frame state ends => ?_
    cases outcome with
    | error error => exact ends
    | ok result =>
      cases result with
      | inl next => exact ih ends
      | inr value => exact ends

end Rules

section Keeping

variable (discipline rests) in
/-- The program holds one share throughout, and its errors are among those that `fails` names. -/
def Program.Keeps (share : γ) (fails : ε → Prop) (program : Program I σ ε α) : Prop :=
  ∀ frame state, discipline.invariant (share + frame) state →
    program.wp discipline rests (fun outcome frame state =>
      (∀ error, outcome = .error error → fails error) ∧ discipline.invariant (share + frame) state) frame state

variable {share : γ} {fails : ε → Prop}

theorem keeps_pure (value : α) : (pure value : Program I σ ε α).Keeps discipline rests share fails :=
  fun _ _ kept => ⟨nofun, kept⟩

theorem keeps_lift {outcome : Except ε α} (failing : ∀ error, outcome = .error error → fails error) :
    (Program.lift outcome : Program I σ ε α).Keeps discipline rests share fails :=
  fun _ _ kept => ⟨failing, kept⟩

theorem keeps_read (view : σ → α) : (Program.read view : Program I σ ε α).Keeps discipline rests share fails :=
  fun _ _ kept => ⟨nofun, kept⟩

theorem keeps_update {change : σ → σ}
    (kept : ∀ frame state, discipline.invariant (share + frame) state →
      discipline.invariant (share + frame) (change state)) :
    (Program.update change : Program I σ ε Unit).Keeps discipline rests share fails :=
  fun frame state holds => ⟨nofun, kept frame state holds⟩

/-- A sequence whose first part asks something, with what an allowed answer says. -/
theorem keeps_ask {request : I.Request} {next : I.Answer request → Program I σ ε α}
    (resting : rests (some request) share)
    (goesOn : ∀ answer state, discipline.allowed state request answer →
      (next answer).Keeps discipline rests share fails) :
    (Program.request request >>= next).Keeps discipline rests share fails := by
  intro frame state kept
  rw [wp_bind]
  exact wp_request share resting kept fun answer frame state kept allowed => goesOn answer state allowed frame state kept

theorem keeps_request {request : I.Request} (resting : rests (some request) share) :
    (Program.request request : Program I σ ε (I.Answer request)).Keeps discipline rests share fails :=
  fun _ _ kept => wp_request share resting kept fun _ _ _ kept _ => ⟨nofun, kept⟩

theorem keeps_bind {program : Program I σ ε α} {next : α → Program I σ ε β}
    (first : program.Keeps discipline rests share fails)
    (goesOn : ∀ value, (next value).Keeps discipline rests share fails) :
    (program >>= next).Keeps discipline rests share fails := by
  intro frame state kept
  rw [wp_bind]
  refine (first frame state kept).mono fun outcome frame state ends => ?_
  cases outcome with
  | error error => exact ⟨fun other same => ends.1 other (by cases same; rfl), ends.2⟩
  | ok value => exact goesOn value frame state ends.2

theorem keeps_map {program : Program I σ ε α} {change : α → β}
    (first : program.Keeps discipline rests share fails) :
    (change <$> program).Keeps discipline rests share fails :=
  keeps_bind first fun value => keeps_pure (change value)

theorem keeps_when {condition : Bool} {action : Program I σ ε Unit}
    (kept : action.Keeps discipline rests share fails) :
    (Program.when condition action).Keeps discipline rests share fails := by
  unfold Program.when
  split
  · exact kept
  · exact keeps_pure ()

theorem keeps_each {action : β → Program I σ ε Unit} (items : List β)
    (once : ∀ item ∈ items, (action item).Keeps discipline rests share fails) :
    (Program.each action items).Keeps discipline rests share fails := by
  induction items with
  | nil => exact keeps_pure ()
  | cons item items ih =>
    apply keeps_bind (once item List.mem_cons_self)
    exact fun _ => ih fun other member => once other (List.mem_cons_of_mem _ member)

theorem keeps_loop {body : τ → Program I σ ε (τ ⊕ α)} (resting : rests none share)
    (once : ∀ next, (body next).Keeps discipline rests share fails) (fuel : ℕ) (start : τ) :
    (Program.loop body fuel start).Keeps discipline rests share fails := by
  intro frame state kept
  refine wp_loop (fun _ frame state => discipline.invariant (share + frame) state)
    (fun _ _ _ kept => ⟨share, resting, kept⟩) (fun next frame state kept => ?_) fuel kept
  refine (once next frame state kept).mono fun outcome frame state ends => ?_
  cases outcome with
  | error error => exact ⟨fun other same => ends.1 other (by cases same; rfl), ends.2⟩
  | ok result =>
    cases result with
    | inl later => exact ends.2
    | inr value => exact ⟨nofun, ends.2⟩

end Keeping

section Soundness

variable {settles : Except ε α → γ → Prop}

/-- A program that satisfies its `wp` runs up to a place where it may rest. -/
theorem Program.wp.run {program : Program I σ ε α}
    (holds : program.wp discipline rests
      (fun outcome frame state => ∃ share, settles outcome share ∧ discipline.invariant (share + frame) state)
      frame state) :
    ∃ share, (program.run state).1.Rests discipline rests settles share ∧
      discipline.invariant (share + frame) (program.run state).2 := by
  induction program generalizing state with
  | done outcome => exact holds
  | act change next ih => exact ih state holds
  | ask request next ih =>
    obtain ⟨share, resting, kept, goesOn⟩ := holds
    exact ⟨share, ⟨resting, goesOn⟩, kept⟩
  | halted => exact holds

variable (discipline) in
/-- The shares of the threads add up to the total. -/
inductive Accounted (rests : κ → Option I.Request → γ → Prop) (settles : κ → Except ε α → γ → Prop) :
    List (Thread I σ ε α κ) → γ → Prop
  | nil : Accounted rests settles [] 0
  | cons {thread : Thread I σ ε α κ} {threads : List (Thread I σ ε α κ)} {share total : γ} :
    thread.program.Rests discipline (rests thread.call) (settles thread.call) share →
      Accounted rests settles threads total → Accounted rests settles (thread :: threads) (share + total)

variable {rests : κ → Option I.Request → γ → Prop} {settles : κ → Except ε α → γ → Prop}
  {thread other : Thread I σ ε α κ} {threads : List (Thread I σ ε α κ)} {share total : γ} {index : ℕ}

/-- A thread can be replaced by another one with its own share. -/
theorem Accounted.exchange (accounted : Accounted discipline rests settles threads total)
    (found : threads[index]? = some thread) :
    ∃ share frame, total = share + frame ∧
      thread.program.Rests discipline (rests thread.call) (settles thread.call) share ∧
      ∀ other share, other.program.Rests discipline (rests other.call) (settles other.call) share →
        Accounted discipline rests settles (threads.set index other) (share + frame) := by
  induction accounted generalizing index with
  | nil => cases found
  | @cons first threads share total resting accounted ih =>
    cases index with
    | zero =>
      cases found
      exact ⟨share, total, rfl, resting, fun other share resting => .cons resting accounted⟩
    | succ index =>
      obtain ⟨own, frame, rfl, owned, exchange⟩ := ih found
      refine ⟨own, share + frame, add_left_comm share own frame, owned, fun other own resting' => ?_⟩
      rw [add_left_comm]
      exact .cons resting (exchange other own resting')

theorem Accounted.concat (accounted : Accounted discipline rests settles threads total)
    (resting : thread.program.Rests discipline (rests thread.call) (settles thread.call) share) :
    Accounted discipline rests settles (threads ++ [thread]) (share + total) := by
  induction accounted with
  | nil => exact .cons resting .nil
  | @cons first threads own total owned _ ih =>
    rw [add_left_comm]
    exact .cons owned ih

variable (discipline rests settles) in
/-- All threads rest, and the invariant holds of the sum of their shares. -/
def Pool.Sound (pool : Pool I σ ε α κ) : Prop :=
  ∃ total, Accounted discipline rests settles pool.threads total ∧ discipline.invariant total pool.shared

variable (discipline) in
/-- The events that the discipline considers. -/
def Pool.Permitted (pool : Pool I σ ε α κ) : Pool.Event I κ → Prop
  | .begin call => discipline.admits pool.shared call
  | .resume index answers => ∀ call request next, pool.threads[index]? = some ⟨call, .ask request next⟩ →
    discipline.allowed pool.shared request (answers request)

variable (discipline rests settles) in
/-- The program of every call keeps the invariant. -/
def Disciplined (entry : κ → Program I σ ε α) : Prop :=
  ∀ call frame state, discipline.invariant frame state → discipline.admits state call →
    (entry call).wp discipline (rests call)
      (fun outcome frame state => ∃ share, settles call outcome share ∧ discipline.invariant (share + frame) state)
      frame state

variable {entry : κ → Program I σ ε α}

/-- A permitted event keeps a pool sound. -/
theorem Pool.Sound.step (disciplined : Disciplined discipline rests settles entry)
    {pool next : Pool I σ ε α κ} {event : Pool.Event I κ} (sound : pool.Sound discipline rests settles)
    (permitted : pool.Permitted discipline event) (stepped : pool.step? entry event = some next) :
    next.Sound discipline rests settles := by
  obtain ⟨total, accounted, kept⟩ := sound
  cases event with
  | begin call =>
    cases stepped
    obtain ⟨share, resting, kept⟩ := (disciplined call total pool.shared kept permitted).run
    exact ⟨share + total, accounted.concat resting, kept⟩
  | resume index answers =>
    obtain ⟨call, request, rest, found, rfl⟩ := Pool.step?_resume stepped
    obtain ⟨share, frame, rfl, resting, exchange⟩ := accounted.exchange found
    have allowed := permitted call request rest found
    obtain ⟨share, resting, kept⟩ := (resting.2 (answers request) frame pool.shared kept allowed).run
    exact ⟨share + frame, exchange _ share resting, kept⟩

/-- A permitted run keeps a pool sound. -/
theorem Pool.Sound.run (disciplined : Disciplined discipline rests settles entry)
    {pool final : Pool I σ ε α κ} {events : List (Pool.Event I κ)} (sound : pool.Sound discipline rests settles)
    (permitted : Machine.Meets (Pool.step? entry) (Pool.Permitted discipline) pool events)
    (run : pool.run? entry events = some final) : final.Sound discipline rests settles :=
  Machine.run?_invariant (Pool.Sound discipline rests settles)
    (fun _ _ _ sound permitted stepped => sound.step disciplined permitted stepped) sound permitted run

/-- A pool without threads is sound where the invariant holds without shares. -/
theorem Pool.Sound.initial {shared : σ} (holds : discipline.invariant 0 shared) :
    (⟨shared, []⟩ : Pool I σ ε α κ).Sound discipline rests settles :=
  ⟨0, .nil, holds⟩

/-- What is known of a thread of a sound pool. -/
theorem Pool.Sound.get {pool : Pool I σ ε α κ} (sound : pool.Sound discipline rests settles)
    (found : pool.threads[index]? = some thread) :
    ∃ share frame, thread.program.Rests discipline (rests thread.call) (settles thread.call) share ∧
      discipline.invariant (share + frame) pool.shared := by
  obtain ⟨total, accounted, kept⟩ := sound
  obtain ⟨share, frame, rfl, resting, _⟩ := accounted.exchange found
  exact ⟨share, frame, resting, kept⟩

end Soundness

end Async
