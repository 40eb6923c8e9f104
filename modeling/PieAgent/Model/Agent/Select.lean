import PieAgent.Machine.Core.Labeled

/-! # Queues and selects

An `AsyncQueue` hands a pushed item to its first waiter or buffers it. `selectN` and `selectBiased`
race branches against each other; a branch awaits `next` of a queue, or settles from outside (a timeout,
an abort, any other promise). A promise that settles goes through the microtask queue before the select
decides: its own hops, then the callbacks of the select. Only when it decides are the losers aborted.

Microtasks run in order. Anything else may happen between two of them, as other microtasks may do it.
Each queue keeps what was pushed and who took it, which no operation reads.
-/

namespace PieAgent.Model

/-- Who waits at a queue: a consumer of its own, or a branch of a select. -/
inductive Waiter where
  | consumer (id : ℕ)
  | branch (select index : ℕ)
deriving DecidableEq

/-- How a branch settles: with an item of its queue, with any other value, or with an error. -/
inductive Settlement (T : Type) where
  | item (value : T)
  | other
  | rejected

structure AsyncQueue (T : Type) where
  buffer : List T := []
  waiters : List Waiter := []
  closed : Bool := false
  pushed : List T := []
  taken : List (T × Waiter) := []

variable {T : Type}

/-- `push`, with the waiter that gets the value. -/
def AsyncQueue.push (queue : AsyncQueue T) (value : T) : AsyncQueue T × Option Waiter :=
  if queue.closed then (queue, none)
  else match queue.waiters with
    | waiter :: waiters =>
      ({ queue with
          waiters, pushed := queue.pushed ++ [value], taken := queue.taken ++ [(value, waiter)] }, some waiter)
    | [] => ({ queue with buffer := queue.buffer ++ [value], pushed := queue.pushed ++ [value] }, none)

/-- `next`, with what it resolves to at once; a signal that has not fired makes no difference. -/
def AsyncQueue.next (queue : AsyncQueue T) (waiter : Waiter) : AsyncQueue T × Option (Settlement T) :=
  match queue.buffer with
  | value :: buffer => ({ queue with buffer, taken := queue.taken ++ [(value, waiter)] }, some (.item value))
  | [] => if queue.closed then (queue, some .other) else ({ queue with waiters := queue.waiters ++ [waiter] }, none)

/-- `onAbort`; each waiter is a closure of its own. -/
def AsyncQueue.release (queue : AsyncQueue T) (waiter : Waiter) : AsyncQueue T :=
  { queue with waiters := queue.waiters.filter (· ≠ waiter) }

/-- `close`, with the waiters that get `undefined`. -/
def AsyncQueue.close (queue : AsyncQueue T) : AsyncQueue T × List Waiter :=
  if queue.closed then (queue, []) else ({ queue with closed := true, waiters := [] }, queue.waiters)

/-- What a branch awaits, and the microtasks between its promise and the callbacks of the select. -/
inductive BranchSource where
  | queue (index hops : ℕ)
  | external (hops : ℕ)

def BranchSource.hops : BranchSource → ℕ
  | queue _ hops | external hops => hops

structure SelectBranch (T : Type) where
  source : BranchSource
  settled : Option (Settlement T) := none

/-- A select: `raced` is the outcome that `Promise.race` has taken, `recorded` are the outcomes that
`selectBiased` has recorded. -/
structure Select (T : Type) where
  biased : Bool
  branches : List (SelectBranch T)
  raced : Option ℕ := none
  recorded : List ℕ := []
  checkScheduled : Bool := false
  winner : Option ℕ := none

inductive Microtask where
  /-- A hop of the promise of a branch; after the last one comes the callback of `then`. -/
  | relay (select branch hops : ℕ)
  /-- The reaction of `Promise.race` to an outcome. -/
  | race (select branch : ℕ)
  /-- `selectN` goes on behind its `await`. -/
  | resume (select : ℕ)
  /-- `commitIfReady`. -/
  | check (select : ℕ)

structure SelectState (T : Type) where
  queues : List (AsyncQueue T)
  selects : List (Select T) := []
  microtasks : List Microtask := []

namespace SelectState

def branch? (state : SelectState T) (select index : ℕ) : Option (SelectBranch T) := do
  let found ← state.selects[select]?
  found.branches[index]?

/-- The winner of a select that has decided. -/
def winner? (state : SelectState T) (select : ℕ) : Option ℕ := do
  let found ← state.selects[select]?
  found.winner

def enqueue (state : SelectState T) (microtask : Microtask) : SelectState T :=
  { state with microtasks := state.microtasks ++ [microtask] }

/-- The promise of a branch settles, once. -/
def settle (state : SelectState T) (select index : ℕ) (settlement : Settlement T) : SelectState T :=
  match state.selects[select]? with
  | none => state
  | some found =>
    match found.branches[index]? with
    | none => state
    | some branch =>
      if branch.settled.isSome then state
      else
        let branches := found.branches.set index { branch with settled := some settlement }
        { state with selects := state.selects.set select { found with branches } }.enqueue
          (.relay select index branch.source.hops)

/-- Whoever waits is resolved. -/
def notify (state : SelectState T) (settlement : Settlement T) : Waiter → SelectState T
  | .consumer _ => state
  | .branch select index => state.settle select index settlement

/-- `next` of a queue. -/
def next (state : SelectState T) (index : ℕ) (waiter : Waiter) : SelectState T :=
  match state.queues[index]? with
  | none => state
  | some queue =>
    let (queue, settlement) := queue.next waiter
    let state := { state with queues := state.queues.set index queue }
    match settlement with
    | some settlement => state.notify settlement waiter
    | none => state

def push (state : SelectState T) (index : ℕ) (value : T) : SelectState T :=
  match state.queues[index]? with
  | none => state
  | some queue =>
    let (queue, waiter) := queue.push value
    let state := { state with queues := state.queues.set index queue }
    match waiter with
    | some waiter => state.notify (.item value) waiter
    | none => state

def close (state : SelectState T) (index : ℕ) : SelectState T :=
  match state.queues[index]? with
  | none => state
  | some queue =>
    let (queue, waiters) := queue.close
    waiters.foldl (fun state waiter => state.notify .other waiter)
      { state with queues := state.queues.set index queue }

/-- `run` of a branch: a branch that awaits a queue calls `next`. -/
def enter (state : SelectState T) (select : ℕ) (entry : BranchSource × ℕ) : SelectState T :=
  match entry.1 with
  | .queue index _ => state.next index (.branch select entry.2)
  | .external _ => state

/-- A select starts: its branches run in the order of their declaration. -/
def start (state : SelectState T) (biased : Bool) (sources : List BranchSource) : SelectState T :=
  sources.zipIdx.foldl (fun started entry => started.enter state.selects.length entry)
    { state with selects := state.selects ++ [{ biased, branches := sources.map fun source => { source } }] }

/-- The signal of a branch fires: a waiter leaves its queue and its promise rejects. -/
def abortBranch (state : SelectState T) (select index : ℕ) : SelectState T :=
  match state.branch? select index with
  | some { source := .queue queue _, settled := none } =>
    { state with queues := state.queues.modify queue (·.release (.branch select index)) }.settle select index .rejected
  | _ => state

/-- A select decides: every branch but the winner is aborted. -/
def decideFor (state : SelectState T) (select winner : ℕ) : SelectState T :=
  match state.selects[select]? with
  | none => state
  | some found =>
    ((List.range found.branches.length).filter (· ≠ winner)).foldl (fun state index => state.abortBranch select index)
      { state with selects := state.selects.set select { found with winner := some winner } }

/-- The callback of `then` on the promise of a branch. -/
def onSettled (state : SelectState T) (select index : ℕ) : SelectState T :=
  match state.selects[select]? with
  | none => state
  | some found =>
    if !found.biased then state.enqueue (.race select index)
    else if found.winner.isSome || index ∈ found.recorded then state
    else
      let found := { found with recorded := found.recorded ++ [index] }
      if found.checkScheduled then { state with selects := state.selects.set select found }
      else { state with selects := state.selects.set select { found with checkScheduled := true } }.enqueue (.check select)

/-- `Promise.race` takes the first outcome. -/
def onRaced (state : SelectState T) (select index : ℕ) : SelectState T :=
  match state.selects[select]? with
  | none => state
  | some found =>
    if found.raced.isSome then state
    else { state with selects := state.selects.set select { found with raced := some index } }.enqueue (.resume select)

/-- `selectN` behind its `await`. -/
def onResumed (state : SelectState T) (select : ℕ) : SelectState T :=
  match state.selects[select]? with
  | none => state
  | some found =>
    match found.raced with
    | none => state
    | some winner => state.decideFor select winner

/-- `commitIfReady`: the first recorded outcome in the order of declaration wins. -/
def commitIfReady (state : SelectState T) (select : ℕ) : SelectState T :=
  match state.selects[select]? with
  | none => state
  | some found =>
    let state := { state with selects := state.selects.set select { found with checkScheduled := false } }
    if found.winner.isSome then state
    else match (List.range found.branches.length).find? (· ∈ found.recorded) with
      | none => state
      | some winner => state.decideFor select winner

def runMicrotask (state : SelectState T) : Microtask → SelectState T
  | .relay select index (hops + 1) => state.enqueue (.relay select index hops)
  | .relay select index 0 => state.onSettled select index
  | .race select index => state.onRaced select index
  | .resume select => state.onResumed select
  | .check select => state.commitIfReady select

inductive Event (T : Type) where
  | push (queue : ℕ) (value : T)
  | close (queue : ℕ)
  /-- A consumer of its own calls `next`. -/
  | consume (queue id : ℕ)
  | select (biased : Bool) (sources : List BranchSource)
  /-- A branch that awaits no queue settles, with a value or with an error. -/
  | settle (select index : ℕ) (fulfilled : Bool)
  | microtask

/-- Perform an event; absent when nothing of the kind can happen. -/
def step? (state : SelectState T) : Event T → Option (SelectState T)
  | .push queue value => if queue < state.queues.length then some (state.push queue value) else none
  | .close queue => if queue < state.queues.length then some (state.close queue) else none
  | .consume queue id => if queue < state.queues.length then some (state.next queue (.consumer id)) else none
  | .select biased sources => if sources.isEmpty then none else some (state.start biased sources)
  | .settle select index fulfilled =>
    match state.branch? select index with
    | some { source := .external _, settled := none } =>
      some (state.settle select index (if fulfilled then .other else .rejected))
    | _ => none
  | .microtask =>
    match state.microtasks with
    | [] => none
    | microtask :: microtasks => some ({ state with microtasks }.runMicrotask microtask)

/-- Open and empty queues, without selects. -/
def opened (T : Type) (count : ℕ) : SelectState T := { queues := List.replicate count {} }

end SelectState

end PieAgent.Model
