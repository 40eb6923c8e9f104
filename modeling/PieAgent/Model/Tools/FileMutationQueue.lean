import PieAgent.Async.Core.Promises
import PieAgent.JavaScript.Core.Maps
import PieAgent.JavaScript.Core.Strings
import PieAgent.Machine.Core.Labeled

/-! # The queue of mutations of a file

`withFileMutationQueue` runs a body behind the earlier calls for the same file. A call takes the promise
that the map holds for the file as the one to wait for, and puts in its place one that is fulfilled when
that promise is and the call has released its own. The last call of a file removes its entry.

A step is a call up to its `await`, a microtask, or what a call does when its body has ended. Bodies end
in any order, each with a value or with an error, and calls arrive at any time.
-/

namespace PieAgent.Model

open JavaScript Async

/-- The promises of the calls: what `Promise.resolve()` gives one, its `nextQueue` and its `chainedQueue`. -/
inductive QueuePromise where
  | resolved (call : ℕ)
  | next (call : ℕ)
  | chained (call : ℕ)
deriving DecidableEq

/-- Where a call is: behind its `await`, in its body, or behind its `finally`. -/
inductive CallPhase (T : Type) where
  | waiting
  | running
  | finished (outcome : Except JsString T)

structure MutationCall (T : Type) where
  key : JsString
  currentQueue : QueuePromise
  phase : CallPhase T := .waiting

structure MutationState (T : Type) where
  fileMutationQueues : JsMap JsString QueuePromise := .empty
  calls : List (MutationCall T) := []
  promises : Promises QueuePromise ℕ := {}

/-- The real path of a file, or its resolved path when it has none. -/
def getMutationQueueKey (resolvedPath : JsString) (realpath : Except JsString JsString) : JsString :=
  match realpath with
  | .ok path => path
  | .error _ => resolvedPath

inductive MutationEvent (T : Type) where
  | call (resolvedPath : JsString) (realpath : Except JsString JsString)
  | microtask
  | bodyEnds (call : ℕ) (outcome : Except JsString T)

namespace MutationState

variable {T : Type}

def setPhase (state : MutationState T) (call : ℕ) (phase : CallPhase T) : MutationState T :=
  { state with calls := state.calls.modify call fun found => { found with phase } }

/-- `withFileMutationQueue` up to its `await`. -/
def withFileMutationQueue (state : MutationState T) (key : JsString) : MutationState T :=
  let call := state.calls.length
  let (currentQueue, promises) := match state.fileMutationQueues.get? key with
    | some queue => (queue, state.promises)
    | none => (.resolved call, state.promises.fulfil (.resolved call))
  { fileMutationQueues := state.fileMutationQueues.set key (.chained call)
    calls := state.calls ++ [⟨key, currentQueue, .waiting⟩]
    promises := (promises.subscribe currentQueue (.follow (.chained call) (.next call))).subscribe
      currentQueue (.resume call) }

/-- The `finally` of a call. -/
def finish (state : MutationState T) (call : ℕ) (key : JsString) (outcome : Except JsString T) : MutationState T :=
  let released := { state.setPhase call (.finished outcome) with promises := state.promises.fulfil (.next call) }
  if state.fileMutationQueues.get? key = some (.chained call) then
    { released with fileMutationQueues := state.fileMutationQueues.delete key }
  else released

def step (state : MutationState T) : MutationEvent T → Option (MutationState T)
  | .call resolvedPath realpath => some (state.withFileMutationQueue (getMutationQueueKey resolvedPath realpath))
  | .microtask => state.promises.next?.map fun (promises, resumed) =>
    match resumed with
    | some call => { state with promises }.setPhase call .running
    | none => { state with promises }
  | .bodyEnds call outcome =>
    match state.calls[call]? with
    | some ⟨key, _, .running⟩ => some (state.finish call key outcome)
    | _ => none

end MutationState

end PieAgent.Model
