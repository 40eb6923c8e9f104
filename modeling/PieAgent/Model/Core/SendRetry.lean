import Mathlib.Data.Rat.Floor
import PieAgent.JavaScript.Core.Strings

/-! # Sending a request with retries

The loop of `sendWithRetry`, one round for each pass. A round holds what the pass asks of the world around it: whether
the signal is aborted when the pass looks at it, how the send settles, the random part of the delay, and how the sleep
ends. When the rounds run out, the call is still waiting.
-/

namespace PieAgent.Model.SendRetry

open JavaScript

/-- What a send resolves to. The body and the other headers stand for themselves. -/
structure Response (α : Type) where
  status : ℕ
  /-- `headers.get("retry-after")`. -/
  retryAfter : Option JsString
  content : α
deriving DecidableEq

/-- The classes of thrown values that the loop tells apart. A `DOMException` is an `Error`. -/
inductive ErrorClass where
  | typeError
  | error
  | notAnError
deriving DecidableEq

/-- What a send rejects with. -/
structure Thrown (α : Type) where
  instanceOf : ErrorClass
  name : JsString
  content : α
deriving DecidableEq

structure RetrySendOptions where
  maxRetries : Option ℚ
  maxRetryDelayMs : Option ℚ

def DEFAULT_MAX_RETRIES : ℚ := 2

def DEFAULT_BASE_DELAY_MS : ℕ := 500

def DEFAULT_MAX_RETRY_DELAY_MS : ℚ := 60000

def RetrySendOptions.retries (options : RetrySendOptions) : ℚ := options.maxRetries.getD DEFAULT_MAX_RETRIES

def RetrySendOptions.capMs (options : RetrySendOptions) : ℚ :=
  options.maxRetryDelayMs.getD DEFAULT_MAX_RETRY_DELAY_MS

def isRetryableStatus (status : ℕ) : Bool :=
  status == 408 || status == 409 || status == 425 || status == 429 || (decide (500 ≤ status) && decide (status < 600))

variable {α : Type}

def isAbortError (error : Thrown α) : Bool := error.instanceOf != .notAnError && error.name == js "AbortError"

def isRetryableTransportError (error : Thrown α) : Bool :=
  if isAbortError error then false
  else if error.instanceOf = .typeError then true
  else error.instanceOf != .notAnError && error.name == js "TimeoutError"

/-- `Number(text)` for a text of decimal digits. -/
def decimalValue (text : JsString) : ℕ := text.foldl (fun value unit => value * 10 + (unit.toNat - 0x30)) 0

def retryAfterMs (response : Response α) : Option ℕ :=
  match response.retryAfter with
  | none => none
  | some header =>
    let trimmed := trim header
    if trimmed ≠ [] ∧ trimmed.all isDecimal then some (decimalValue trimmed * 1000) else none

/-- `draw` is `Math.floor(Math.random() * 100)`. -/
def backoffDelayMs (attempt serverDelayMs : ℕ) (capMs : ℚ) (draw : Fin 100) : ℚ :=
  if 0 < serverDelayMs then min (serverDelayMs : ℚ) (max capMs 1)
  else
    let base := DEFAULT_BASE_DELAY_MS * 2 ^ min attempt 6
    let jitter := draw.val + 1
    min ((base + jitter : ℕ) : ℚ) (max capMs 1)

/-- What the loop does to the world around it. -/
inductive Action where
  | send
  | cancelBody
  | sleep (ms : ℚ)
deriving DecidableEq

/-- How the call settles. -/
inductive Settled (α : Type) where
  | returned (response : Response α)
  | threw (error : Thrown α)
  | threwDelayTooLong (requestedMs : ℕ) (capMs : ℚ)
  /-- A fresh `DOMException` with the name `AbortError`. -/
  | threwAborted
deriving DecidableEq

/-- How a sleep ends. -/
inductive SleepEnd where
  | abortedBefore
  | abortedWithin
  | completed

/-- What one pass meets. -/
structure Round (α : Type) where
  /-- The signal at the top of the loop. -/
  abortedBefore : Bool
  outcome : Except (Thrown α) (Response α)
  /-- The signal when a rejection is caught. -/
  abortedAfter : Bool
  draw : Fin 100
  sleep : SleepEnd

/-- What has happened so far: the actions, and how the call has settled, if it has. -/
abbrev Run (α : Type) := List Action × Option (Settled α)

/-- `sleepOrAbort`, and what follows a sleep that is not aborted. -/
def sleepOrAbort (ms : ℚ) (ends : SleepEnd) (next : Run α) : Run α :=
  match ends with
  | .abortedBefore => ([], some .threwAborted)
  | .abortedWithin => ([.sleep ms], some .threwAborted)
  | .completed => (.sleep ms :: next.1, next.2)

/-- The actions happen before those of the run. -/
def after (actions : List Action) (run : Run α) : Run α := (actions ++ run.1, run.2)

def sendLoop (maxRetries capMs : ℚ) (attempt : ℕ) : List (Round α) → Run α
  | [] => ([], none)
  | round :: rest =>
    if round.abortedBefore then ([], some .threwAborted)
    else match round.outcome with
      | .error error =>
        if round.abortedAfter || isAbortError error then ([.send], some (.threw error))
        else if maxRetries ≤ attempt || !isRetryableTransportError error then ([.send], some (.threw error))
        else after [.send] (sleepOrAbort (backoffDelayMs attempt 0 capMs round.draw) round.sleep
          (sendLoop maxRetries capMs (attempt + 1) rest))
      | .ok response =>
        if !isRetryableStatus response.status then ([.send], some (.returned response))
        else if maxRetries ≤ attempt then ([.send], some (.returned response))
        else
          let serverDelayMs := (retryAfterMs response).getD 0
          if capMs < serverDelayMs ∧ 0 < capMs then ([.send], some (.threwDelayTooLong serverDelayMs capMs))
          else after [.send, .cancelBody]
            (sleepOrAbort (backoffDelayMs attempt serverDelayMs capMs round.draw) round.sleep
              (sendLoop maxRetries capMs (attempt + 1) rest))

def sendWithRetry (options : RetrySendOptions) (rounds : List (Round α)) : Run α :=
  sendLoop options.retries options.capMs 0 rounds

/-- How often a list of actions sends. -/
def sends (actions : List Action) : ℕ := actions.count .send

end PieAgent.Model.SendRetry
