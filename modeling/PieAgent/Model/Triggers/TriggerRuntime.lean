import Mathlib.Algebra.Ring.Nat
import PieAgent.JavaScript.Core.Maps
import PieAgent.JavaScript.Core.Strings

/-! # Triggers, and the dedup window and cycle limit for them

The runtime decides whether a trigger is admitted. A key that was admitted within the window is a
duplicate, and a trace that was admitted too often is suppressed. Both registers forget what is older
than the window, measured at the instant that the trigger itself carries.

Windows and limits are integers: instants and hop counts are, so a fractional window acts as its floor
and a fractional limit as its ceiling.
-/

namespace PieAgent.Model

open JavaScript

/-- An ISO text and the instant that `Date.parse` reads from it, nothing for `NaN`. -/
structure IsoTimestamp where
  text : JsString
  millis : Option ℤ
deriving DecidableEq

inductive TriggerSource where
  | mcp (serverName method : JsString)
  | local (subkind : JsString)
  | agentDelegate (agentId delegationId : JsString)
deriving DecidableEq

inductive SourceKind where
  | local | mcp
deriving DecidableEq

inductive PayloadVisibility where
  | local | shared | redacted
deriving DecidableEq

/-- How repeats of an idempotency key within the window collapse. -/
inductive ReplacementPolicy where
  | latestReplaces | coalesce | drop
deriving DecidableEq

inductive CredentialScope where
  | user | project | team | agent | none
deriving DecidableEq

structure TriggerAuthority where
  principalId : JsString
  principalLabel : JsString
  credentialScope : CredentialScope
  allowedSourceActions : List JsString
  expiresAt : Option JsString
deriving DecidableEq

structure Trigger where
  source : TriggerSource
  sourceKind : SourceKind
  sourceLabel : JsString
  eventLabel : JsString
  payloadVisibility : PayloadVisibility
  payloadSummary : Option JsString
  idempotencyKey : JsString
  replacementPolicy : ReplacementPolicy
  traceId : JsString
  authority : TriggerAuthority
  receivedAt : IsoTimestamp
deriving DecidableEq

/-- The instant of a trigger whose time can be parsed. -/
def Trigger.instant (trigger : Trigger) : ℤ := trigger.receivedAt.millis.getD 0

def defaultDedupWindowMs : ℤ := 5 * 60 * 1000

def defaultCycleHopLimit : ℤ := 5

def maxDedupWindowMs : ℤ := 24 * 60 * 60 * 1000

def maxSafeInteger : ℕ := 2 ^ 53 - 1

structure TriggerRuntimeConfig where
  dedupWindowMs : ℤ := defaultDedupWindowMs
  cycleHopLimit : ℤ := defaultCycleHopLimit
deriving DecidableEq

inductive EvaluationOutcome where
  | accept
  | deduped (replacementPolicy : ReplacementPolicy) (previousTraceId : JsString)
  | cycleSuppressed (hopCount : ℕ)
deriving DecidableEq

structure TriggerRuntimeSnapshot where
  dedupEntries : ℕ
  activeTraces : ℕ
  acceptedTotal : ℕ
  dedupedTotal : ℕ
  cycleSuppressedTotal : ℕ

structure DedupEntry where
  receivedAtMs : Option ℤ
  replacementPolicy : ReplacementPolicy
  traceId : JsString
deriving DecidableEq

structure CycleEntry where
  lastSeenAtMs : Option ℤ
  hopCount : ℕ
deriving DecidableEq

structure TriggerRuntime where
  dedup : JsMap JsString DedupEntry
  cycle : JsMap JsString CycleEntry
  dedupedTotal : ℕ
  cycleSuppressedTotal : ℕ
  acceptedTotal : ℕ
  runtimeConfig : TriggerRuntimeConfig
deriving DecidableEq

def saturatingIncrement (n : ℕ) : ℕ := if n < maxSafeInteger then n + 1 else maxSafeInteger

/-- `entryMs < nowMs - windowMs`, which never holds of `NaN`. -/
def isExpired (windowMs : ℤ) (nowMs entryMs : Option ℤ) : Bool :=
  match nowMs, entryMs with
  | some now, some entry => entry < now - windowMs
  | _, _ => false

def pruneExpired (map : JsMap JsString DedupEntry) (nowMs : Option ℤ) (windowMs : ℤ) : JsMap JsString DedupEntry :=
  map.filter fun _ entry => !isExpired windowMs nowMs entry.receivedAtMs

def pruneExpiredCycle (map : JsMap JsString CycleEntry) (nowMs : Option ℤ) (windowMs : ℤ) : JsMap JsString CycleEntry :=
  map.filter fun _ entry => !isExpired windowMs nowMs entry.lastSeenAtMs

namespace TriggerRuntime

/-- A runtime that has seen nothing. Its window is at most a day. -/
def new (config : TriggerRuntimeConfig) : TriggerRuntime where
  dedup := .empty
  cycle := .empty
  dedupedTotal := 0
  cycleSuppressedTotal := 0
  acceptedTotal := 0
  runtimeConfig := { config with dedupWindowMs := min config.dedupWindowMs maxDedupWindowMs }

variable (runtime : TriggerRuntime)

def snapshot : TriggerRuntimeSnapshot where
  dedupEntries := runtime.dedup.size
  activeTraces := runtime.cycle.size
  acceptedTotal := runtime.acceptedTotal
  dedupedTotal := runtime.dedupedTotal
  cycleSuppressedTotal := runtime.cycleSuppressedTotal

/-- Both registers without the entries that have expired. -/
def prune (nowMs : Option ℤ) : TriggerRuntime :=
  { runtime with
    dedup := pruneExpired runtime.dedup nowMs runtime.runtimeConfig.dedupWindowMs
    cycle := pruneExpiredCycle runtime.cycle nowMs runtime.runtimeConfig.dedupWindowMs }

/-- A key that is still in the window. Only the policy of the first arrival counts. -/
def collapse (trigger : Trigger) (prev : DedupEntry) : TriggerRuntime × EvaluationOutcome :=
  ({ runtime with
      dedupedTotal := saturatingIncrement runtime.dedupedTotal
      dedup := if prev.replacementPolicy = .latestReplaces then
          runtime.dedup.set trigger.idempotencyKey { prev with traceId := trigger.traceId }
        else runtime.dedup },
    .deduped prev.replacementPolicy prev.traceId)

/-- A trace that has used up its hops. -/
def suppress (existing : CycleEntry) : TriggerRuntime × EvaluationOutcome :=
  ({ runtime with cycleSuppressedTotal := saturatingIncrement runtime.cycleSuppressedTotal },
    .cycleSuppressed existing.hopCount)

/-- A trigger that is let in. -/
def admitTrigger (trigger : Trigger) : TriggerRuntime × EvaluationOutcome :=
  let hopCount := ((runtime.cycle.get? trigger.traceId).map (·.hopCount)).getD 0
  ({ runtime with
      dedup := runtime.dedup.set trigger.idempotencyKey
        { receivedAtMs := trigger.receivedAt.millis, replacementPolicy := trigger.replacementPolicy,
          traceId := trigger.traceId }
      cycle := runtime.cycle.set trigger.traceId
        { lastSeenAtMs := trigger.receivedAt.millis, hopCount := hopCount + 1 }
      acceptedTotal := saturatingIncrement runtime.acceptedTotal },
    .accept)

/-- `evaluate`: the dedup window first, then the cycle limit. -/
def evaluate (trigger : Trigger) : TriggerRuntime × EvaluationOutcome :=
  let pruned := runtime.prune trigger.receivedAt.millis
  match pruned.dedup.get? trigger.idempotencyKey with
  | some prev => pruned.collapse trigger prev
  | none =>
    match pruned.cycle.get? trigger.traceId with
    | some existing =>
      if runtime.runtimeConfig.cycleHopLimit ≤ existing.hopCount then pruned.suppress existing
      else pruned.admitTrigger trigger
    | none => pruned.admitTrigger trigger

/-- The outcomes of a sequence of triggers. -/
def outcomes : TriggerRuntime → List Trigger → List EvaluationOutcome
  | _, [] => []
  | runtime, trigger :: rest => (runtime.evaluate trigger).2 :: outcomes (runtime.evaluate trigger).1 rest

/-- The runtime after a sequence of triggers. -/
def after (config : TriggerRuntimeConfig) (seen : List Trigger) : TriggerRuntime :=
  seen.foldl (fun runtime trigger => (runtime.evaluate trigger).1) (new config)

/-- What becomes of a trigger that follows a sequence of triggers. -/
def outcomeAfter (config : TriggerRuntimeConfig) (seen : List Trigger) (trigger : Trigger) : EvaluationOutcome :=
  ((after config seen).evaluate trigger).2

end TriggerRuntime

end PieAgent.Model
