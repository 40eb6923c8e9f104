import Mathlib.Data.Rat.Floor
import PieAgent.JavaScript.Core.Strings
import PieAgent.Model.Core.Messages

/-! # Prompts that are retried

The wrapper around the prompt of a harness. The first attempt submits the text and the later ones continue, until one
does not fail or the budget is used up; then the model is switched once, and the attempts start over.

A run is a list of attempts, each with what the call records and answers and with what can go wrong behind it. The session
is the branch that ends at its leaf, root first; what leaves the branch is left out. The waits between attempts are left
out, and the number of retries is finite.
-/

/-! ## Which error messages are retried

The pattern of retryable errors as its alternatives, each of them a list of parts. Without a flag for Unicode, a match
that ignores the case tells no code unit beyond ASCII from itself.
-/

namespace PieAgent.Model

open JavaScript

/-- A part of an alternative. -/
inductive PatternPart where
  | literal (text : String)
  /-- `c?`, for a code unit of the literal. -/
  | optional (unit : Char)
  /-- `.?`, where the dot is any code unit that ends no line. -/
  | optionalAny

def lowerCase (unit : CodeUnit) : CodeUnit := if 0x41 ≤ unit ∧ unit ≤ 0x5A then unit + 0x20 else unit

def endsLine (unit : CodeUnit) : Bool := unit == 0x0A || unit == 0x0D || unit == 0x2028 || unit == 0x2029

/-- The alternative matches a prefix of the text. -/
def matchesHere : List PatternPart → JsString → Bool
  | [], _ => true
  | .literal text :: rest, units =>
    (js text).isPrefixOf (units.map lowerCase) && matchesHere rest (units.drop (js text).length)
  | .optional _ :: rest, [] => matchesHere rest []
  | .optional c :: rest, unit :: units =>
    (js c.toString).isPrefixOf [lowerCase unit] && matchesHere rest units || matchesHere rest (unit :: units)
  | .optionalAny :: rest, [] => matchesHere rest []
  | .optionalAny :: rest, unit :: units =>
    !endsLine unit && matchesHere rest units || matchesHere rest (unit :: units)

/-- Two words with at most one code unit between them. -/
def twoWords (first second : String) : List PatternPart := [.literal first, .optionalAny, .literal second]

def retryableErrorRe : List (List PatternPart) :=
  [[.literal "overloaded"],
    [.literal "provider", .optionalAny, .literal "returned", .optionalAny, .literal "error"],
    twoWords "rate" "limit", [.literal "too many requests"], [.literal "429"], [.literal "500"], [.literal "502"],
    [.literal "503"], [.literal "504"], twoWords "service" "unavailable", twoWords "server" "error",
    twoWords "internal" "error", twoWords "network" "error", twoWords "connection" "error",
    twoWords "connection" "refused", twoWords "connection" "lost", twoWords "websocket" "closed",
    twoWords "websocket" "error", [.literal "other side closed"], [.literal "fetch failed"],
    twoWords "upstream" "connect", [.literal "reset before headers"], [.literal "socket hang up"],
    [.literal "ended without"], [.literal "stream ended before message_stop"],
    [.literal "http2 request did not get a response"], [.literal "time", .optional 'd', .literal " out"],
    [.literal "timeout"], [.literal "terminated"], [.literal "retry delay"]]

def isRetryableErrorMessage (errMessage : JsString) : Bool :=
  errMessage.tails.any fun rest => retryableErrorRe.any fun alternative => matchesHere alternative rest

end PieAgent.Model

namespace PieAgent.Model.Ui

open JavaScript

structure RetryPolicy where
  enabled : Bool
  maxRetries : ℚ
  /-- The provider and the model. -/
  fallbackModel : Option (JsString × JsString) := none

/-- An entry of the branch, and whether a call of the harness recorded it for this prompt. -/
structure BranchEntry where
  body : EntryBody
  ours : Bool

/-- What a call of the harness appends to the branch, and its answer; of a thrown value only the text is kept. -/
structure HarnessCall where
  recorded : List EntryBody
  outcome : Except JsString AssistantMessage

/-- The texts that the steps of a rewind throw, if they do. -/
structure RewindFaults where
  leafLookup : Option JsString := none
  entryLookup : Option JsString := none
  move : Option JsString := none

inductive RetryError where
  | thrown (text : JsString)
  | assistant (errorMessage : JsString)
  | leafLookup (text : JsString)
  | entryLookup (text : JsString)
  | rewind (text : JsString)
  | setModel (text : JsString)
deriving DecidableEq

/-- `errorText`. -/
def RetryError.text : RetryError → JsString
  | .thrown text => text
  | .assistant errorMessage => errorMessage
  | .leafLookup text => js "session retry leaf lookup: " ++ text
  | .entryLookup text => js "session retry leaf entry lookup: " ++ text
  | .rewind text => js "session retry rewind: " ++ text
  | .setModel text => js "fallback set_model failed: " ++ text

def assistantErrorMessage (message : AssistantMessage) : Option JsString :=
  if message.stopReason ≠ .error then none
  else some (message.errorMessage.getD (js "assistant stopped with an error"))

/-- The error of a call, also of one that resolves with a failed assistant. -/
def HarnessCall.error? (call : HarnessCall) : Option RetryError :=
  match call.outcome with
  | .ok message => (assistantErrorMessage message).map .assistant
  | .error text => some (.thrown text)

/-- A failed assistant. -/
def failed : EntryBody → Bool
  | .message (.assistant message) => message.stopReason = .error
  | _ => false

def rewindFailedAssistant (branch : List BranchEntry) (faults : RewindFaults) : Except RetryError (List BranchEntry) :=
  match faults.leafLookup, branch.getLast? with
  | some text, _ => .error (.leafLookup text)
  | none, none => .ok branch
  | none, some leaf =>
    match faults.entryLookup with
    | some text => .error (.entryLookup text)
    | none =>
      if failed leaf.body then
        match faults.move with
        | some text => .error (.rewind text)
        | none => .ok branch.dropLast
      else .ok branch

/-- An attempt, with the answers to what may follow it: a rewind, and a switch to another model. -/
structure RetryAttempt where
  call : HarnessCall
  rewind : RewindFaults := {}
  setModel : Option JsString := none

inductive RetryStatus where
  | running
  | returned
  | threw (error : RetryError)
deriving DecidableEq

/-- Where `promptWithRetry` stands. -/
structure RetryRun where
  branch : List BranchEntry
  attempt : ℕ := 0
  fallbackUsed : Bool := false
  calls : ℕ := 0
  status : RetryStatus := .running

namespace RetryRun

/-- The branch after a rewind, or its error. -/
def rewound (run : RetryRun) (faults : RewindFaults) : RetryRun :=
  match rewindFailedAssistant run.branch faults with
  | .error error => { run with status := .threw error }
  | .ok branch => { run with branch }

/-- The switch to the fallback model. -/
def switch (run : RetryRun) (answers : RetryAttempt) : RetryRun :=
  let run := { run with fallbackUsed := true }.rewound answers.rewind
  match run.status, answers.setModel with
  | .running, none => { run with attempt := 0 }
  | .running, some text => { run with status := .threw (.setModel text) }
  | _, _ => run

/-- What follows a call that failed. -/
def recover (policy : RetryPolicy) (findModel : JsString × JsString → Bool) (run : RetryRun) (answers : RetryAttempt)
    (error : RetryError) : RetryRun :=
  if !policy.enabled || !isRetryableErrorMessage error.text then { run with status := .threw error }
  else if policy.maxRetries ≤ run.attempt then
    match policy.fallbackModel with
    | some model =>
      if run.fallbackUsed then { run with status := .threw error }
      else if findModel model then run.switch answers
      else { run with fallbackUsed := true, status := .threw error }
    | none => { run with status := .threw error }
  else { run with attempt := run.attempt + 1 }.rewound answers.rewind

/-- A turn of the loop: the text is submitted where the attempt is the first, and otherwise the harness continues. -/
def step? (policy : RetryPolicy) (findModel : JsString × JsString → Bool) (run : RetryRun) (answers : RetryAttempt) :
    Option RetryRun :=
  if run.status ≠ .running then none
  else
    let run := { run with
      calls := run.calls + 1
      branch := run.branch ++ answers.call.recorded.map (BranchEntry.mk · true) }
    match answers.call.error? with
    | none => some { run with status := .returned }
    | some error => some (run.recover policy findModel answers error)

end RetryRun

end PieAgent.Model.Ui
