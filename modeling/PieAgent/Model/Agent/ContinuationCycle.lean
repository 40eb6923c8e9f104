import PieAgent.Model.Triggers.Promotion

/-! # The continuation cycle of the harness

A call of `prompt` or `continue` runs a turn, asks the hook for the end of a turn what to do, and runs another turn if the
hook says so. `abort` sets the signal of the turn or of the hook that runs at the moment.

A call is a machine whose events are the ends of its awaits, with what they answer, and `abort`. What runs inside a turn,
the budget cap and the compaction are such answers. Other calls of the harness reach a call through them only.
-/

namespace PieAgent.Model

open JavaScript

inductive CycleAction where
  | noop
  | stop
  | pause (reason : JsString)
  | continue (prompt : JsString)
deriving DecidableEq

structure TurnEndDecision where
  action : CycleAction
  payload : Option Json := none
deriving DecidableEq

inductive TurnEndKind where
  | stop
  | pause
  | continue
  | budgetLimited
deriving DecidableEq

/-- The data of a `turn_end_decision` entry. -/
structure TurnEndRecord where
  decision : TurnEndKind
  continuationCount : ℕ
  reason : Option JsString := none
  nextPromptPreview : Option JsString := none
  payload : Option Json := none
deriving DecidableEq

/-- Where a call waits. -/
inductive CyclePosition where
  /-- For the compaction and the state of the first turn. -/
  | starting
  /-- In a turn, for the queue and the hook in front of it; the text is absent when the turn continues. -/
  | preparing (text : Option JsString)
  | running
  /-- For the pending writes behind a turn. -/
  | flushing (message : AssistantMessage)
  /-- For the transcript that the hook is given. -/
  | asking
  | hooking (transcript : List AgentMessage)
  /-- For the record of a decision, and then the prompt of another turn. -/
  | recording (record : TurnEndRecord) (prompt : Option JsString)
  /-- For the compaction and the state of another turn. -/
  | continuing (prompt : JsString)
  | returned
  | threw
deriving DecidableEq

/-- A call. Whether it was aborted is no field of the source. -/
structure CycleCall where
  /-- The text of `prompt`, absent for `continue`. -/
  text : Option JsString
  onTurnEnd : Bool
  turnContinuationCap : ℕ
  position : CyclePosition := .starting
  continuationCount : ℕ := 0
  lastUserPrompt : Option JsString := none
  assistantMessage : Option AssistantMessage := none
  runAbortController : Option Bool := none
  activeHookAbortController : Option Bool := none
  audit : List TurnEndRecord := []
  aborted : Bool := false

inductive CycleEvent where
  | abort
  /-- The state of a turn is built from the messages of the session. -/
  | ready (messages : List AgentMessage)
  /-- The loop of a turn starts. -/
  | launched
  | turnEnded (message : AssistantMessage)
  | flushed
  | decided (decision : TurnEndDecision)
  /-- The record is written, or not. -/
  | recorded (persisted : Bool)
  | failed
deriving DecidableEq

/-- The text of a user message, if it has any. -/
def userText? : AgentMessage → Option JsString
  | .user message =>
    let text := match message.content with
      | .plain text => text
      | .blocks content => join (js "\n") (content.filterMap fun
        | .text block => some block.text
        | .image _ => none)
    if text = [] then none else some text
  | _ => none

def lastUserTextFromMessages (messages : List AgentMessage) : Option JsString := messages.reverse.findSome? userText?

namespace CycleCall

variable (call : CycleCall)

/-- The loop from its top, once a turn is over. -/
def turnOver : CycleCall :=
  if !call.onTurnEnd then { call with position := .returned }
  else if call.turnContinuationCap ≤ call.continuationCount then
    let reason := js "continuation cap reached: " ++ digits call.continuationCount ++ js " >= " ++
      digits call.turnContinuationCap
    let record := { decision := .budgetLimited, continuationCount := call.continuationCount, reason := some reason }
    { call with position := .recording record none }
  else { call with position := .asking }

/-- What the decision of the hook leads to. -/
def decide (decision : TurnEndDecision) : CycleCall :=
  let record (kind : TurnEndKind) (count : ℕ) (reason preview : Option JsString) : TurnEndRecord :=
    { decision := kind, continuationCount := count, reason, nextPromptPreview := preview, payload := decision.payload }
  let call := { call with activeHookAbortController := none }
  match decision.action with
  | .noop => { call with position := .returned }
  | .stop => { call with position := .recording (record .stop call.continuationCount none none) none }
  | .pause reason => { call with position := .recording (record .pause call.continuationCount (some reason) none) none }
  | .continue prompt =>
    let count := call.continuationCount + 1
    { call with
      continuationCount := count
      position := .recording (record .continue count none (some (previewForBanner prompt 80))) (some prompt) }

/-- An await throws; the cleanup of a turn or of a hook still runs. -/
def fail : CycleCall :=
  { call with position := .threw, runAbortController := none, activeHookAbortController := none }

def step? : CycleEvent → Option CycleCall
  | .abort =>
    some { call with
      runAbortController := call.runAbortController.map fun _ => true
      activeHookAbortController := call.activeHookAbortController.map fun _ => true
      aborted := true }
  | .ready messages =>
    match call.position with
    | .starting =>
      let lastUserPrompt := match call.text with
        | some text => if text = [] then none else some text
        | none => lastUserTextFromMessages messages
      some { call with position := .preparing call.text, lastUserPrompt }
    | .asking => some { call with position := .hooking messages, activeHookAbortController := some false }
    | .continuing prompt => some { call with position := .preparing (some prompt), lastUserPrompt := some prompt }
    | _ => none
  | .launched =>
    match call.position with
    | .preparing _ => some { call with position := .running, runAbortController := some false }
    | _ => none
  | .turnEnded message => if call.position = .running then some { call with position := .flushing message } else none
  | .flushed =>
    match call.position with
    | .flushing message => some (turnOver { call with assistantMessage := some message, runAbortController := none })
    | _ => none
  | .decided decision =>
    match call.position with
    | .hooking _ => some (call.decide decision)
    | _ => none
  | .recorded persisted =>
    match call.position with
    | .recording record prompt =>
      some { call with
        audit := if persisted then call.audit ++ [record] else call.audit
        position := prompt.elim .returned .continuing }
    | _ => none
  | .failed =>
    match call.position with
    | .recording _ _ | .returned | .threw => none
    | _ => some call.fail

end CycleCall

end PieAgent.Model
