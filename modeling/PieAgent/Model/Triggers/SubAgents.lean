import PieAgent.Model.Core.Messages
import PieAgent.Model.Triggers.CronScheduler

/-! # Triggers that run a sub-agent

An accepted trigger may run an agent of its own with the model of its parent. The agent turns whatever its loop throws
into a failed message; what the dispatch throws becomes the event of a failure, and anything else that of a completion.
-/

namespace PieAgent.Model.SubAgents

open JavaScript

structure SubAgentModel where
  api : JsString
  provider : JsString
  id : JsString

/-- A run of the loop: the messages that it ends, and what it throws and whether its signal is aborted then. -/
structure LoopRun where
  messages : List AgentMessage
  thrown : Option JsString
  aborted : Bool

def handleRunFailure (model : SubAgentModel) (now : ℤ) (error : JsString) (aborted : Bool) : AssistantMessage where
  content := [.text { text := [] }]
  api := model.api
  provider := model.provider
  model := model.id
  usage := ⟨0, 0, 0, 0, 0⟩
  stopReason := if aborted then .aborted else .error
  errorMessage := some error
  timestamp := .millis now

/-- The messages of an agent after `prompt`, which does not throw. -/
def runWithLifecycle (model : SubAgentModel) (now : ℤ) (run : LoopRun) : List AgentMessage :=
  run.messages ++ match run.thrown with
    | none => []
    | some error => [.assistant (handleRunFailure model now error run.aborted)]

/-- The text of the last assistant message that has one. -/
def finalText (messages : List AgentMessage) : JsString :=
  messages.foldl (fun known message =>
    match message with
    | .assistant message =>
      let text := join (js "\n") (message.content.filterMap fun
        | .text block => some block.text
        | _ => none)
      if text = [] then known else text
    | _ => known) []

/-- The summary of a run; the model is absent when none is configured. -/
def runSubAgent (model : Option SubAgentModel) (now : ℤ) (run : LoopRun) : Except JsString (Option JsString) :=
  match model with
  | none => .error (js "no model configured")
  | some model =>
    let text := finalText (runWithLifecycle model now run)
    .ok (if text = [] then none else some text)

/-- The last event of a dispatch to a sub-agent. -/
def dispatchEnd (model : Option SubAgentModel) (now : ℤ) (run : LoopRun) : DispatchEnd :=
  match runSubAgent model now run with
  | .ok _ => .triggerCompleted
  | .error reason => .triggerFailed reason

end PieAgent.Model.SubAgents
