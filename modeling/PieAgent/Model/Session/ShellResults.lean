import Mathlib.Data.List.DropRight
import PieAgent.Model.Core.Messages

/-! # Where a session puts the results of shell commands

A result is kept back while the agent is streaming and is flushed when the call of `prompt` is over; at any other time it is
put behind the messages of the agent and behind the leaf of the session at once. In between a prompt may wait to retry a
failed answer, for which the answer is removed, or compact the session, for which the messages are built anew.

A message is told by a serial number, as the object that it is, and the session is the branch that ends at its leaf. What
the settings, the provider and the hooks decide comes as an event.
-/

namespace PieAgent.Model.ShellResults

structure Item where
  serial : ℕ
  message : AgentMessage
deriving DecidableEq

/-- An entry of the branch. A compaction names the first entry that it keeps. -/
inductive Entry where
  | message (item : Item)
  | compaction (serial : ℕ) (summary : CompactionSummaryMessage) (firstKept : ℕ)

namespace Entry

def serial : Entry → ℕ
  | .message item => item.serial
  | .compaction serial .. => serial

def item? : Entry → Option Item
  | .message item => some item
  | .compaction .. => none

end Entry

/-- The messages of some entries. -/
def items (entries : List Entry) : List Item := entries.filterMap Entry.item?

def Item.isShell (item : Item) : Bool :=
  match item.message with
  | .bashExecution _ => true
  | _ => false

def Item.isAssistant (item : Item) : Bool :=
  match item.message with
  | .assistant _ => true
  | _ => false

/-- An assistant message that stopped with an error. -/
def Item.failed (item : Item) : Bool :=
  match item.message with
  | .assistant message => message.stopReason = .error
  | _ => false

/-- An assistant message with a tool call of an id. -/
def Item.calls (item : Item) (id : JavaScript.JsString) : Bool :=
  match item.message with
  | .assistant message => message.toolCalls.any (·.id = id)
  | _ => false

/-- The last compaction, with its serial number, its summary and what it keeps, and the entries before and behind it. -/
def lastCompaction? : List Entry → Option (List Entry × (ℕ × CompactionSummaryMessage × ℕ) × List Entry)
  | [] => none
  | entry :: rest =>
    match lastCompaction? rest, entry with
    | some (before, compaction, after), _ => some (entry :: before, compaction, after)
    | none, .compaction serial summary firstKept => some ([], (serial, summary, firstKept), rest)
    | none, .message _ => none

def buildSessionContext (branch : List Entry) : List Item :=
  match lastCompaction? branch with
  | none => items branch
  | some (before, (serial, summary, firstKept), after) =>
    ⟨serial, .compactionSummary summary⟩ :: items (before.dropWhile (·.serial ≠ firstKept)) ++ items after

/-- Where `_runAgentPrompt` stands. A run of the agent has the messages that it has emitted; a compaction may be followed
by a retry. -/
inductive Phase where
  | idle
  | running (emitted : List Item)
  | waiting
  | compacting (willRetry : Bool)
  | compacted (willRetry : Bool)
deriving DecidableEq

/-- `isStreaming`. -/
def Phase.isStreaming : Phase → Bool
  | .running _ => true
  | _ => false

structure ShellSession where
  /-- `agent.state.messages`. -/
  messages : List Item := []
  branch : List Entry := []
  pendingBashMessages : List Item := []
  phase : Phase := .idle
  nextSerial : ℕ := 0
  /-- The failed answer that is retried. -/
  retried : Option ℕ := none
  /-- The results that were passed to `recordBashResult`. -/
  recorded : List ℕ := []

/-- What follows a run of the agent, or a wait that was cancelled. -/
inductive AfterRun where
  | done
  | retry
  | compaction (willRetry : Bool)
deriving DecidableEq

inductive ShellEvent where
  | prompt
  | message (message : AgentMessage)
  | shell (result : BashExecutionMessage)
  | finish (after : AfterRun)
  | checkBeforePrompt (willRetry : Bool)
  | resume
  | cancelled (after : AfterRun)
  | compact (summary : CompactionSummaryMessage) (firstKept : ℕ)
  | compactionFails
  | settle (hasQueuedMessages : Bool)

namespace ShellSession

def recordBashResult (st : ShellSession) (result : BashExecutionMessage) : ShellSession :=
  let item : Item := ⟨st.nextSerial, .bashExecution result⟩
  let st := { st with nextSerial := st.nextSerial + 1, recorded := st.recorded ++ [st.nextSerial] }
  if st.phase.isStreaming then { st with pendingBashMessages := st.pendingBashMessages ++ [item] }
  else { st with messages := st.messages ++ [item], branch := st.branch ++ [Entry.message item] }

def flushPendingBashMessages (st : ShellSession) : ShellSession :=
  { st with
    messages := st.messages ++ st.pendingBashMessages
    branch := st.branch ++ st.pendingBashMessages.map .message
    pendingBashMessages := [] }

/-- The leaf moves off a failed answer. -/
def rewindBranch (branch : List Entry) : List Entry :=
  match branch.getLast? with
  | some (.message item) => if item.failed then branch.dropLast else branch
  | _ => branch

def rewindFailedAssistant (st : ShellSession) : ShellSession :=
  { st with messages := st.messages.rdropWhile Item.failed, branch := rewindBranch st.branch }

/-- The messages without a last one of a kind. -/
def dropLastIf (kind : Item → Bool) (messages : List Item) : List Item :=
  if messages.getLast?.any kind then messages.dropLast else messages

/-- The serial number of a failed answer. -/
def failure? (answer : Option Item) : Option ℕ := (answer.filter Item.failed).map (·.serial)

/-- A compaction starts. For a retry the answer is removed from the messages of the agent. -/
def startCompaction (st : ShellSession) (willRetry : Bool) (answer : Option Item) : ShellSession :=
  if willRetry then
    { st with
      messages := dropLastIf Item.isAssistant st.messages
      phase := .compacting true
      retried := failure? answer }
  else { st with phase := .compacting false, retried := none }

/-- The prompt is over. -/
def endPrompt (st : ShellSession) : ShellSession :=
  { st.flushPendingBashMessages with phase := .idle, retried := none }

/-- What a run emits: no result of a shell command and no summary; the results of its own tool calls; and behind a failed
answer only failed answers. -/
def mayEmit (emitted : List Item) (message : AgentMessage) : Bool :=
  (match message with
    | .user _ | .custom _ | .assistant _ => true
    | .toolResult result => emitted.any (·.calls result.toolCallId)
    | _ => false) &&
    (!emitted.getLast?.any Item.failed || Item.failed ⟨0, message⟩)

def emit (st : ShellSession) (emitted : List Item) (message : AgentMessage) : ShellSession :=
  let item : Item := ⟨st.nextSerial, message⟩
  { st with
    messages := st.messages ++ [item]
    branch := st.branch ++ [.message item]
    phase := .running (emitted ++ [item])
    nextSerial := st.nextSerial + 1 }

/-- The compaction is appended and the messages of the agent are built anew. -/
def compact (st : ShellSession) (willRetry : Bool) (summary : CompactionSummaryMessage) (firstKept : ℕ) :
    ShellSession :=
  let branch := st.branch ++ [Entry.compaction st.nextSerial summary firstKept]
  { st with
    messages := buildSessionContext branch
    branch
    phase := .compacted willRetry
    nextSerial := st.nextSerial + 1 }

def step? (st : ShellSession) : ShellEvent → Option ShellSession
  | .shell result => some (st.recordBashResult result)
  | .prompt =>
    if st.phase = .idle then some { st.flushPendingBashMessages with phase := .running [], retried := none } else none
  | .checkBeforePrompt willRetry =>
    if st.phase = .idle then some (st.startCompaction willRetry (st.messages.findRev? Item.isAssistant)) else none
  | .message message =>
    match st.phase with
    | .running emitted => if mayEmit emitted message then some (st.emit emitted message) else none
    | _ => none
  | .finish after =>
    match st.phase, after with
    | .running _, .done => some st.endPrompt
    | .running emitted, .retry =>
      if emitted.getLast?.any Item.failed then
        some { st.rewindFailedAssistant with phase := .waiting, retried := failure? emitted.getLast? }
      else none
    | .running emitted, .compaction willRetry => some (st.startCompaction willRetry emitted.getLast?)
    | _, _ => none
  | .resume => if st.phase = .waiting then some { st with phase := .running [] } else none
  | .cancelled after =>
    match st.phase, after with
    | .waiting, .done => some st.endPrompt
    | .waiting, .compaction false => some (st.startCompaction false none)
    | _, _ => none
  | .compact summary firstKept =>
    match st.phase with
    | .compacting willRetry => some (st.compact willRetry summary firstKept)
    | _ => none
  | .compactionFails =>
    match st.phase with
    | .compacting _ => some st.endPrompt
    | _ => none
  | .settle hasQueuedMessages =>
    match st.phase with
    | .compacted true => some { st with messages := dropLastIf Item.failed st.messages, phase := .running [] }
    | .compacted false => some (if hasQueuedMessages then { st with phase := .running [] } else st.endPrompt)
    | _ => none

end ShellSession

end PieAgent.Model.ShellResults
