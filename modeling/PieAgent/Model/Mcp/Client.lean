import PieAgent.JavaScript.Core.Maps
import PieAgent.JavaScript.Core.Strings

/-! # Requests of the MCP client

The client numbers its requests, and keeps those whose answer it awaits in a table. The read pump takes the frames of the
server one after another; every frame with an id goes to the table. A request waits until its line is sent, and then for
its settlement, its deadline or its cancellation.

The deadline is an event, and so is the end of the transport. The handshake and the catalog of tools are left out.
-/

namespace PieAgent.Model.Mcp

open JavaScript

def asU64 : Option JsonValue → Option ℕ
  | some (.num value) => value.natural?
  | _ => none

structure RpcError where
  code : JsNumber
  message : JsString
  data : Option JsonValue := none

def tryParseRpcError (value : JsonValue) : Option RpcError :=
  match value.field? "code", value.field? "message" with
  | some (.num code), some (.str message) => some { code, message, data := value.field? "data" }
  | _, _ => none

inductive InflightSettlement where
  | ok (value : JsonValue)
  | error (error : RpcError)

/-- How the read pump settles the request that has the id of a frame. -/
def settlementOf (frame : JsonValue) : InflightSettlement :=
  match frame.field? "error", frame.field? "result" with
  | some reported, _ =>
    .error ((tryParseRpcError reported).getD { code := .finite (-32603), message := js "malformed error frame" })
  | none, some result => .ok result
  | none, none => .error { code := .finite (-32603), message := js "response had neither result nor error" }

def transportClosed : InflightSettlement := .error { code := .finite (-32000), message := js "transport closed" }

/-- What a request returns, or the kind of the error that it throws. -/
inductive Outcome where
  | result (value : JsonValue)
  | serverError (code : JsNumber) (message : JsString)
  | timeout
  | cancelled
  | unsent
  | unserializable

def InflightSettlement.outcome : InflightSettlement → Outcome
  | .ok value => .result value
  | .error reported => .serverError reported.code reported.message

inductive Phase where
  | sending
  | waiting
  | cancelling
  | settled (outcome : Outcome)

/-- A call of `request`, and what its promise in the table is resolved with. -/
structure Request where
  phase : Phase := .sending
  cancellable : Bool
  settlement : Option InflightSettlement := none

/-- Something a request waits for. -/
inductive RequestEvent where
  | sent (delivered : Bool)
  | settlement
  | deadline
  | abort
  | cancelledSent

/-- A signal may win over a settlement that has arrived, a deadline may not. -/
def Request.advance? (request : Request) (event : RequestEvent) : Option Phase :=
  match request.phase, event with
  | .sending, .sent true => some .waiting
  | .sending, .sent false => some (.settled .unsent)
  | .waiting, .settlement => request.settlement.map fun settlement => .settled settlement.outcome
  | .waiting, .deadline => if request.settlement.isNone then some (.settled .timeout) else none
  | .waiting, .abort => if request.cancellable then some .cancelling else none
  | .cancelling, .cancelledSent => some (.settled .cancelled)
  | _, _ => none

/-- The `finally` of a request has run. -/
def Phase.isSettled : Phase → Bool
  | .settled _ => true
  | _ => false

structure McpServerNotification where
  method : JsString
  params : JsonValue

structure McpClient where
  nextId : ℕ := 1
  inflight : List ℕ := []
  requests : JsMap ℕ Request := .empty
  pumping : Bool := true
  notifications : List McpServerNotification := []

/-- Resolve the promise of a request. Only the first settlement counts. -/
def resolve (settlement : InflightSettlement) (requests : JsMap ℕ Request) (id : ℕ) : JsMap ℕ Request :=
  match requests.get? id with
  | none => requests
  | some request => requests.set id { request with settlement := request.settlement.or (some settlement) }

inductive ClientEvent where
  | request (serializable cancellable : Bool)
  | advance (id : ℕ) (event : RequestEvent)
  | line (frame : Option JsonValue)
  | closed

namespace McpClient

variable (client : McpClient)

def request (serializable cancellable : Bool) : McpClient :=
  let id := client.nextId
  if serializable then
    { client with nextId := id + 1, inflight := client.inflight ++ [id], requests := client.requests.set id { cancellable } }
  else
    { client with
      nextId := id + 1
      requests := client.requests.set id { phase := .settled .unserializable, cancellable } }

/-- A frame in the loop of `runReadPump`. -/
def readFrame (frame : JsonValue) : McpClient :=
  match asU64 (frame.field? "id") with
  | none =>
    match frame.field? "method" with
    | some (.str method) =>
      { client with notifications := client.notifications ++ [{ method, params := (frame.field? "params").getD .null }] }
    | _ => client
  | some id =>
    if id ∈ client.inflight then
      { client with
        inflight := client.inflight.filter (· ≠ id)
        requests := resolve (settlementOf frame) client.requests id }
    else client

/-- `drainInflightOnClose`. -/
def drainInflight : McpClient :=
  { client with
    inflight := []
    requests := client.inflight.foldl (resolve transportClosed) client.requests
    pumping := false }

def step : ClientEvent → Option McpClient
  | .request serializable cancellable => some (client.request serializable cancellable)
  | .advance id event => do
    let request ← client.requests.get? id
    let phase ← request.advance? event
    some { client with
      inflight := if phase.isSettled then client.inflight.filter (· ≠ id) else client.inflight
      requests := client.requests.set id { request with phase } }
  | .line frame => if client.pumping then some (frame.elim client client.readFrame) else none
  | .closed => if client.pumping then some client.drainInflight else none

end McpClient

end PieAgent.Model.Mcp

/-! ## The promises of a cancellable tool call

A tool call waits for the promise that the read pump resolves, through a race with a deadline, a `finally`, an `await` and
a race with the signal of the caller. Each of these layers is a microtask, and microtasks run in the order in which they
were queued. What the signal triggers is deferred by one microtask.

Other code takes turns, as a task of its own when no microtask is queued, or as a microtask. In its turn it may let the
pump resolve the request, abort the signal, settle the sending of a line and queue further microtasks.
-/

namespace PieAgent.Model.Mcp

open JavaScript

/-- `typeof value` -/
def typeofValue : Option JsonValue → JsString
  | none => js "undefined"
  | some (.bool _) => js "boolean"
  | some (.num _) => js "number"
  | some (.str _) => js "string"
  | some .null | some (.arr _) | some (.obj _) => js "object"

/-- What a tool call returns, or throws. -/
inductive CallResult where
  | returned (content : List JsonValue) (isError : Bool)
  | protocol (detail : JsString)
  | typeError
  | failed (outcome : Outcome)

def isTypedBlock (block : JsonValue) : Bool :=
  match block.field? "type" with
  | some (.str _) => true
  | _ => false

def normalizeMcpToolCallResult (raw : JsonValue) : CallResult :=
  match raw, raw.field? "content" with
  | .null, _ => .typeError
  | _, some (.arr content) =>
    match content.findIdx? fun block => !isTypedBlock block with
    | some index => .protocol (js "tool call result content[" ++ digits index ++ js "] is missing a string \"type\"")
    | none =>
      .returned content
        (match raw.field? "isError" with
          | some (.bool isError) => isError
          | _ => false)
  | _, content => .protocol (js "tool call result \"content\" must be an array (got " ++ typeofValue content ++ js ")")

/-- What `toolsCall` makes of the outcome of its request. -/
def Outcome.callResult : Outcome → CallResult
  | .result value => normalizeMcpToolCallResult value
  | outcome => .failed outcome

namespace ToolCall

/-- A queued microtask. -/
inductive Microtask where
  /-- A microtask of other code. -/
  | foreign
  /-- The `await` of the sending goes on. -/
  | sent (delivered : Bool)
  /-- A reaction of `Promise.race` in `withDeadline`. -/
  | race (outcome : Outcome)
  /-- The callback of `finally`, which clears the timer. -/
  | finally (outcome : Outcome)
  /-- The thunk that passes the outcome on behind the callback. -/
  | thunk
  /-- The promise of `finally` subscribes to that of the thunk. -/
  | adopt (outcome : Outcome)
  /-- The promise of `finally` is settled. -/
  | settle (outcome : Outcome)
  /-- The `await` in `wait` goes on. -/
  | resume (outcome : Outcome)
  /-- The reaction of `raceCancellable` to the promise of `wait`. -/
  | hear (outcome : Outcome)
  /-- The deferred part of `onAbort`. -/
  | commit
  /-- The `await` in `request` goes on. -/
  | request (outcome : Outcome)
  /-- The `await` in `toolsCall` goes on. -/
  | toolsCall (outcome : Outcome)

/-- Something that other code does in its turn. -/
inductive Action where
  | queue
  | respond (settlement : InflightSettlement)
  | abort
  | sent (delivered : Bool)
  /-- The frame that cancels the request is sent, or sending it has failed or taken too long. -/
  | notified

end ToolCall

/-- A call of `toolsCall` whose line has been handed to the transport. -/
structure ToolCall where
  microtasks : List ToolCall.Microtask := []
  /-- Whether other code has its turn. -/
  turn : Bool := false
  aborted : Bool := false
  /-- Whether the table of the client still has the request. -/
  inflight : Bool := true
  /-- What the pump has resolved the request with. -/
  settlement : Option InflightSettlement := none
  /-- Whether the transport is still sending the line. -/
  sending : Bool := true
  /-- Whether `wait` has been called. -/
  waiting : Bool := false
  timer : Bool := false
  /-- Whether the promise of `Promise.race` is settled. -/
  raced : Bool := false
  /-- What the promise of `wait` is settled with. -/
  waited : Option Outcome := none
  listening : Bool := false
  /-- `done` of `raceCancellable`. -/
  done : Bool := false
  /-- Whether the frame that cancels the request is being sent. -/
  cancelling : Bool := false
  /-- The `notifications/cancelled` frames that have been sent. -/
  cancelledFrames : ℕ := 0
  result : Option CallResult := none

namespace ToolCall

variable (call : ToolCall)

def enqueue (microtasks : List Microtask) : ToolCall := { call with microtasks := call.microtasks ++ microtasks }

/-- What `wait` subscribes to, and then `raceCancellable`. -/
def beginWait : ToolCall :=
  let answered := (call.settlement.map fun settlement => Microtask.race settlement.outcome).toList
  if call.aborted then { call with waiting := true, timer := true }.enqueue (answered ++ [Microtask.commit])
  else { call with waiting := true, timer := true, listening := true }.enqueue answered

/-- Run a microtask. -/
def perform : Microtask → ToolCall
  | .foreign => { call with turn := true }
  | .sent true => call.beginWait
  | .sent false => { call with inflight := false }.enqueue [.toolsCall .unsent]
  | .race outcome => if call.raced then call else { call with raced := true }.enqueue [.finally outcome]
  | .finally outcome => { call with timer := false }.enqueue [.thunk, .adopt outcome]
  | .thunk => call
  | .adopt outcome => call.enqueue [.settle outcome]
  | .settle outcome => call.enqueue [.resume outcome]
  | .resume outcome => { call with waited := some outcome }.enqueue [.hear outcome]
  | .hear outcome =>
    if call.done then call else { call with done := true, listening := false }.enqueue [.request outcome]
  | .commit =>
    if call.done then call
    else { call with done := true, listening := false, cancelling := true, cancelledFrames := call.cancelledFrames + 1 }
  | .request outcome => { call with inflight := false }.enqueue [.toolsCall outcome]
  | .toolsCall outcome => { call with result := some outcome.callResult }

/-- An action of other code. What has happened already does not happen again. -/
def act : Action → ToolCall
  | .queue => call.enqueue [.foreign]
  | .respond settlement =>
    if call.inflight then
      { call with inflight := false, settlement := some settlement }.enqueue
        (if call.waiting then [.race settlement.outcome] else [])
    else call
  | .abort =>
    if call.aborted then call else { call with aborted := true }.enqueue (if call.listening then [.commit] else [])
  | .sent delivered => if call.sending then { call with sending := false }.enqueue [.sent delivered] else call
  | .notified => if call.cancelling then { call with cancelling := false }.enqueue [.request .cancelled] else call

inductive Event where
  /-- A task of other code begins. -/
  | task
  | act (action : Action)
  /-- The turn of the other code ends. -/
  | leave
  | microtask
  /-- The timer of the deadline fires. -/
  | deadline

def step : Event → Option ToolCall
  | .task => if call.turn ∨ call.microtasks ≠ [] then none else some { call with turn := true }
  | .act action => if call.turn then some (call.act action) else none
  | .leave => if call.turn then some { call with turn := false } else none
  | .microtask =>
    match call.turn, call.microtasks with
    | false, next :: microtasks => some ({ call with microtasks }.perform next)
    | _, _ => none
  | .deadline =>
    if call.turn ∨ call.microtasks ≠ [] ∨ !call.timer then none
    else some ({ call with timer := false }.enqueue [.race .timeout])

end ToolCall

end PieAgent.Model.Mcp
