import PieAgent.JavaScript.Core.JsonParse

/-! # The session relay of the hub

A relay stands between the process that runs a session, which connects to it as the agent, and the viewers of
the session. The first frame of an agent is a hello with a key; the first hello ever pins the key. The core reads
the frames, the relay around it keeps the current socket of the agent and forwards to it what the viewers
send.

Sockets are numbered in the order in which they are attached. The streams of the viewers, and the count of viewers
that the agent is sent, are left out.
-/

namespace PieAgent.Model.Hub

open JavaScript

inductive RejectReason where
  | badKey
  | badFrame
  | notHello
  | oversized
deriving DecidableEq

/-- What comes of a frame. A frame that is `null` has no type, and reading it throws. -/
inductive CoreEffect where
  | accept
  | reject (reason : RejectReason)
  | broadcast (snapshot : List Char)
  | shutdown
  | throws
deriving DecidableEq

def maxAgentFrameBytes : ℕ := 1200000

structure RelayCore where
  agentKey : Option JsString := none
  helloSeen : Bool := false
  latestSnapshot : Option (List Char) := none
  closed : Bool := false
deriving DecidableEq

def RelayCore.agentConnected (core : RelayCore) : RelayCore := { core with helloSeen := false }

/-- The key of a hello. -/
def helloKey? (frame : Json) : Option JsString :=
  match frame.get? (js "type"), frame.get? (js "agent_key") with
  | some (.str type), some (.str key) => if type = js "hello" ∧ key ≠ [] then some key else none
  | _, _ => none

def RelayCore.handleHello (core : RelayCore) (frame : Json) : RelayCore × CoreEffect :=
  match helloKey? frame with
  | none => (core, .reject .notHello)
  | some key =>
    match core.agentKey with
    | none => ({ core with agentKey := some key, helloSeen := true }, .accept)
    | some pinned => if pinned = key then ({ core with helloSeen := true }, .accept) else (core, .reject .badKey)

/-- A frame of an agent that has said hello. -/
def RelayCore.handleFrame (core : RelayCore) (frame : Json) : RelayCore × CoreEffect :=
  if frame.get? (js "type") = some (.str (js "snapshot")) then
    let snapshot := stringify ((frame.get? (js "data")).getD .null)
    ({ core with latestSnapshot := some snapshot }, .broadcast snapshot)
  else if frame.get? (js "type") = some (.str (js "shutdown")) then
    ({ core with closed := true, latestSnapshot := none }, .shutdown)
  else (core, .reject .badFrame)

def RelayCore.handleAgentMessage (core : RelayCore) (raw : List Char) : RelayCore × CoreEffect :=
  if core.closed then (core, .shutdown)
  else if maxAgentFrameBytes < (ofText raw).length then (core, .reject .oversized)
  else
    match parse? raw with
    | none => (core, .reject .badFrame)
    | some .null => (core, .throws)
    | some frame => if core.helloSeen then core.handleFrame frame else core.handleHello frame

structure SessionRelay where
  core : RelayCore := {}
  agentSocket : Option ℕ := none
  attached : ℕ := 0
deriving DecidableEq

/-- What a viewer sends for the agent. -/
inductive ViewerFrame where
  | prompt (text : JsString)
  | abort
  | setModel (model : JsString)
  | controlPlaneResolve (approve : Bool)

/-- A request for the agent; a body that is no JSON is absent. -/
inductive ViewerRequest where
  | prompt (body : Option Json)
  | abort
  | model (body : Option Json)
  | resolve (body : Option Json)

/-- `body.key` of a body; on `null` it throws. -/
def bodyField? (body : Option Json) (key : String) : Option Json :=
  match body with
  | none | some .null => none
  | some body => body.get? (js key)

def validateSetModel (model : Option Json) : Option JsString :=
  match model with
  | some (.str model) => if trim model = [] ∨ 256 < (trim model).length then none else some (trim model)
  | _ => none

/-- The frame of a request, if its body is valid. -/
def ViewerRequest.frame? : ViewerRequest → Option ViewerFrame
  | .prompt body =>
    match bodyField? body "text" with
    | some (.str text) => if trim text = [] ∨ 64000 < (trim text).length then none else some (.prompt (trim text))
    | _ => none
  | .abort => some .abort
  | .model body => (validateSetModel (bodyField? body "model")).map .setModel
  | .resolve body =>
    match bodyField? body "approve" with
    | some (.bool approve) => some (.controlPlaneResolve approve)
    | _ => none

namespace SessionRelay

variable (relay : SessionRelay)

/-- The socket that `forward` sends the frame of a request to, and the frame. A closed session has no requests. -/
def forwarded? (request : ViewerRequest) : Option (ℕ × ViewerFrame) :=
  if relay.core.closed then none
  else do
    let frame ← request.frame?
    let socket ← relay.agentSocket
    some (socket, frame)

/-- `handleAgentUpgrade` with a request that upgrades. -/
def handleAgentUpgrade : SessionRelay where
  core := relay.core.agentConnected
  agentSocket := some relay.attached
  attached := relay.attached + 1

def closeAll : SessionRelay := { relay with agentSocket := none }

/-- The agent goes when the current socket is rejected, or drops. -/
def drop (socket : ℕ) : SessionRelay :=
  if relay.agentSocket = some socket then { relay with agentSocket := none } else relay

/-- The listener of a socket. -/
def onMessage (socket : ℕ) (raw : List Char) : SessionRelay :=
  let (core, effect) := relay.core.handleAgentMessage raw
  let relay := { relay with core }
  match effect with
  | .accept | .broadcast _ | .throws => relay
  | .shutdown => relay.closeAll
  | .reject _ => relay.drop socket

end SessionRelay

inductive RelayEvent where
  | upgrade
  | message (socket : ℕ) (raw : List Char)
  | dropped (socket : ℕ)
  | request (request : ViewerRequest)

/-- Frames come from sockets that have been attached, also from those that are not current any more. -/
def SessionRelay.step (relay : SessionRelay) : RelayEvent → Option SessionRelay
  | .upgrade => some relay.handleAgentUpgrade
  | .message socket raw => if socket < relay.attached then some (relay.onMessage socket raw) else none
  | .dropped socket => if socket < relay.attached then some (relay.drop socket) else none
  | .request _ => some relay

end PieAgent.Model.Hub
