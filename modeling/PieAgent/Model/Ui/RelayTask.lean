import PieAgent.JavaScript.Core.Utf8
import PieAgent.Model.Hub.SessionRelay

/-! # The relay task of a shared session

The task connects to the hub as the agent, says hello and sends snapshots, and connects again after a connection that
fails or drops. A disconnect cancels it: the task sees that where it waits, and says goodbye only from the loop of an open
connection.

The world around it holds the relay of the hub, the frames in flight on each connection, the connections that are broken,
and the connection attempts that were given up and may still reach the hub. Sockets have the numbers that the hub gives
them. An event that ties with the cancellation stands before it. Times are left out, and the frames that the hub sends
come as parsed; the queue of snapshots is never closed.
-/

namespace PieAgent.Model.Ui

open JavaScript Hub

/-- A value of the language. -/
structure WebSnapshot where
  data : Json
  ordinary : data.ordinary = true
deriving DecidableEq

inductive AgentFrame where
  | hello (agentKey : JsString)
  | snapshot (data : WebSnapshot)
  | shutdown
deriving DecidableEq

def AgentFrame.value : AgentFrame → Json
  | .hello agentKey => .obj [(js "type", .str (js "hello")), (js "agent_key", .str agentKey)]
  | .snapshot content => .obj [(js "type", .str (js "snapshot")), (js "data", content.data)]
  | .shutdown => .obj [(js "type", .str (js "shutdown"))]

def AgentFrame.raw (frame : AgentFrame) : List Char := stringify frame.value

def maxSnapshotBytes : ℕ := 1024 * 1024

def initialBackoffMs : ℕ := 1000

def maxBackoffMs : ℕ := 60000

/-- `snapshotFrame`, absent for a frame that is too large. -/
def snapshotFrame? (snapshot : WebSnapshot) : Option AgentFrame :=
  if (encodeUtf8 (AgentFrame.snapshot snapshot).raw).length ≤ maxSnapshotBytes then some (.snapshot snapshot) else none

/-- A frame that the hub sends to the agent. -/
inductive WorkerFrame where
  | prompt (text : JsString)
  | abort
  | controlPlaneResolve (approve : Bool)
  | viewers (count : ℕ)
  | setModel (model : JsString)

inductive RelayState where
  | connecting
  | connected
  | reconnecting
  | stopped

structure RelayShared where
  state : RelayState := .connecting
  viewers : ℕ := 0
  droppedSnapshots : ℕ := 0

/-- Where the task waits. An attempt to connect has a socket once the hub has taken it. -/
inductive RelayPosition where
  | connecting (socket : Option ℕ)
  | backingOff
  | serving (socket : ℕ) (pending : Option WebSnapshot)
  | stopped
deriving DecidableEq

/-- The task, with the queue of its handle, and what it has handed to the app. -/
structure RelayTask where
  position : RelayPosition := .connecting none
  cancelled : Bool := false
  backoffMs : ℕ := initialBackoffMs
  shared : RelayShared := {}
  snapshotTx : List WebSnapshot := []
  sinks : List WorkerFrame := []

namespace RelayTask

variable (task : RelayTask)

def setState (state : RelayState) : RelayTask := { task with shared := { task.shared with state } }

def stop : RelayTask := { task.setState .stopped with position := .stopped }

/-- The outer loop from its top. -/
def restart : RelayTask := if task.cancelled then task.stop else { task with position := .connecting none }

/-- What the task makes of a frame of the hub. -/
def receive : WorkerFrame → RelayTask
  | .viewers count => { task with shared := { task.shared with viewers := count } }
  | frame => { task with sinks := task.sinks ++ [frame] }

end RelayTask

structure RelayWorld where
  agentKey : JsString
  task : RelayTask := {}
  hub : SessionRelay := {}
  flight : List (ℕ × AgentFrame) := []
  broken : List ℕ := []
  strays : ℕ := 0

inductive RelayWorldEvent where
  /-- The hub takes the attempt to connect. -/
  | attach
  /-- The connection is open; the hello can be sent or not. -/
  | opened (sent : Bool)
  | connectFailed
  | slept
  /-- The user disconnects. -/
  | disconnect
  /-- The task sees the cancellation; in an open connection it can say goodbye or not. -/
  | cancelled (sent : Bool)
  | pushSnapshot (snapshot : WebSnapshot)
  | takeSnapshot
  /-- The timer of a pending snapshot fires, and the last frame was long enough ago or not. -/
  | tick (due sent : Bool)
  | incoming (frame : Option WorkerFrame)
  | socketClosed
  /-- The first frame in flight on a socket reaches the hub. -/
  | deliver (socket : ℕ)
  /-- A connection breaks, and the frames in flight on it are lost. -/
  | lose (socket : ℕ)
  /-- An attempt that was given up reaches the hub. -/
  | straggle
  | hubDropped (socket : ℕ)

namespace RelayWorld

variable (world : RelayWorld)

/-- A frame is in flight unless the connection is broken. -/
def send (socket : ℕ) (frame : AgentFrame) : RelayWorld :=
  if socket ∈ world.broken then world else { world with flight := world.flight ++ [(socket, frame)] }

/-- An attempt that the hub has not taken may still reach it. -/
def giveUp (socket : Option ℕ) : RelayWorld :=
  { world with strays := if socket = none then world.strays + 1 else world.strays }

/-- The connection is left, and the outer loop goes on. -/
def reconnect : RelayWorld := { world with task := (world.task.setState .reconnecting).restart }

/-- The hello on an open connection. -/
def open? (sent : Bool) : Option RelayWorld :=
  match world.task.position with
  | .connecting (some socket) =>
    let world := { world with task := { world.task with backoffMs := initialBackoffMs } }
    some (if sent then
      { world.send socket (.hello world.agentKey) with
        task := { world.task.setState .connected with position := .serving socket none } }
    else world.reconnect)
  | _ => none

def fail? : Option RelayWorld :=
  match world.task.position with
  | .connecting socket =>
    some { world.giveUp socket with task := { world.task.setState .reconnecting with position := .backingOff } }
  | _ => none

/-- What the task does when it sees the cancellation. -/
def cancel? (sent : Bool) : Option RelayWorld :=
  match world.task.position with
  | .connecting socket => some { world.giveUp socket with task := world.task.stop }
  | .backingOff => some { world with task := world.task.stop }
  | .serving socket _ => some { (if sent then world.send socket .shutdown else world) with task := world.task.stop }
  | .stopped => none

/-- A tick of the inner loop. -/
def tick? (due sent : Bool) : Option RelayWorld :=
  match world.task.position with
  | .serving socket (some snapshot) =>
    if !due then some world
    else
      let world := { world with task := { world.task with position := .serving socket none } }
      match snapshotFrame? snapshot with
      | some frame => some (if sent then world.send socket frame else world.reconnect)
      | none =>
        let shared := { world.task.shared with droppedSnapshots := world.task.shared.droppedSnapshots + 1 }
        some { world with task := { world.task with shared } }
  | _ => none

/-- The next event of the task; none of these wins against a cancellation. -/
def advance? : RelayWorldEvent → Option RelayWorld
  | .opened sent => world.open? sent
  | .connectFailed => world.fail?
  | .slept =>
    if world.task.position = .backingOff then
      some { world with
        task := { world.task with backoffMs := min (world.task.backoffMs * 2) maxBackoffMs }.restart }
    else none
  | .takeSnapshot =>
    match world.task.position, world.task.snapshotTx with
    | .serving socket _, snapshot :: rest =>
      some { world with task := { world.task with position := .serving socket (some snapshot), snapshotTx := rest } }
    | _, _ => none
  | .tick due sent => world.tick? due sent
  | .incoming frame =>
    match world.task.position with
    | .serving _ _ => some { world with task := frame.elim world.task world.task.receive }
    | _ => none
  | .socketClosed =>
    match world.task.position with
    | .serving _ _ => some world.reconnect
    | _ => none
  | _ => none

def deliver? (socket : ℕ) : Option RelayWorld :=
  match world.flight.find? (·.1 = socket) with
  | some (_, frame) =>
    some { world with
      hub := world.hub.onMessage socket frame.raw
      flight := world.flight.eraseP (·.1 = socket) }
  | none => none

def step? : RelayWorldEvent → Option RelayWorld
  | .attach =>
    if world.task.position = .connecting none then
      some { world with
        hub := world.hub.handleAgentUpgrade
        task := { world.task with position := .connecting (some world.hub.attached) } }
    else none
  | .disconnect =>
    if world.task.cancelled then none else some { world with task := { world.task with cancelled := true } }
  | .cancelled sent => if world.task.cancelled then world.cancel? sent else none
  | .pushSnapshot snapshot =>
    some { world with task := { world.task with snapshotTx := world.task.snapshotTx ++ [snapshot] } }
  | .deliver socket => world.deliver? socket
  | .lose socket =>
    some { world with broken := socket :: world.broken, flight := world.flight.filter (·.1 ≠ socket) }
  | .straggle =>
    if 0 < world.strays then some { world with strays := world.strays - 1, hub := world.hub.handleAgentUpgrade }
    else none
  | .hubDropped socket => some { world with hub := world.hub.drop socket }
  | event => if world.task.cancelled then none else world.advance? event

end RelayWorld

end PieAgent.Model.Ui
