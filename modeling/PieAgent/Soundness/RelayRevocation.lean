import PieAgent.JavaScript.Proofs.RoundTrip
import PieAgent.Machine.Core.Labeled
import PieAgent.Model.Ui.RelayTask

/-! # Whether a disconnect revokes the shared session

Only the goodbye of the task closes the session at the hub. It is sent when the task sees the cancellation in the loop of
an open connection; where it waits to connect or to try again, the task stops without a word. So the session is revoked
exactly if the user disconnects while a connection is open and the goodbye gets through.
-/

namespace PieAgent.Soundness.RelayRevocation

open JavaScript Machine Model.Hub Model.Ui

/-- The task stands in the inner loop. -/
def Serving (world : RelayWorld) : Prop := ∃ socket pending, world.task.position = .serving socket pending

/-- The user disconnects while the task serves a connection, the goodbye is sent on it, the connection does not break
while the goodbye is in flight, and when it arrives the core has seen a hello since the last connection. -/
def Revokes (world : RelayWorld) : RelayWorldEvent → Prop
  | .disconnect => Serving world
  | .cancelled sent => ∀ socket pending, world.task.position = .serving socket pending →
      sent = true ∧ socket ∉ world.broken
  | .lose socket => (socket, AgentFrame.shutdown) ∉ world.flight
  | .deliver socket => world.flight.find? (·.1 = socket) = some (socket, .shutdown) → world.hub.core.helloSeen = true
  | _ => True

/-- The goodbyes in flight. -/
def goodbyes (world : RelayWorld) : List (ℕ × AgentFrame) := world.flight.filter (·.2 = .shutdown)

/-- The task has left without a goodbye that is on its way or has arrived. -/
def Abandoned (world : RelayWorld) : Prop :=
  world.task.cancelled = true ∧ ¬ Serving world ∧ goodbyes world = [] ∧ world.hub.core.closed = false

structure Sound (world : RelayWorld) : Prop where
  one : (goodbyes world).length ≤ 1
  stopped : world.task.position = .stopped → world.task.cancelled = true
  leaves : goodbyes world ≠ [] ∨ world.hub.core.closed = true → world.task.position = .stopped
  closed : world.hub.core.closed = true → goodbyes world = [] ∧ world.hub.core.latestSnapshot = none

variable {world next : RelayWorld} {event : RelayWorldEvent} {socket : ℕ} {frame : AgentFrame} {core : RelayCore}

section Frames

private theorem ordinary_two {second : String} {first value : Json} (ordinary : first.ordinary = true ∧ value.ordinary = true)
    (other : js "type" ≠ js second) (plain : arrayIndex? (js second) = none) :
    (Json.obj [(js "type", first), (js second, value)]).ordinary = true := by
  refine ordinary_obj_of_plain ?_ ?_ ?_
  · simpa using other
  · simpa using ⟨by decide, plain⟩
  · simpa [ordinaryMembers] using ordinary

private theorem ordinary_value (frame : AgentFrame) : frame.value.ordinary = true := by
  cases frame with
  | hello agentKey => exact ordinary_two ⟨rfl, rfl⟩ (by decide) (by decide)
  | snapshot content => exact ordinary_two ⟨rfl, content.ordinary⟩ (by decide) (by decide)
  | shutdown => rfl

private theorem parse?_raw (frame : AgentFrame) : parse? frame.raw = some frame.value :=
  parse?_stringify (ordinary_value frame)

private theorem closed_handleHello (core : RelayCore) (frame : Json) : (core.handleHello frame).1.closed = core.closed := by
  unfold RelayCore.handleHello
  split
  · rfl
  · split
    · rfl
    · split_ifs <;> rfl

private theorem closed_handleFrame (core : RelayCore) (frame : AgentFrame) :
    (core.handleFrame frame.value).1.closed = true ↔ core.closed = true ∨ frame = .shutdown := by
  cases frame with
  | hello agentKey =>
    have same : (core.handleFrame (AgentFrame.hello agentKey).value).1.closed = core.closed := rfl
    simp [same]
  | snapshot content =>
    have same : (core.handleFrame (AgentFrame.snapshot content).value).1.closed = core.closed := rfl
    simp [same]
  | shutdown => exact iff_of_true rfl (.inr rfl)

/-- How the core reads a frame of the task. -/
private theorem handleAgentMessage_raw (core : RelayCore) (frame : AgentFrame) :
    core.closed = true ∧ (core.handleAgentMessage frame.raw).1 = core ∨
    core.closed = false ∧ ((frame ≠ .shutdown ∧ (core.handleAgentMessage frame.raw).1 = core) ∨
      (core.handleAgentMessage frame.raw).1 =
        (if core.helloSeen then core.handleFrame frame.value else core.handleHello frame.value).1) := by
  unfold RelayCore.handleAgentMessage
  cases closed : core.closed with
  | true => exact .inl ⟨rfl, by rw [if_pos rfl]⟩
  | false =>
    refine .inr ⟨rfl, ?_⟩
    rw [if_neg Bool.false_ne_true]
    by_cases oversized : maxAgentFrameBytes < (ofText frame.raw).length
    · refine .inl ⟨?_, by rw [if_pos oversized]⟩
      rintro rfl
      exact absurd oversized (by decide)
    · rw [if_neg oversized, parse?_raw]
      refine .inr ?_
      cases frame <;> rfl

/-- The core closes exactly on the goodbye of an agent that has said hello. -/
private theorem closed_handleAgentMessage (core : RelayCore) (frame : AgentFrame) :
    (core.handleAgentMessage frame.raw).1.closed = true ↔
      core.closed = true ∨ core.helloSeen = true ∧ frame = .shutdown := by
  rcases handleAgentMessage_raw core frame with ⟨closed, same⟩ | ⟨open_, ⟨other, same⟩ | same⟩
  · rw [same]
    exact iff_of_true closed (.inl closed)
  · rw [same]
    simp [open_, other]
  · rw [same]
    cases seen : core.helloSeen with
    | true =>
      rw [if_pos rfl, closed_handleFrame]
      simp
    | false =>
      rw [if_neg Bool.false_ne_true, closed_handleHello]
      simp

/-- A core that is closed holds no snapshot. -/
private theorem latestSnapshot_handleAgentMessage (empty : core.closed = true → core.latestSnapshot = none)
    (closed : (core.handleAgentMessage frame.raw).1.closed = true) :
    (core.handleAgentMessage frame.raw).1.latestSnapshot = none := by
  rcases handleAgentMessage_raw core frame with ⟨already, same⟩ | ⟨open_, ⟨other, same⟩ | same⟩
  · rw [same]
    exact empty already
  · rw [same, open_] at closed
    cases closed
  · obtain ⟨seen, rfl⟩ := ((closed_handleAgentMessage core frame).mp closed).resolve_left (by simp [open_])
    rw [same, seen, if_pos rfl]
    rfl

end Frames

section Hub

variable {relay : SessionRelay}

private theorem core_drop (relay : SessionRelay) (socket : ℕ) : (relay.drop socket).core = relay.core := by
  unfold SessionRelay.drop
  split_ifs <;> rfl

private theorem core_onMessage (relay : SessionRelay) (socket : ℕ) (raw : List Char) :
    (relay.onMessage socket raw).core = (relay.core.handleAgentMessage raw).1 := by
  unfold SessionRelay.onMessage
  dsimp only
  split
  · rfl
  · rfl
  · rfl
  · rfl
  · exact core_drop _ _

end Hub

section Steps

@[simp] private theorem goodbyes_send (world : RelayWorld) (socket : ℕ) (frame : AgentFrame) :
    goodbyes (world.send socket frame) =
      if socket ∉ world.broken ∧ frame = .shutdown then goodbyes world ++ [(socket, frame)] else goodbyes world := by
  unfold RelayWorld.send goodbyes
  by_cases broken : socket ∈ world.broken
  · rw [if_pos broken, if_neg fun both => both.1 broken]
  · rw [if_neg broken, List.filter_append]
    by_cases goodbye : frame = .shutdown
    · rw [if_pos ⟨broken, goodbye⟩, List.filter_cons_of_pos (by simp [goodbye])]
      rfl
    · rw [if_neg fun both => goodbye both.2, List.filter_cons_of_neg (by simp [goodbye])]
      exact List.append_nil _

@[simp] private theorem task_send (world : RelayWorld) (socket : ℕ) (frame : AgentFrame) :
    (world.send socket frame).task = world.task := by
  unfold RelayWorld.send
  split_ifs <;> rfl

@[simp] private theorem hub_send (world : RelayWorld) (socket : ℕ) (frame : AgentFrame) :
    (world.send socket frame).hub = world.hub := by
  unfold RelayWorld.send
  split_ifs <;> rfl

/-- The task runs on, and neither its goodbye nor the hub is touched. -/
private def RunsOn (world next : RelayWorld) : Prop :=
  next.task.cancelled = false ∧ next.task.position ≠ .stopped ∧ goodbyes next = goodbyes world ∧ next.hub = world.hub

private theorem restart_runs {task : RelayTask} (running : task.cancelled = false) :
    task.restart.cancelled = false ∧ task.restart.position ≠ .stopped := by
  unfold RelayTask.restart
  rw [if_neg (by simp [running])]
  exact ⟨running, nofun⟩

private theorem reconnect_runsOn (running : world.task.cancelled = false) : RunsOn world world.reconnect := by
  obtain ⟨stays, goes⟩ := @restart_runs (world.task.setState .reconnecting) running
  exact ⟨stays, goes, rfl, rfl⟩

private theorem open?_runsOn {sent : Bool} (running : world.task.cancelled = false) (opened : world.open? sent = some next) :
    RunsOn world next := by
  unfold RelayWorld.open? at opened
  split at opened
  · obtain rfl := Option.some.inj opened
    cases sent with
    | true =>
      exact ⟨running, nofun, (goodbyes_send _ _ _).trans (if_neg fun both => nomatch both.2), hub_send _ _ _⟩
    | false =>
      obtain ⟨stays, goes⟩ := @restart_runs ({ world.task with backoffMs := initialBackoffMs }.setState .reconnecting) running
      exact ⟨stays, goes, rfl, rfl⟩
  · cases opened

private theorem tick?_runsOn {due sent : Bool} (running : world.task.cancelled = false)
    (ticked : world.tick? due sent = some next) : RunsOn world next := by
  unfold RelayWorld.tick? at ticked
  split at ticked
  · next socket snapshot position =>
    by_cases early : (!due) = true
    · rw [if_pos early] at ticked
      obtain rfl := Option.some.inj ticked
      exact ⟨running, by rw [position]; nofun, rfl, rfl⟩
    · rw [if_neg early] at ticked
      dsimp only at ticked
      split at ticked
      · next frame framed =>
        obtain rfl := Option.some.inj ticked
        have other : frame ≠ .shutdown := by
          unfold snapshotFrame? at framed
          split_ifs at framed
          rw [← Option.some.inj framed]
          nofun
        cases sent with
        | true =>
          rw [if_pos rfl]
          refine ⟨by simpa using running, by simp, ?_, hub_send _ _ _⟩
          exact (goodbyes_send _ _ _).trans (if_neg fun both => other both.2)
        | false =>
          obtain ⟨stays, goes⟩ := @restart_runs
            ({ world.task with position := .serving socket none }.setState .reconnecting) running
          exact ⟨stays, goes, rfl, rfl⟩
      · obtain rfl := Option.some.inj ticked
        exact ⟨running, nofun, rfl, rfl⟩
  · cases ticked

/-- A step of the task that runs: it goes on running, and sends no goodbye. -/
private theorem advance?_runsOn (running : world.task.cancelled = false) (stepped : world.advance? event = some next) :
    RunsOn world next := by
  cases event with
  | opened sent => exact open?_runsOn running stepped
  | tick due sent => exact tick?_runsOn running stepped
  | connectFailed =>
    rw [RelayWorld.advance?, RelayWorld.fail?] at stepped
    split at stepped
    · obtain rfl := Option.some.inj stepped
      exact ⟨running, nofun, rfl, rfl⟩
    · cases stepped
  | slept =>
    rw [RelayWorld.advance?] at stepped
    split_ifs at stepped
    obtain rfl := Option.some.inj stepped
    obtain ⟨stays, goes⟩ := @restart_runs { world.task with
      backoffMs := min (world.task.backoffMs * 2) maxBackoffMs } running
    exact ⟨stays, goes, rfl, rfl⟩
  | takeSnapshot =>
    rw [RelayWorld.advance?] at stepped
    split at stepped
    · obtain rfl := Option.some.inj stepped
      exact ⟨running, nofun, rfl, rfl⟩
    · cases stepped
  | incoming frame =>
    rw [RelayWorld.advance?] at stepped
    split at stepped
    · next socket pending position =>
      obtain rfl := Option.some.inj stepped
      have kept : (frame.elim world.task world.task.receive).cancelled = world.task.cancelled ∧
          (frame.elim world.task world.task.receive).position = world.task.position := by
        rcases frame with _ | frame
        · exact ⟨rfl, rfl⟩
        · cases frame <;> exact ⟨rfl, rfl⟩
      exact ⟨kept.1.trans running, by rw [kept.2, position]; nofun, rfl, rfl⟩
    · cases stepped
  | socketClosed =>
    rw [RelayWorld.advance?] at stepped
    split at stepped
    · obtain rfl := Option.some.inj stepped
      exact reconnect_runsOn running
    · cases stepped
  | _ => cases stepped

/-- A step that is of no account: where the task is cancelled it stays where it is, and otherwise it runs on. -/
structure Quiet (world next : RelayWorld) : Prop where
  cancelled : next.task.cancelled = world.task.cancelled
  goodbyes : goodbyes next = goodbyes world
  closed : next.hub.core.closed = world.hub.core.closed
  snapshot : next.hub.core.latestSnapshot = world.hub.core.latestSnapshot
  serving : world.task.cancelled = true → (Serving next ↔ Serving world)
  stopped : next.task.position = .stopped ↔ world.task.position = .stopped

/-- The four events that decide whether the session is revoked. -/
def Decides : RelayWorldEvent → Prop
  | .disconnect | .cancelled _ | .lose _ | .deliver _ => True
  | _ => False

private theorem quiet_of_runsOn (sound : Sound world) (running : world.task.cancelled = false) (runs : RunsOn world next) :
    Quiet world next where
  cancelled := runs.1.trans running.symm
  goodbyes := runs.2.2.1
  closed := by rw [runs.2.2.2]
  snapshot := by rw [runs.2.2.2]
  serving := fun cancelled => absurd cancelled (by simp [running])
  stopped := iff_of_false runs.2.1 fun stopped => absurd (sound.stopped stopped) (by simp [running])

private theorem quiet_of_step (sound : Sound world) (other : ¬ Decides event) (stepped : world.step? event = some next) :
    Quiet world next := by
  have going {event : RelayWorldEvent}
      (advances : (if world.task.cancelled then none else world.advance? event) = some next) : Quiet world next := by
    split_ifs at advances with cancelled
    have running := Bool.eq_false_iff.mpr cancelled
    exact quiet_of_runsOn sound running (advance?_runsOn running advances)
  cases event with
  | attach =>
    rw [RelayWorld.step?] at stepped
    split_ifs at stepped with position
    obtain rfl := Option.some.inj stepped
    refine ⟨rfl, rfl, rfl, rfl, fun _ => iff_of_false ?_ ?_, iff_of_false nofun (by rw [position]; nofun)⟩
    · rintro ⟨socket, pending, serving⟩
      cases serving
    · rintro ⟨socket, pending, serving⟩
      rw [position] at serving
      cases serving
  | pushSnapshot snapshot =>
    obtain rfl := Option.some.inj stepped
    exact ⟨rfl, rfl, rfl, rfl, fun _ => Iff.rfl, Iff.rfl⟩
  | straggle =>
    rw [RelayWorld.step?] at stepped
    split_ifs at stepped
    obtain rfl := Option.some.inj stepped
    exact ⟨rfl, rfl, rfl, rfl, fun _ => Iff.rfl, Iff.rfl⟩
  | hubDropped socket =>
    obtain rfl := Option.some.inj stepped
    exact ⟨rfl, rfl, by rw [core_drop], by rw [core_drop], fun _ => Iff.rfl, Iff.rfl⟩
  | opened sent => exact going stepped
  | connectFailed => exact going stepped
  | slept => exact going stepped
  | takeSnapshot => exact going stepped
  | tick due sent => exact going stepped
  | incoming frame => exact going stepped
  | socketClosed => exact going stepped
  | _ => exact absurd trivial other

private theorem Quiet.sound (sound : Sound world) (quiet : Quiet world next) : Sound next where
  one := by rw [quiet.goodbyes]; exact sound.one
  stopped := fun stopped => quiet.cancelled.trans (sound.stopped (quiet.stopped.mp stopped))
  leaves := by
    rw [quiet.goodbyes, quiet.closed]
    exact fun left => quiet.stopped.mpr (sound.leaves left)
  closed := by
    rw [quiet.goodbyes, quiet.closed, quiet.snapshot]
    exact sound.closed

private theorem Quiet.abandoned (quiet : Quiet world next) : Abandoned next ↔ Abandoned world := by
  unfold Abandoned
  rw [quiet.cancelled, quiet.goodbyes, quiet.closed]
  exact and_congr_right fun cancelled => and_congr_left' (not_congr (quiet.serving cancelled))

end Steps

section Decisions

/-- Before the task stops, no goodbye was sent. -/
private theorem present_of_running (sound : Sound world) (running : world.task.position ≠ .stopped) :
    goodbyes world = [] ∧ world.hub.core.closed = false := by
  by_contra gone
  apply running
  apply sound.leaves
  rcases not_and_or.mp gone with sent | closed
  · exact .inl sent
  · exact .inr (by simpa using closed)

private theorem sound_disconnect (sound : Sound world) (stepped : world.step? .disconnect = some next) :
    Sound next ∧ ¬ Abandoned world ∧ (¬ Abandoned next ↔ Serving world) := by
  rw [RelayWorld.step?] at stepped
  split_ifs at stepped with cancelled
  obtain rfl := Option.some.inj stepped
  have present := present_of_running sound fun stopped => cancelled (sound.stopped stopped)
  refine ⟨⟨sound.one, fun _ => rfl, sound.leaves, sound.closed⟩, fun abandoned => cancelled abandoned.1, ?_⟩
  constructor
  · intro kept
    by_contra away
    exact kept ⟨rfl, away, present⟩
  · exact fun serving abandoned => abandoned.2.1 serving

/-- A cancelled task that waits for a connection stops without a goodbye. -/
private theorem sound_silent (sound : Sound world) (cancelled : world.task.cancelled = true)
    (running : world.task.position ≠ .stopped) (away : ¬ Serving world) (attempt : Option ℕ) :
    Abandoned world ∧ Sound { world.giveUp attempt with task := world.task.stop } ∧
      Abandoned { world.giveUp attempt with task := world.task.stop } := by
  obtain ⟨none_, open_⟩ := present_of_running sound running
  refine ⟨⟨cancelled, away, none_, open_⟩, ⟨sound.one, fun _ => cancelled, fun _ => rfl, sound.closed⟩, cancelled, ?_,
    none_, open_⟩
  rintro ⟨socket, pending, serving⟩
  cases serving

private theorem sound_cancelled {sent : Bool} (sound : Sound world) (stepped : world.step? (.cancelled sent) = some next) :
    Sound next ∧ (Abandoned world → Abandoned next) ∧
      (¬ Abandoned world → (¬ Abandoned next ↔ Revokes world (.cancelled sent))) := by
  rw [RelayWorld.step?] at stepped
  split_ifs at stepped with cancelled
  rw [RelayWorld.cancel?] at stepped
  cases position : world.task.position with
  | connecting socket =>
    rw [position] at stepped
    obtain rfl := Option.some.inj stepped
    obtain ⟨before, kept, after⟩ := sound_silent sound cancelled (by rw [position]; nofun)
      (fun ⟨_, _, serving⟩ => by rw [position] at serving; cases serving) socket
    exact ⟨kept, fun _ => after, fun not => absurd before not⟩
  | backingOff =>
    rw [position] at stepped
    obtain rfl := Option.some.inj stepped
    obtain ⟨before, kept, after⟩ := sound_silent sound cancelled (by rw [position]; nofun)
      (fun ⟨_, _, serving⟩ => by rw [position] at serving; cases serving) (some 0)
    exact ⟨kept, fun _ => after, fun not => absurd before not⟩
  | stopped =>
    rw [position] at stepped
    cases stepped
  | serving socket pending =>
    rw [position] at stepped
    obtain rfl := Option.some.inj stepped
    obtain ⟨none_, open_⟩ := present_of_running sound (by rw [position]; nofun)
    have away : ¬ Serving { (if sent then world.send socket .shutdown else world) with task := world.task.stop } := by
      rintro ⟨other, pending, serving⟩
      cases serving
    have still : (if sent then world.send socket .shutdown else world).hub = world.hub := by
      cases sent <;> simp
    have said : goodbyes { (if sent then world.send socket .shutdown else world) with task := world.task.stop } =
        if sent = true ∧ socket ∉ world.broken then [(socket, .shutdown)] else [] := by
      cases sent with
      | true =>
        refine (goodbyes_send world socket .shutdown).trans ?_
        simp [none_]
      | false => exact none_
    have revokes : Revokes world (.cancelled sent) ↔ sent = true ∧ socket ∉ world.broken := by
      refine ⟨fun all => all socket pending position, ?_⟩
      intro both other others same
      rw [position] at same
      cases same
      exact both
    refine ⟨⟨?_, fun _ => cancelled, fun _ => rfl, ?_⟩, fun abandoned => absurd ⟨socket, pending, position⟩ abandoned.2.1,
      fun _ => ?_⟩
    · rw [said]
      split_ifs <;> simp
    · intro closed
      dsimp only at closed
      rw [still, open_] at closed
      cases closed
    · rw [revokes, Abandoned, said]
      constructor
      · intro kept
        by_contra failing
        exact kept ⟨cancelled, away, if_neg failing, by rw [still]; exact open_⟩
      · rintro both ⟨_, _, empty, _⟩
        rw [if_pos both] at empty
        cases empty

/-- The goodbye that is in flight is the only one. -/
private theorem goodbyes_eq (sound : Sound world) (member : (socket, AgentFrame.shutdown) ∈ world.flight) :
    goodbyes world = [(socket, .shutdown)] := by
  have listed : (socket, AgentFrame.shutdown) ∈ goodbyes world := List.mem_filter.mpr ⟨member, by simp⟩
  obtain ⟨front, back, split⟩ := List.append_of_mem listed
  have one := sound.one
  rw [split, List.length_append, List.length_cons] at one
  obtain rfl : front = [] := List.length_eq_zero_iff.mp (by omega)
  obtain rfl : back = [] := List.length_eq_zero_iff.mp (by omega)
  exact split

private theorem left_of_goodbye (sound : Sound world) (member : (socket, AgentFrame.shutdown) ∈ world.flight) :
    world.task.cancelled = true ∧ ¬ Serving world ∧ world.hub.core.closed = false := by
  have sent := goodbyes_eq sound member
  have stopped := sound.leaves (.inl (by rw [sent]; exact List.cons_ne_nil _ _))
  refine ⟨sound.stopped stopped, ?_, ?_⟩
  · rintro ⟨other, pending, serving⟩
    rw [stopped] at serving
    cases serving
  · by_contra closed
    rw [(sound.closed (by simpa using closed)).1] at sent
    cases sent

private theorem goodbyes_lose (world : RelayWorld) (socket : ℕ) : goodbyes
      { world with broken := socket :: world.broken, flight := world.flight.filter (·.1 ≠ socket) } =
    (goodbyes world).filter (·.1 ≠ socket) := by
  unfold goodbyes
  rw [List.filter_filter, List.filter_filter]
  congr 1
  funext frame
  exact Bool.and_comm _ _

private theorem sound_lose (sound : Sound world) (stepped : world.step? (.lose socket) = some next) :
    Sound next ∧ (Abandoned world → Abandoned next) ∧
      (¬ Abandoned world → (¬ Abandoned next ↔ Revokes world (.lose socket))) := by
  obtain rfl := Option.some.inj stepped
  have lost := goodbyes_lose world socket
  refine ⟨⟨?_, sound.stopped, ?_, ?_⟩, ?_, ?_⟩
  · rw [lost]
    exact (List.length_filter_le _ _).trans sound.one
  · intro left
    refine sound.leaves (left.imp (fun sent empty => sent ?_) id)
    rw [lost, empty]
    rfl
  · intro closed
    obtain ⟨empty, none_⟩ := sound.closed closed
    rw [lost, empty]
    exact ⟨rfl, none_⟩
  · rintro ⟨cancelled, away, empty, open_⟩
    refine ⟨cancelled, away, ?_, open_⟩
    rw [lost, empty]
    rfl
  · intro kept
    by_cases member : (socket, AgentFrame.shutdown) ∈ world.flight
    · refine iff_of_false (not_not.mpr ?_) (not_not.mpr member)
      obtain ⟨cancelled, away, open_⟩ := left_of_goodbye sound member
      refine ⟨cancelled, away, ?_, open_⟩
      rw [lost, goodbyes_eq sound member]
      simp
    · refine iff_of_true ?_ member
      rintro ⟨cancelled, away, empty, open_⟩
      refine kept ⟨cancelled, away, ?_, open_⟩
      rw [lost] at empty
      rw [List.eq_nil_iff_forall_not_mem]
      rintro ⟨other, frame⟩ listed
      obtain ⟨inFlight, same⟩ := List.mem_filter.mp listed
      obtain rfl : frame = .shutdown := by simpa using same
      refine List.eq_nil_iff_forall_not_mem.mp empty (other, .shutdown) (List.mem_filter.mpr ⟨listed, ?_⟩)
      simpa using fun here : other = socket => member (here ▸ inFlight)

/-- What is left in flight after a delivery. -/
private theorem filter_eraseP {flight : List (ℕ × AgentFrame)} {key : ℕ}
    (found : flight.find? (·.1 = socket) = some (key, frame)) : key = socket ∧ (key, frame) ∈ flight ∧
      (flight.filter (·.2 = .shutdown)).length =
        ((flight.eraseP (·.1 = socket)).filter (·.2 = .shutdown)).length + (if frame = .shutdown then 1 else 0) ∧
      (frame ≠ .shutdown →
        (flight.eraseP (·.1 = socket)).filter (·.2 = .shutdown) = flight.filter (·.2 = .shutdown)) := by
  obtain ⟨here, front, back, rfl, before⟩ := List.find?_eq_some_iff_append.mp found
  have left : (front ++ (key, frame) :: back).eraseP (·.1 = socket) = front ++ back := by
    rw [List.eraseP_append_right _ (by simpa using before), @List.eraseP_cons_of_pos _ _ back (·.1 = socket) here]
  refine ⟨by simpa using here, by simp, ?_, ?_⟩
  · rw [left, List.filter_append, List.filter_append, List.filter_cons]
    by_cases goodbye : frame = .shutdown
    · rw [if_pos (by simpa using goodbye), if_pos goodbye]
      simp only [List.length_append, List.length_cons]
      omega
    · rw [if_neg (by simpa using goodbye), if_neg goodbye]
      rfl
  · intro other
    rw [left, List.filter_append, List.filter_append, List.filter_cons_of_neg (by simpa using other)]

private theorem sound_deliver (sound : Sound world) (stepped : world.step? (.deliver socket) = some next) :
    Sound next ∧ (Abandoned world → Abandoned next) ∧
      (¬ Abandoned world → (¬ Abandoned next ↔ Revokes world (.deliver socket))) := by
  rw [RelayWorld.step?, RelayWorld.deliver?] at stepped
  split at stepped
  · next key frame found =>
    obtain rfl := Option.some.inj stepped
    obtain ⟨rfl, member, counted, kept⟩ := filter_eraseP found
    have closes := core_onMessage world.hub key frame.raw ▸ closed_handleAgentMessage world.hub.core frame
    have empties (closed : (world.hub.onMessage key frame.raw).core.closed = true) :
        (world.hub.onMessage key frame.raw).core.latestSnapshot = none := by
      rw [core_onMessage] at closed ⊢
      exact latestSnapshot_handleAgentMessage (fun closed => (sound.closed closed).2) closed
    have one := sound.one
    by_cases goodbye : frame = .shutdown
    · subst goodbye
      obtain ⟨cancelled, away, open_⟩ := left_of_goodbye sound member
      have stopped := sound.leaves (.inl (List.ne_nil_of_mem (List.mem_filter.mpr ⟨member, by simp⟩)))
      rw [if_pos rfl] at counted
      have arrived : (world.flight.eraseP (·.1 = key)).filter (·.2 = AgentFrame.shutdown) = [] := by
        apply List.length_eq_zero_iff.mp
        unfold goodbyes at one
        omega
      refine ⟨⟨?_, sound.stopped, fun _ => stopped, fun closed => ⟨arrived, empties closed⟩⟩, ?_, fun _ => ?_⟩
      · exact (congrArg List.length arrived).trans_le (Nat.zero_le 1)
      · rintro ⟨_, _, empty, _⟩
        rw [goodbyes_eq sound member] at empty
        cases empty
      · rw [show Revokes world (.deliver key) ↔ world.hub.core.helloSeen = true from
          ⟨fun revokes => revokes found, fun seen _ => seen⟩]
        constructor
        · intro kept
          by_contra unseen
          refine kept ⟨cancelled, away, arrived, Bool.eq_false_iff.mpr fun closed => ?_⟩
          rcases closes.mp closed with already | ⟨seen, _⟩
          · rw [open_] at already
            cases already
          · exact unseen seen
        · rintro seen ⟨_, _, _, still⟩
          have closed := closes.mpr (.inr ⟨seen, rfl⟩)
          dsimp only at still
          rw [closed] at still
          cases still
    · have kept := kept goodbye
      have same : (world.hub.onMessage key frame.raw).core.closed = world.hub.core.closed := by
        apply Bool.eq_iff_iff.mpr
        rw [closes]
        exact or_iff_left fun both => goodbye both.2
      have unchanged : Abandoned { world with
          hub := world.hub.onMessage key frame.raw, flight := world.flight.eraseP (·.1 = key) } ↔ Abandoned world := by
        unfold Abandoned goodbyes
        rw [kept, same]
        rfl
      refine ⟨⟨?_, sound.stopped, ?_, ?_⟩, unchanged.mpr, fun lasting => ?_⟩
      · exact (congrArg List.length kept).trans_le one
      · rw [goodbyes, kept, same]
        exact sound.leaves
      · intro closed
        exact ⟨kept.trans (sound.closed (same ▸ closed)).1, empties closed⟩
      · refine iff_of_true (fun abandoned => lasting (unchanged.mp abandoned)) fun goodbyeFound => ?_
        rw [found] at goodbyeFound
        cases goodbyeFound
        exact absurd rfl goodbye
  · cases stepped

/-- A step that decides abandons the session exactly if it does not revoke it; what was abandoned stays so. -/
private theorem sound_step (sound : Sound world) (stepped : world.step? event = some next) :
    Sound next ∧ (Abandoned world → Abandoned next) ∧
      (¬ Abandoned world → (¬ Abandoned next ↔ Revokes world event)) := by
  by_cases decides : Decides event
  · cases event with
    | disconnect =>
      obtain ⟨kept, before, after⟩ := sound_disconnect sound stepped
      exact ⟨kept, fun abandoned => absurd abandoned before, fun _ => after⟩
    | cancelled sent => exact sound_cancelled sound stepped
    | lose socket => exact sound_lose sound stepped
    | deliver socket => exact sound_deliver sound stepped
    | _ => exact decides.elim
  · have quiet := quiet_of_step sound decides stepped
    have revokes : Revokes world event := by
      cases event with
      | disconnect | cancelled sent | lose socket | deliver socket => exact absurd trivial decides
      | _ => trivial
    exact ⟨quiet.sound sound, quiet.abandoned.mpr, fun kept => iff_of_true (mt quiet.abandoned.mp kept) revokes⟩

end Decisions

/-- Once the task has stopped and nothing is in flight, the session is revoked exactly if every step on the way was one
that revokes it. -/
theorem revoked_iff {agentKey : JsString} {events : List RelayWorldEvent} {world : RelayWorld}
    (run : run? RelayWorld.step? { agentKey } events = some world) (stopped : world.task.position = .stopped)
    (quiet : world.flight = []) :
    (world.hub.core.closed = true ∧ world.hub.core.latestSnapshot = none) ↔
      Meets RelayWorld.step? Revokes { agentKey } events := by
  have initially : Sound { agentKey } :=
    ⟨Nat.zero_le 1, nofun, fun left => left.elim (fun sent => absurd rfl sent) nofun, nofun⟩
  have here : ¬ Abandoned { agentKey } := fun abandoned => nomatch abandoned.1
  have sound : Sound world := run?_preserves Sound (fun _ _ _ sound stepped => (sound_step sound stepped).1) initially run
  constructor
  · rintro ⟨closed, _⟩
    refine meets_of_undamaged (fun _ _ _ sound stepped => (sound_step sound stepped).1) ?_
      (fun _ _ _ sound abandoned stepped => (sound_step sound stepped).2.1 abandoned) initially run
      (fun abandoned => absurd (closed.symm.trans abandoned.2.2.2) nofun)
    intro state event next sound stepped violated
    obtain ⟨_, lasts, exactly⟩ := sound_step sound stepped
    by_cases abandoned : Abandoned state
    · exact lasts abandoned
    · exact not_not.mp (mt (exactly abandoned).mp violated)
  · intro meets
    have kept : Sound world ∧ ¬ Abandoned world := by
      refine run?_invariant (fun state => Sound state ∧ ¬ Abandoned state) ?_ ⟨initially, here⟩ meets run
      intro state event next now revokes stepped
      obtain ⟨sound, _, exactly⟩ := sound_step now.1 stepped
      exact ⟨sound, (exactly now.2).mpr revokes⟩
    have closed : world.hub.core.closed = true := by
      by_contra opened
      refine kept.2 ⟨sound.stopped stopped, ?_, ?_, Bool.eq_false_iff.mpr opened⟩
      · rintro ⟨socket, pending, serving⟩
        rw [stopped] at serving
        cases serving
      · rw [goodbyes, quiet]
        rfl
    exact ⟨closed, (sound.closed closed).2⟩

/-- The agent connects, and the hub accepts its hello. -/
private def greeted : List RelayWorldEvent := [.attach, .opened true, .deliver 0]

/-- The goodbye arrives. -/
private def leaving : List RelayWorldEvent := greeted ++ [RelayWorldEvent.disconnect, .cancelled true, .deliver 0]

private def empty : WebSnapshot := ⟨.obj [], rfl⟩

/-- A snapshot is sent, and the user disconnects while the task waits to connect again. -/
private def waiting : List RelayWorldEvent := greeted ++
  [RelayWorldEvent.pushSnapshot empty, .takeSnapshot, .tick true true, .deliver 0, .socketClosed, .connectFailed,
    .disconnect, .cancelled true]

private def isRevoked (world : RelayWorld) : Bool :=
  world.task.position = .stopped ∧ world.flight = [] ∧ world.hub.core.closed = true ∧ world.hub.core.latestSnapshot = none

private def isKept (world : RelayWorld) : Bool :=
  world.task.position = .stopped ∧ world.flight = [] ∧ world.hub.core.agentKey = some (js "k") ∧
    ¬(world.hub.core.closed = true ∧ world.hub.core.latestSnapshot = none)

private theorem reached : ((run? RelayWorld.step? { agentKey := js "k" } leaving).map isRevoked) = some true ∧
    ((run? RelayWorld.step? { agentKey := js "k" } waiting).map isKept) = some true := by
  decide +kernel

theorem revoked_iff_leaving : ∃ world, run? RelayWorld.step? { agentKey := js "k" } leaving = some world ∧
    world.hub.core.closed = true ∧ Meets RelayWorld.step? Revokes { agentKey := js "k" } leaving := by
  obtain ⟨world, run, holds⟩ := Option.map_eq_some_iff.mp (reached).1
  obtain ⟨stopped, quiet, revoked⟩ := of_decide_eq_true holds
  exact ⟨world, run, revoked.1, (revoked_iff run stopped quiet).mp revoked⟩

/-- A disconnect while the task waits to connect again leaves the session open, with its snapshot. -/
theorem not_revoked_waiting : ∃ world, run? RelayWorld.step? { agentKey := js "k" } waiting = some world ∧
    world.task.position = .stopped ∧ world.flight = [] ∧ world.hub.core.agentKey = some (js "k") ∧
    ¬(world.hub.core.closed = true ∧ world.hub.core.latestSnapshot = none) := by
  obtain ⟨world, run, holds⟩ := Option.map_eq_some_iff.mp (reached).2
  exact ⟨world, run, of_decide_eq_true holds⟩

end PieAgent.Soundness.RelayRevocation
