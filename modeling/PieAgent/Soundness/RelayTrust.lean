import PieAgent.Machine.Core.Labeled
import PieAgent.Model.Hub.SessionRelay

/-! # Whom the session relay trusts

The core keeps one flag for all sockets, and a socket receives what the viewers send from the moment it is
attached. So the relay trusts only the authenticated agent as long as it takes frames from the current socket
alone, and no viewer sends anything between the attachment of a socket and its hello.
-/

namespace PieAgent.Soundness

open JavaScript Machine Model.Hub

/-- The socket has sent a hello with the key. -/
def SentHello (events : List RelayEvent) (socket : ℕ) (key : JsString) : Prop :=
  ∃ raw frame, .message socket raw ∈ events ∧ parse? raw = some frame ∧ helloKey? frame = some key

/-- The socket is the current one, and has sent a hello with the pinned key. -/
def Trusted (relay : SessionRelay) (events : List RelayEvent) (socket : ℕ) : Prop :=
  relay.agentSocket = some socket ∧ ∃ key, relay.core.agentKey = some key ∧ SentHello events socket key

/-- The core takes the frame for a snapshot, or for the end of the session. -/
def AcceptsFrame (core : RelayCore) (raw : List Char) : Prop :=
  core.closed = false ∧
    ((∃ snapshot, (core.handleAgentMessage raw).2 = .broadcast snapshot) ∨ (core.handleAgentMessage raw).2 = .shutdown)

/-- After the events of a run, a frame is accepted from a trusted socket only, and a request is forwarded to a trusted
socket only. -/
def TrustsOnly (relay : SessionRelay) (events : List RelayEvent) : RelayEvent → Prop
  | .message socket raw => AcceptsFrame relay.core raw → Trusted relay events socket
  | .request request => ∀ socket frame, relay.forwarded? request = some (socket, frame) → Trusted relay events socket
  | _ => True

/-- The core makes nothing of the frame. -/
def IgnoresFrame (core : RelayCore) (raw : List Char) : Prop :=
  core.closed = true ∨ (∃ reason, (core.handleAgentMessage raw).2 = .reject reason) ∨
    (core.handleAgentMessage raw).2 = .throws

/-- Frames of other sockets than the current one are ignored, and requests come when the current socket has said
hello, or when there is none. -/
def HandledInTurn (relay : SessionRelay) : RelayEvent → Prop
  | .message socket raw => relay.agentSocket = some socket ∨ IgnoresFrame relay.core raw
  | .request _ => relay.core.helloSeen = true ∨ relay.agentSocket = none
  | _ => True

section Core

variable {core : RelayCore} {raw : List Char}

/-- What the core does with a frame. -/
private theorem handleAgentMessage_cases (core : RelayCore) (raw : List Char) :
    ((core.handleAgentMessage raw).1 = core ∧ IgnoresFrame core raw) ∨
    (∃ frame key, parse? raw = some frame ∧ helloKey? frame = some key ∧
      core.handleAgentMessage raw = ({ core with agentKey := some key, helloSeen := true }, .accept)) ∨
    (core.helloSeen = true ∧ (core.handleAgentMessage raw).1.agentKey = core.agentKey ∧
      AcceptsFrame core raw) := by
  unfold IgnoresFrame AcceptsFrame RelayCore.handleAgentMessage
  by_cases closed : core.closed = true
  · rw [if_pos closed]
    exact .inl ⟨rfl, .inl closed⟩
  rw [if_neg closed]
  by_cases oversized : maxAgentFrameBytes < (ofText raw).length
  · rw [if_pos oversized]
    exact .inl ⟨rfl, .inr (.inl ⟨_, rfl⟩)⟩
  rw [if_neg oversized]
  split
  · exact .inl ⟨rfl, .inr (.inl ⟨_, rfl⟩)⟩
  · exact .inl ⟨rfl, .inr (.inr rfl)⟩
  next frame _ parsed =>
    by_cases seen : core.helloSeen = true
    · rw [if_pos seen]
      unfold RelayCore.handleFrame
      split
      · exact .inr (.inr ⟨seen, rfl, Bool.eq_false_iff.mpr closed, .inl ⟨_, rfl⟩⟩)
      · split
        · exact .inr (.inr ⟨seen, rfl, Bool.eq_false_iff.mpr closed, .inr rfl⟩)
        · exact .inl ⟨rfl, .inr (.inl ⟨_, rfl⟩)⟩
    · rw [if_neg seen]
      unfold RelayCore.handleHello
      cases hello : helloKey? frame with
      | none => exact .inl ⟨rfl, .inr (.inl ⟨_, rfl⟩)⟩
      | some key =>
        dsimp only
        cases pinned : core.agentKey with
        | none => exact .inr (.inl ⟨frame, key, parsed, hello, rfl⟩)
        | some pin =>
          dsimp only
          by_cases same : pin = key
          · rw [if_pos same]
            refine .inr (.inl ⟨frame, key, parsed, hello, ?_⟩)
            rw [← same, ← pinned]
          · rw [if_neg same]
            exact .inl ⟨rfl, .inr (.inl ⟨_, rfl⟩)⟩

/-- A frame that is ignored is not accepted. -/
private theorem not_accepts_of_ignores (ignores : IgnoresFrame core raw) : ¬AcceptsFrame core raw := by
  rintro ⟨open_, accepts⟩
  rcases ignores with closed | ⟨reason, rejects⟩ | throws
  · rw [open_] at closed
    cases closed
  · rw [rejects] at accepts
    simp at accepts
  · rw [throws] at accepts
    simp at accepts

end Core

section Runs

variable {relay next : SessionRelay} {events : List RelayEvent} {event : RelayEvent} {socket : ℕ} {key : JsString}

private theorem SentHello.mono (sent : SentHello events socket key) : SentHello (events ++ [event]) socket key := by
  obtain ⟨raw, frame, member, parsed, hello⟩ := sent
  exact ⟨raw, frame, List.mem_append_left _ member, parsed, hello⟩

/-- When a hello has been seen, the current socket has sent it. -/
private def Authenticated (events : List RelayEvent) (relay : SessionRelay) : Prop :=
  relay.core.helloSeen = true → ∀ socket, relay.agentSocket = some socket → Trusted relay events socket

/-- The agent socket is kept or goes. -/
private theorem agentSocket_drop (relay : SessionRelay) (socket : ℕ) :
    (relay.drop socket).core = relay.core ∧
      ((relay.drop socket).agentSocket = relay.agentSocket ∨ (relay.drop socket).agentSocket = none) := by
  unfold SessionRelay.drop
  split
  · exact ⟨rfl, .inr rfl⟩
  · exact ⟨rfl, .inl rfl⟩

private theorem agentSocket_onMessage (relay : SessionRelay) (socket : ℕ) (raw : List Char) :
    (relay.onMessage socket raw).core = (relay.core.handleAgentMessage raw).1 ∧
      ((relay.onMessage socket raw).agentSocket = relay.agentSocket ∨
        (relay.onMessage socket raw).agentSocket = none) := by
  unfold SessionRelay.onMessage
  dsimp only
  split
  · exact ⟨rfl, .inl rfl⟩
  · exact ⟨rfl, .inl rfl⟩
  · exact ⟨rfl, .inl rfl⟩
  · exact ⟨rfl, .inr rfl⟩
  · exact agentSocket_drop { relay with core := (relay.core.handleAgentMessage raw).1 } socket

/-- A step that keeps the core and at most loses the socket. -/
private theorem Authenticated.kept (known : Authenticated events relay) (hello : next.core.helloSeen = relay.core.helloSeen)
    (pinned : next.core.agentKey = relay.core.agentKey)
    (socket : next.agentSocket = relay.agentSocket ∨ next.agentSocket = none) :
    Authenticated (events ++ [event]) next := by
  intro seen current isCurrent
  rcases socket with same | gone
  · obtain ⟨_, key, pins, sent⟩ := known (hello ▸ seen) current (same ▸ isCurrent)
    exact ⟨isCurrent, key, pinned.trans pins, sent.mono⟩
  · rw [gone] at isCurrent
    cases isCurrent

private theorem Authenticated.step (known : Authenticated events relay) (inTurn : HandledInTurn relay event)
    (stepped : relay.step event = some next) : Authenticated (events ++ [event]) next := by
  cases event with
  | upgrade =>
    cases stepped
    exact nofun
  | dropped socket =>
    obtain ⟨_, same⟩ := Option.ite_none_right_eq_some.mp stepped
    cases same
    obtain ⟨core, current⟩ := agentSocket_drop relay socket
    exact known.kept (congrArg _ core) (congrArg _ core) current
  | request request =>
    cases stepped
    exact known.kept rfl rfl (.inl rfl)
  | message socket raw =>
    obtain ⟨_, same⟩ := Option.ite_none_right_eq_some.mp stepped
    cases same
    obtain ⟨core, current⟩ := agentSocket_onMessage relay socket raw
    rcases handleAgentMessage_cases relay.core raw with ⟨kept, _⟩ | ⟨frame, key, parsed, hello, taken⟩ |
      ⟨seen, pinned, accepts⟩
    · rw [kept] at core
      exact known.kept (congrArg _ core) (congrArg _ core) current
    · -- A hello: by the condition its socket is the current one.
      have own : relay.agentSocket = some socket := by
        rcases inTurn with own | closed | ⟨reason, rejects⟩ | throws
        · exact own
        · rw [RelayCore.handleAgentMessage, if_pos closed] at taken
          cases (Prod.mk.inj taken).2
        · rw [taken] at rejects
          cases rejects
        · rw [taken] at throws
          cases throws
      rw [taken] at core
      intro _ now isCurrent
      have same : now = socket := by
        rcases current with kept | gone
        · exact Option.some.inj (isCurrent.symm.trans (kept.trans own))
        · rw [gone] at isCurrent
          cases isCurrent
      subst same
      exact ⟨isCurrent, key, by rw [core], raw, frame, List.mem_append_right _ (List.mem_singleton.mpr rfl), parsed, hello⟩
    · intro _ now isCurrent
      rcases current with kept | gone
      · obtain ⟨_, key, pins, sent⟩ := known seen now (kept ▸ isCurrent)
        exact ⟨isCurrent, key, by rw [core, pinned, pins], sent.mono⟩
      · rw [gone] at isCurrent
        cases isCurrent

/-- A relay that has handled its frames and requests in turn trusts the authenticated agent only. -/
theorem relay_trusts_agent (run : run? SessionRelay.step {} events = some relay)
    (meets : Meets SessionRelay.step HandledInTurn {} (events ++ [event])) : TrustsOnly relay events event := by
  have fresh : Authenticated [] {} := fun seen => nomatch (show false = true from seen)
  have known : Authenticated events relay :=
    @run?_history _ _ _ _ _ _ _ Authenticated (fun _ _ _ _ => Authenticated.step) [] fresh meets.before run
  have inTurn : HandledInTurn relay event := (meets.after run).1
  cases event with
  | upgrade => trivial
  | dropped socket => trivial
  | message socket raw =>
    intro accepts
    rcases inTurn with own | ignores
    · rcases handleAgentMessage_cases relay.core raw with ⟨_, ignores⟩ | ⟨_, _, _, _, taken⟩ | ⟨seen, _, _⟩
      · exact absurd accepts (not_accepts_of_ignores ignores)
      · have taken := congrArg Prod.snd taken
        rcases accepts.2 with ⟨snapshot, broadcast⟩ | shutdown
        · cases broadcast.symm.trans taken
        · cases shutdown.symm.trans taken
      · exact known seen socket own
    · exact absurd accepts (not_accepts_of_ignores ignores)
  | request request =>
    intro socket frame forwarded
    unfold SessionRelay.forwarded? at forwarded
    split at forwarded
    · cases forwarded
    · obtain ⟨_, _, forwarded⟩ := Option.bind_eq_some_iff.mp forwarded
      obtain ⟨current, isCurrent, same⟩ := Option.bind_eq_some_iff.mp forwarded
      cases same
      rcases inTurn with seen | none_
      · exact known seen socket isCurrent
      · rw [none_] at isCurrent
        cases isCurrent

end Runs

private def helloFrame : List Char := "\x7b\"type\":\"hello\",\"agent_key\":\"k\"\x7d".toList

private def snapshotFrame : List Char := "\x7b\"type\":\"snapshot\",\"data\":0\x7d".toList

/-- The relay behind the first hello. -/
private def greeted : SessionRelay where
  core := { agentKey := some (js "k"), helloSeen := true }
  agentSocket := some 0
  attached := 1

private theorem frames_read :
    SessionRelay.step { agentSocket := some 0, attached := 1 } (.message 0 helloFrame) = some greeted ∧
    run? SessionRelay.step {} [.upgrade, .message 0 helloFrame] = some greeted ∧
    run? SessionRelay.step {} [.upgrade, .upgrade, .message 0 helloFrame] =
      some { greeted with agentSocket := some 1, attached := 2 } ∧
    (greeted.core.handleAgentMessage snapshotFrame).2 = .broadcast ['0'] := by
  decide +kernel

theorem relay_trusts_agent_snapshot : TrustsOnly
    { core := { agentKey := some (js "k"), helloSeen := true }, agentSocket := some 0, attached := 1 }
    [.upgrade, .message 0 helloFrame] (.message 0 snapshotFrame) := by
  have inTurn : Meets SessionRelay.step HandledInTurn {}
      ([RelayEvent.upgrade, RelayEvent.message 0 helloFrame] ++ [RelayEvent.message 0 snapshotFrame]) := by
    refine ⟨trivial, fun attached stepped => ?_⟩
    cases stepped
    refine ⟨.inl rfl, fun next stepped => ?_⟩
    cases (frames_read).1.symm.trans stepped
    exact ⟨.inl rfl, fun _ _ => trivial⟩
  exact relay_trusts_agent (frames_read).2.1 inTurn

/-- A socket is sent what a viewer asks before it has said hello, and one that never says hello is believed when the
hello of the socket before it is still under way. -/
theorem relay_trusts_unauthenticated :
    (∃ relay, run? SessionRelay.step {} [.upgrade, .message 0 helloFrame, .upgrade] = some relay ∧
      ¬TrustsOnly relay [.upgrade, .message 0 helloFrame, .upgrade] (.request .abort)) ∧
    ∃ relay, run? SessionRelay.step {} [.upgrade, .upgrade, .message 0 helloFrame] = some relay ∧
      ¬TrustsOnly relay [.upgrade, .upgrade, .message 0 helloFrame] (.message 1 snapshotFrame) := by
  have silent (events : List RelayEvent) (others : ∀ raw, .message 1 raw ∉ events) (relay : SessionRelay) :
      ¬Trusted relay events 1 := by
    rintro ⟨_, _, _, raw, _, member, _⟩
    exact others raw member
  obtain ⟨-, first, second, snapshot⟩ := frames_read
  constructor
  · refine ⟨greeted.handleAgentUpgrade, run?_append.mpr ⟨greeted, first, rfl⟩, fun trusts => ?_⟩
    exact silent _ (by simp) _ (trusts 1 .abort rfl)
  · refine ⟨_, second, fun trusts => silent _ (by simp) _ (trusts ⟨rfl, .inl ⟨['0'], snapshot⟩⟩)⟩

end PieAgent.Soundness
