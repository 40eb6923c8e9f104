import PieAgent.Machine.Core.Labeled
import PieAgent.Model.Agent.ContinuationCycle

/-! # Whether an abort ends the continuation cycle

The cap bounds the turns of a call. An abort sets the signal of what runs at the moment and is forgotten then: the hook may
go on after a turn that was aborted or failed, and no signal is there where a call prepares a turn. So an abort is the end
of the cycle if it does not fall between turns, and if the hook does not go on after it.
-/

namespace PieAgent.Soundness.AbortedCycles

open JavaScript Machine Model

/-- The next thing that the call does is to start a turn. -/
def TowardsTurn : CyclePosition → Prop
  | .starting | .preparing _ | .recording _ (some _) | .continuing _ => True
  | _ => False

/-- The call has run no turn, or its last one ended well. -/
def EndedWell (call : CycleCall) : Prop :=
  ∀ message, call.assistantMessage = some message → message.stopReason ≠ .error ∧ message.stopReason ≠ .aborted

/-- An abort comes while a turn or the hook runs, or when no turn will follow, and the hook goes on only after a turn that
ended well in a call that was not aborted. -/
def Heeds (call : CycleCall) : CycleEvent → Prop
  | .abort => ¬ TowardsTurn call.position
  | .decided decision => (∃ prompt, decision.action = .continue prompt) → call.aborted = false ∧ EndedWell call
  | _ => True

variable {call next : CycleCall} {event : CycleEvent} {past : List CycleEvent} {limit : ℕ}

section Steps

/-- An event that ends an await: it is one of the position, and leaves whether the call was aborted. -/
private theorem turnOver_cases (call : CycleCall) : call.turnOver.aborted = call.aborted ∧
    call.turnOver.continuationCount = call.continuationCount ∧ call.turnOver.turnContinuationCap = call.turnContinuationCap ∧
    ¬ TowardsTurn call.turnOver.position ∧ (∀ transcript, call.turnOver.position ≠ .hooking transcript) ∧
    (call.turnOver.position = .asking → call.continuationCount < call.turnContinuationCap) := by
  unfold CycleCall.turnOver
  split_ifs with silent spent
  · exact ⟨rfl, rfl, rfl, id, nofun, nofun⟩
  · exact ⟨rfl, rfl, rfl, id, nofun, nofun⟩
  · exact ⟨rfl, rfl, rfl, id, nofun, fun _ => not_le.mp spent⟩

/-- What the machine keeps whatever the hook and the aborts are. -/
structure Counted (limit : ℕ) (past : List CycleEvent) (call : CycleCall) : Prop where
  cap : call.turnContinuationCap = limit
  aborted : .abort ∈ past → call.aborted = true
  turns : past.count .launched ≤ call.continuationCount + 1
  towards : TowardsTurn call.position → past.count .launched ≤ call.continuationCount
  capped : call.continuationCount ≤ limit
  asking : call.position = .asking ∨ (∃ transcript, call.position = .hooking transcript) → call.continuationCount < limit

/-- A turn is on its way only in a call that was not aborted, after a turn that ended well. -/
def Clear (call : CycleCall) : Prop := TowardsTurn call.position → call.aborted = false ∧ EndedWell call

private theorem count_concat (past : List CycleEvent) (event : CycleEvent) :
    (past ++ [event]).count .launched = past.count .launched + if event = .launched then 1 else 0 := by
  rw [List.count_append, List.count_singleton]
  simp

private theorem mem_concat (member : .abort ∈ past ++ [event]) (other : event ≠ .abort) : .abort ∈ past := by
  rcases List.mem_append.mp member with before | here
  · exact before
  · exact absurd (List.mem_singleton.mp here).symm other

/-- A step that neither starts a turn nor goes towards one keeps the counts. -/
private theorem Counted.quiet (counted : Counted limit past call) (other : event ≠ .launched ∧ event ≠ .abort)
    (aborted : next.aborted = call.aborted) (count : next.continuationCount = call.continuationCount)
    (cap : next.turnContinuationCap = call.turnContinuationCap)
    (towards : TowardsTurn next.position → TowardsTurn call.position)
    (asking : next.position = .asking ∨ (∃ transcript, next.position = .hooking transcript) →
      call.continuationCount < limit) : Counted limit (past ++ [event]) next where
  cap := cap.trans counted.cap
  aborted := fun member => aborted.trans (counted.aborted (mem_concat member other.2))
  turns := by
    rw [count_concat, if_neg other.1, count]
    exact counted.turns
  towards := fun goes => by
    rw [count_concat, if_neg other.1, count]
    exact counted.towards (towards goes)
  capped := count.trans_le counted.capped
  asking := fun asks => count.trans_lt (asking asks)

private theorem counted_decide (counted : Counted limit past call) (decision : TurnEndDecision)
    (left : call.continuationCount < limit) :
    Counted limit (past ++ [CycleEvent.decided decision]) (call.decide decision) := by
  have turns : (past ++ [CycleEvent.decided decision]).count .launched ≤ call.continuationCount + 1 := by
    rw [count_concat, if_neg nofun]
    exact counted.turns
  have aborted (member : .abort ∈ past ++ [.decided decision]) : call.aborted = true :=
    counted.aborted (mem_concat member nofun)
  unfold CycleCall.decide
  cases decision.action with
  | noop => exact ⟨counted.cap, aborted, turns, False.elim, left.le, fun asks => asks.elim nofun nofun⟩
  | stop => exact ⟨counted.cap, aborted, turns, False.elim, left.le, fun asks => asks.elim nofun nofun⟩
  | pause reason => exact ⟨counted.cap, aborted, turns, False.elim, left.le, fun asks => asks.elim nofun nofun⟩
  | «continue» prompt =>
    exact ⟨counted.cap, aborted, turns.trans (Nat.le_succ _), fun _ => turns, left, fun asks => asks.elim nofun nofun⟩

/-- Every step keeps the counts. -/
private theorem counted_step (counted : Counted limit past call) (stepped : call.step? event = some next) :
    Counted limit (past ++ [event]) next := by
  cases event with
  | abort =>
    obtain rfl := Option.some.inj stepped
    refine ⟨counted.cap, fun _ => rfl, ?_, fun goes => ?_, counted.capped, counted.asking⟩
    · rw [count_concat, if_neg nofun]
      exact counted.turns
    · rw [count_concat, if_neg nofun]
      exact counted.towards goes
  | ready messages =>
    rw [CycleCall.step?] at stepped
    split at stepped
    · next position =>
      obtain rfl := Option.some.inj stepped
      exact counted.quiet ⟨nofun, nofun⟩ rfl rfl rfl (fun _ => position ▸ trivial) fun asks => asks.elim nofun nofun
    · next position =>
      obtain rfl := Option.some.inj stepped
      exact counted.quiet ⟨nofun, nofun⟩ rfl rfl rfl False.elim fun _ => counted.asking (.inl position)
    · next prompt position =>
      obtain rfl := Option.some.inj stepped
      exact counted.quiet ⟨nofun, nofun⟩ rfl rfl rfl (fun _ => position ▸ trivial) fun asks => asks.elim nofun nofun
    · cases stepped
  | launched =>
    rw [CycleCall.step?] at stepped
    split at stepped
    · next text position =>
      obtain rfl := Option.some.inj stepped
      refine ⟨counted.cap, fun member => counted.aborted (mem_concat member nofun), ?_, False.elim, counted.capped,
        fun asks => asks.elim nofun nofun⟩
      rw [count_concat, if_pos rfl]
      exact Nat.succ_le_succ (counted.towards (position ▸ trivial))
    · cases stepped
  | turnEnded message =>
    rw [CycleCall.step?] at stepped
    split_ifs at stepped
    obtain rfl := Option.some.inj stepped
    exact counted.quiet ⟨nofun, nofun⟩ rfl rfl rfl False.elim fun asks => asks.elim nofun nofun
  | flushed =>
    rw [CycleCall.step?] at stepped
    split at stepped
    · next message position =>
      obtain rfl := Option.some.inj stepped
      obtain ⟨aborted, count, cap, away, noHook, asks⟩ := turnOver_cases
        { call with assistantMessage := some message, runAbortController := none }
      refine counted.quiet ⟨nofun, nofun⟩ aborted count cap (fun goes => absurd goes away) fun asking => ?_
      rcases asking with asking | ⟨transcript, hooking⟩
      · exact (asks asking).trans_eq counted.cap
      · exact absurd hooking (noHook transcript)
    · cases stepped
  | decided decision =>
    rw [CycleCall.step?] at stepped
    split at stepped
    · next transcript position =>
      obtain rfl := Option.some.inj stepped
      exact counted_decide counted decision (counted.asking (.inr ⟨transcript, position⟩))
    · cases stepped
  | recorded persisted =>
    rw [CycleCall.step?] at stepped
    split at stepped
    · next record prompt position =>
      obtain rfl := Option.some.inj stepped
      cases prompt with
      | none => exact counted.quiet ⟨nofun, nofun⟩ rfl rfl rfl False.elim fun asks => asks.elim nofun nofun
      | some prompt =>
        exact counted.quiet ⟨nofun, nofun⟩ rfl rfl rfl (fun _ => position ▸ trivial) fun asks => asks.elim nofun nofun
    · cases stepped
  | failed =>
    rw [CycleCall.step?] at stepped
    split at stepped
    · cases stepped
    · cases stepped
    · cases stepped
    · obtain rfl := Option.some.inj stepped
      exact counted.quiet ⟨nofun, nofun⟩ rfl rfl rfl False.elim fun asks => asks.elim nofun nofun

/-- A step that heeds the aborts keeps the way to a turn clear. -/
private theorem clear_step (clear : Clear call) (heeds : Heeds call event) (stepped : call.step? event = some next) :
    Clear next := by
  intro goes
  cases event with
  | abort =>
    obtain rfl := Option.some.inj stepped
    exact absurd goes heeds
  | ready messages =>
    rw [CycleCall.step?] at stepped
    split at stepped
    · next position =>
      obtain rfl := Option.some.inj stepped
      exact clear (position ▸ trivial)
    · obtain rfl := Option.some.inj stepped
      exact goes.elim
    · next prompt position =>
      obtain rfl := Option.some.inj stepped
      exact clear (position ▸ trivial)
    · cases stepped
  | launched =>
    rw [CycleCall.step?] at stepped
    split at stepped
    · obtain rfl := Option.some.inj stepped
      exact goes.elim
    · cases stepped
  | turnEnded message =>
    rw [CycleCall.step?] at stepped
    split_ifs at stepped
    obtain rfl := Option.some.inj stepped
    exact goes.elim
  | flushed =>
    rw [CycleCall.step?] at stepped
    split at stepped
    · obtain rfl := Option.some.inj stepped
      exact absurd goes (turnOver_cases _).2.2.2.1
    · cases stepped
  | decided decision =>
    rw [CycleCall.step?] at stepped
    split at stepped
    · obtain rfl := Option.some.inj stepped
      unfold CycleCall.decide at goes ⊢
      cases action : decision.action with
      | «continue» prompt => exact heeds ⟨prompt, action⟩
      | _ =>
        rw [action] at goes
        exact goes.elim
    · cases stepped
  | recorded persisted =>
    rw [CycleCall.step?] at stepped
    split at stepped
    · next record prompt position =>
      obtain rfl := Option.some.inj stepped
      cases prompt with
      | none => exact goes.elim
      | some prompt => exact clear (position ▸ trivial)
    · cases stepped
  | failed =>
    rw [CycleCall.step?] at stepped
    split at stepped
    · cases stepped
    · cases stepped
    · cases stepped
    · obtain rfl := Option.some.inj stepped
      exact goes.elim

end Steps

/-- The start of a turn: the call was not aborted before it, and the turn before it ended well. -/
def StartsWell (initial : CycleCall) (past : List CycleEvent) : Prop :=
  .abort ∉ past ∧ ∀ call, run? CycleCall.step? initial past = some call → EndedWell call

/-- A call runs one turn and at most as many further ones as the cap says; and if the aborts are heeded, none starts after
an abort or after a turn that did not end well. -/
theorem aborted_cycle {text : Option JsString} {onTurnEnd : Bool} {cap : ℕ} {events : List CycleEvent} {final : CycleCall}
    (reached : run? CycleCall.step? { text, onTurnEnd, turnContinuationCap := cap } events = some final) :
    events.count .launched ≤ cap + 1 ∧
      (Meets CycleCall.step? Heeds { text, onTurnEnd, turnContinuationCap := cap } events →
        ∀ past rest, events = past ++ .launched :: rest →
          StartsWell { text, onTurnEnd, turnContinuationCap := cap } past) := by
  have initially : Counted cap [] { text, onTurnEnd, turnContinuationCap := cap } :=
    ⟨rfl, nofun, Nat.zero_le _, fun _ => Nat.zero_le _, Nat.zero_le _, fun asks => asks.elim nofun nofun⟩
  have counted {past : List CycleEvent} {call : CycleCall}
      (run : run? CycleCall.step? { text, onTurnEnd, turnContinuationCap := cap } past = some call) :
      Counted cap past call :=
    run?_history (Counted cap) (fun _ _ _ _ counted _ stepped => counted_step counted stepped) initially
      (meets_of_forall fun _ _ => trivial) run
  constructor
  · exact (counted reached).turns.trans (Nat.succ_le_succ (counted reached).capped)
  · rintro meets past rest rfl
    obtain ⟨call, run, more⟩ := run?_append.mp reached
    have clear : Clear call := by
      refine run?_invariant Clear (fun _ _ _ clear heeds stepped => clear_step clear heeds stepped) ?_ meets.before run
      exact fun _ => ⟨rfl, nofun⟩
    obtain ⟨next, stepped, _⟩ := run?_cons.mp more
    have towards : TowardsTurn call.position := by
      rw [CycleCall.step?] at stepped
      split at stepped
      · next position => exact position ▸ trivial
      · cases stepped
    obtain ⟨fresh, well⟩ := clear towards
    refine ⟨fun member => ?_, fun other same => ?_⟩
    · rw [(counted run).aborted member] at fresh
      cases fresh
    · cases run.symm.trans same
      exact well

private def answered (stopReason : StopReason) : AssistantMessage where
  content := []
  api := []
  provider := []
  model := []
  usage := ⟨0, 0, 0, 0, 0⟩
  stopReason
  timestamp := .millis 0

/-- A turn with its end, and a hook that goes on. -/
private def turn (stopReason : StopReason) : List CycleEvent :=
  [.turnEnded (answered stopReason), .flushed, .ready [], .decided { action := .continue (js "go on") }, .recorded true,
    .ready []]

private def asked : CycleCall := { text := some (js "hi"), onTurnEnd := true, turnContinuationCap := 25 }

theorem aborted_cycle_go_on : StartsWell asked ([.ready [], .launched] ++ turn .stop) := by
  obtain ⟨final, reached⟩ := Option.isSome_iff_exists.mp
    (by decide : (run? CycleCall.step? asked
      ([CycleEvent.ready [], CycleEvent.launched] ++ turn .stop ++ [CycleEvent.launched])).isSome)
  refine (aborted_cycle reached).2 ?_ ([CycleEvent.ready [], CycleEvent.launched] ++ turn .stop) [] rfl
  refine ⟨trivial, fun started stepped => ?_⟩
  cases stepped
  refine ⟨trivial, fun running stepped => ?_⟩
  cases stepped
  refine ⟨trivial, fun ended stepped => ?_⟩
  cases stepped
  refine ⟨trivial, fun flushed stepped => ?_⟩
  cases stepped
  refine ⟨trivial, fun hooking stepped => ?_⟩
  cases stepped
  refine ⟨fun _ => ⟨rfl, ?_⟩, fun recording stepped => ?_⟩
  · rintro message ⟨⟩
    exact ⟨nofun, nofun⟩
  · cases stepped
    exact ⟨trivial, fun _ _ => ⟨trivial, fun _ _ => ⟨trivial, fun _ _ => trivial⟩⟩⟩

/-- A call that is aborted in a turn starts another one, and so does a call whose turn failed. -/
theorem aborted_cycle_goes_on :
    (∃ final, run? CycleCall.step? asked ([.ready [], .launched, .abort] ++ turn .aborted ++ [.launched]) = some final) ∧
      ∃ call final, run? CycleCall.step? asked ([.ready [], .launched] ++ turn .error) = some call ∧ ¬ EndedWell call ∧
        call.step? .launched = some final := by
  constructor
  · exact Option.isSome_iff_exists.mp (by decide)
  · refine ⟨_, _, rfl, fun well => ?_, rfl⟩
    exact (well (answered .error) rfl).1 rfl

end PieAgent.Soundness.AbortedCycles
