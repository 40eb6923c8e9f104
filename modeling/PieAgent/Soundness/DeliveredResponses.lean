import PieAgent.Machine.Core.Labeled
import PieAgent.Model.Mcp.Client

/-! # Delivered responses and later cancels

A response that the pump has delivered should win over a signal that is aborted later. The signal is deferred by one
microtask, but the response needs six of them until the promise of `wait` is settled. If the signal is aborted only when
this has happened, the response wins. A signal that is aborted in the same turn as the response wins over it.
-/

namespace PieAgent.Soundness.DeliveredResponses

open JavaScript Machine Model.Mcp ToolCall

variable {call next final : ToolCall} {microtask : Microtask} {microtasks : List Microtask} {outcome : Outcome}
  {event : Event} {events before after : List Event} {settlement : InflightSettlement}

section Chains

/-- What neither carries an outcome nor cancels. -/
def IsSide : Microtask → Bool
  | .foreign | .race _ | .thunk => true
  | _ => false

def IsCommit : Microtask → Bool
  | .commit => true
  | _ => false

/-- The microtasks that carry an outcome, and those that cancel. -/
def ordered (microtasks : List Microtask) : List Microtask := microtasks.filter fun microtask => !IsSide microtask

/-- The microtasks that carry an outcome. -/
def chain (microtasks : List Microtask) : List Microtask :=
  microtasks.filter fun microtask => !IsSide microtask && !IsCommit microtask

@[simp] private theorem ordered_append (first second : List Microtask) :
    ordered (first ++ second) = ordered first ++ ordered second :=
  List.filter_append ..

@[simp] private theorem chain_append (first second : List Microtask) :
    chain (first ++ second) = chain first ++ chain second :=
  List.filter_append ..

private theorem ordered_cons_side (side : IsSide microtask = true) :
    ordered (microtask :: microtasks) = ordered microtasks :=
  List.filter_cons_of_neg (by simp [side])

private theorem chain_cons_side (side : IsSide microtask = true) : chain (microtask :: microtasks) = chain microtasks :=
  List.filter_cons_of_neg (by simp [side])

private theorem ordered_cons (carries : IsSide microtask = false) :
    ordered (microtask :: microtasks) = microtask :: ordered microtasks :=
  List.filter_cons_of_pos (by simp [carries])

private theorem chain_cons_commit : chain (.commit :: microtasks) = chain microtasks :=
  List.filter_cons_of_neg (by simp [IsCommit])

private theorem chain_cons (carries : IsSide microtask = false) (other : IsCommit microtask = false) :
    chain (microtask :: microtasks) = microtask :: chain microtasks :=
  List.filter_cons_of_pos (by simp [carries, other])

private theorem chain_eq_filter (microtasks : List Microtask) :
    chain microtasks = (ordered microtasks).filter fun microtask => !IsCommit microtask := by
  rw [ordered, List.filter_filter]
  exact List.filter_congr fun microtask _ => Bool.and_comm ..

end Chains

section Stages

/-- The promise of `wait` is settled, and nothing has been cancelled. -/
structure Settled (outcome : Outcome) (call : ToolCall) : Prop where
  sent : call.sending = false
  raced : call.raced = true
  waited : call.waited = some outcome
  calm : call.cancelling = false
  unsent : call.cancelledFrames = 0
  passes :
    call.done = false ∧ call.result.isNone ∧
        (∃ commits, ordered call.microtasks = .hear outcome :: commits ∧ ∀ microtask ∈ commits, IsCommit microtask) ∨
      call.done = true ∧ call.result.isNone ∧
        (chain call.microtasks = [.request outcome] ∨ chain call.microtasks = [.toolsCall outcome]) ∨
      call.done = true ∧ call.result = some outcome.callResult ∧ chain call.microtasks = []

/-- The microtasks on the way from the race to the promise of `wait`. -/
def Passing (outcome : Outcome) : List Microtask := [.finally outcome, .adopt outcome, .settle outcome, .resume outcome]

structure Unstarted (waiting timer raced : Bool) (microtasks : List Microtask) : Prop where
  waiting : waiting = false
  timer : timer = false
  raced : raced = false
  races : ∀ outcome, .race outcome ∉ microtasks

/-- How far a call has come whose promise of `wait` is not settled. -/
inductive Stage (sending waiting timer raced : Bool) (result : Option CallResult) (microtasks : List Microtask) : Prop
  | sending (open_ : sending = true) (unstarted : Unstarted waiting timer raced microtasks) (pending : result.isNone)
      (idle : chain microtasks = [])
  | sent (closed : sending = false) (unstarted : Unstarted waiting timer raced microtasks) (pending : result.isNone)
      (delivered : Bool) (passes : chain microtasks = [.sent delivered])
  | unsent (closed : sending = false) (unstarted : Unstarted waiting timer raced microtasks)
      (passes : chain microtasks = [.toolsCall .unsent] ∨ chain microtasks = [])
  | waiting (closed : sending = false) (waits : waiting = true) (open_ : raced = false) (pending : result.isNone)
      (idle : chain microtasks = [])
  | passing (closed : sending = false) (waits : waiting = true) (raced : raced = true) (pending : result.isNone)
      (outcome : Outcome) (passes : ∃ microtask ∈ Passing outcome, chain microtasks = [microtask])

/-- The promise of `wait` is not settled, and the signal is not aborted. -/
structure Early (call : ToolCall) : Prop where
  unaborted : call.aborted = false
  quiet : .commit ∉ call.microtasks
  waited : call.waited = none
  done : call.done = false
  calm : call.cancelling = false
  unsent : call.cancelledFrames = 0
  stage : Stage call.sending call.waiting call.timer call.raced call.result call.microtasks

end Stages

section Settling

/-- Nothing but side microtasks and cancels is added. -/
private theorem Settled.enqueue (settled : Settled outcome call)
    (idle : ∀ microtask ∈ microtasks, IsSide microtask = true ∨ IsCommit microtask = true) :
    Settled outcome (call.enqueue microtasks) where
  sent := settled.sent
  raced := settled.raced
  waited := settled.waited
  calm := settled.calm
  unsent := settled.unsent
  passes := by
    have none_ : chain microtasks = [] := by
      refine List.filter_eq_nil_iff.mpr fun microtask inside => ?_
      rcases idle microtask inside with side | commit
      · simp [side]
      · simp [commit]
    have same : chain (call.microtasks ++ microtasks) = chain call.microtasks := by
      rw [chain_append, none_, List.append_nil]
    show call.done = false ∧ _ ∧ _ ∨ call.done = true ∧ _ ∧ (chain (call.microtasks ++ microtasks) = _ ∨ _) ∨ _ ∧ _ ∧ _
    rcases settled.passes with ⟨open_, pending, commits, first, all⟩ | heard
    · refine .inl ⟨open_, pending, commits ++ ordered microtasks, ?_, fun microtask inside => ?_⟩
      · show ordered (call.microtasks ++ microtasks) = _
        rw [ordered_append, first, List.cons_append]
      · rcases List.mem_append.mp inside with old | new
        · exact all microtask old
        · obtain ⟨inside', carries⟩ := List.mem_filter.mp new
          exact (idle microtask inside').resolve_left (by simpa using carries)
    · refine .inr ?_
      show _ ∧ _ ∧ (chain (call.microtasks ++ microtasks) = _ ∨ chain (call.microtasks ++ microtasks) = _) ∨
        _ ∧ _ ∧ chain (call.microtasks ++ microtasks) = _
      rw [same]
      exact heard

private theorem Settled.act (settled : Settled outcome call) (action : Action) : Settled outcome (call.act action) := by
  cases action with
  | queue => exact settled.enqueue (by simp [IsSide])
  | respond settlement =>
    rw [ToolCall.act]
    split
    · have kept : Settled outcome { call with inflight := false, settlement := some settlement } :=
        ⟨settled.sent, settled.raced, settled.waited, settled.calm, settled.unsent, settled.passes⟩
      refine kept.enqueue fun microtask inside => ?_
      split at inside
      · exact .inl (by rw [List.mem_singleton.mp inside]; rfl)
      · cases inside
    · exact settled
  | abort =>
    rw [ToolCall.act]
    split
    · exact settled
    · have kept : Settled outcome { call with aborted := true } :=
        ⟨settled.sent, settled.raced, settled.waited, settled.calm, settled.unsent, settled.passes⟩
      refine kept.enqueue fun microtask inside => ?_
      split at inside
      · exact .inr (by rw [List.mem_singleton.mp inside]; rfl)
      · cases inside
  | sent delivered => rw [ToolCall.act, settled.sent]; exact settled
  | notified => rw [ToolCall.act, settled.calm]; exact settled

private theorem Settled.pop (settled : Settled outcome { call with microtasks := microtask :: microtasks })
    (ordered' : ordered (microtask :: microtasks) = ordered microtasks) : Settled outcome { call with microtasks } where
  sent := settled.sent
  raced := settled.raced
  waited := settled.waited
  calm := settled.calm
  unsent := settled.unsent
  passes := by
    have chain' : chain (microtask :: microtasks) = chain microtasks := by
      rw [chain_eq_filter, ordered', ← chain_eq_filter]
    have passes := settled.passes
    simp only [ordered', chain'] at passes
    exact passes

private theorem Settled.perform (settled : Settled outcome { call with microtasks := microtask :: microtasks }) :
    Settled outcome ({ call with microtasks }.perform microtask) := by
  by_cases side : IsSide microtask = true
  · have popped := settled.pop (ordered_cons_side side)
    cases microtask with
    | foreign => exact ⟨popped.sent, popped.raced, popped.waited, popped.calm, popped.unsent, popped.passes⟩
    | race other => rw [ToolCall.perform, if_pos popped.raced]; exact popped
    | thunk => exact popped
    | _ => cases side
  have carries : IsSide microtask = false := Bool.eq_false_iff.mpr side
  rcases settled.passes with ⟨open_, pending, commits, first, all⟩ | ⟨heard, pending, passing⟩ | ⟨heard, returned, none_⟩
  · rw [show ordered _ = _ from ordered_cons carries] at first
    obtain ⟨rfl, rest⟩ := List.cons_eq_cons.mp first
    have none_ : chain microtasks = [] := by
      rw [chain_eq_filter, rest]
      exact List.filter_eq_nil_iff.mpr fun microtask inside => by simp [all microtask inside]
    rw [ToolCall.perform, if_neg (by simpa using open_)]
    refine ⟨settled.sent, settled.raced, settled.waited, settled.calm, settled.unsent,
      .inr (.inl ⟨rfl, pending, .inl ?_⟩)⟩
    show chain (microtasks ++ _) = _
    rw [chain_append, none_]
    rfl
  · by_cases commit : IsCommit microtask = true
    · cases microtask with
      | commit =>
        rw [ToolCall.perform, if_pos heard]
        refine ⟨settled.sent, settled.raced, settled.waited, settled.calm, settled.unsent,
          .inr (.inl ⟨heard, pending, ?_⟩)⟩
        simpa only [chain_cons_commit] using passing
      | _ => cases commit
    have listed : chain (microtask :: microtasks) = microtask :: chain microtasks :=
      chain_cons carries (Bool.eq_false_iff.mpr commit)
    simp only [listed, List.cons.injEq] at passing
    rcases passing with ⟨rfl, none_⟩ | ⟨rfl, none_⟩
    · refine ⟨settled.sent, settled.raced, settled.waited, settled.calm, settled.unsent,
        .inr (.inl ⟨heard, pending, .inr ?_⟩)⟩
      show chain (microtasks ++ _) = _
      rw [chain_append, none_]
      rfl
    · exact ⟨settled.sent, settled.raced, settled.waited, settled.calm, settled.unsent, .inr (.inr ⟨heard, rfl, none_⟩)⟩
  · by_cases commit : IsCommit microtask = true
    · cases microtask with
      | commit =>
        rw [ToolCall.perform, if_pos heard]
        refine ⟨settled.sent, settled.raced, settled.waited, settled.calm, settled.unsent,
          .inr (.inr ⟨heard, returned, ?_⟩)⟩
        simpa only [chain_cons_commit] using none_
      | _ => cases commit
    · simp only [chain_cons carries (Bool.eq_false_iff.mpr commit)] at none_
      cases none_

end Settling

/-- A settled promise of `wait` stays settled, and what it is settled with reaches the caller. -/
theorem Settled.step (settled : Settled outcome call) (stepped : call.step event = some next) : Settled outcome next := by
  have moved (turn : Bool) : Settled outcome { call with turn } :=
    ⟨settled.sent, settled.raced, settled.waited, settled.calm, settled.unsent, settled.passes⟩
  cases event with
  | task =>
    rw [ToolCall.step] at stepped
    split at stepped
    · cases stepped
    · cases stepped
      exact moved true
  | act action =>
    rw [ToolCall.step] at stepped
    split at stepped
    · cases stepped
      exact settled.act action
    · cases stepped
  | leave =>
    rw [ToolCall.step] at stepped
    split at stepped
    · cases stepped
      exact moved false
    · cases stepped
  | microtask =>
    rw [ToolCall.step] at stepped
    split at stepped
    next first rest turn listed =>
      cases stepped
      refine Settled.perform ?_
      rw [← listed]
      exact settled
    · cases stepped
  | deadline =>
    rw [ToolCall.step] at stepped
    split at stepped
    · cases stepped
    · cases stepped
      have kept : Settled outcome { call with timer := false } :=
        ⟨settled.sent, settled.raced, settled.waited, settled.calm, settled.unsent, settled.passes⟩
      exact kept.enqueue (by simp [IsSide])

section Waiting

variable {sending waiting timer raced : Bool} {result : Option CallResult} {added : List Microtask}

/-- Side microtasks may be added, but no reaction of the race before `wait` is called. -/
private theorem Stage.add (stage : Stage sending waiting timer raced result microtasks)
    (side : ∀ microtask ∈ added, IsSide microtask = true)
    (races : waiting = false → ∀ outcome, .race outcome ∉ added) :
    Stage sending waiting timer raced result (microtasks ++ added) := by
  have same : chain (microtasks ++ added) = chain microtasks := by
    rw [chain_append, show chain added = [] from List.filter_eq_nil_iff.mpr fun m inside => by simp [side m inside],
      List.append_nil]
  have unstarted' (unstarted : Unstarted waiting timer raced microtasks) :
      Unstarted waiting timer raced (microtasks ++ added) :=
    ⟨unstarted.waiting, unstarted.timer, unstarted.raced, fun outcome inside =>
      (List.mem_append.mp inside).elim (unstarted.races outcome) (races unstarted.waiting outcome)⟩
  cases stage with
  | sending open_ unstarted pending idle => exact .sending open_ (unstarted' unstarted) pending (same.trans idle)
  | sent closed unstarted pending delivered passes =>
    exact .sent closed (unstarted' unstarted) pending delivered (same.trans passes)
  | unsent closed unstarted passes => exact .unsent closed (unstarted' unstarted) (by rwa [same])
  | waiting closed waits open_ pending idle => exact .waiting closed waits open_ pending (same.trans idle)
  | passing closed waits raced pending outcome passes =>
    exact .passing closed waits raced pending outcome (by rwa [same])

private theorem Early.enqueue (early : Early call) (side : ∀ microtask ∈ added, IsSide microtask = true)
    (races : call.waiting = false → ∀ outcome, .race outcome ∉ added) : Early (call.enqueue added) where
  unaborted := early.unaborted
  quiet inside := (List.mem_append.mp inside).elim early.quiet fun inside => by cases side _ inside
  waited := early.waited
  done := early.done
  calm := early.calm
  unsent := early.unsent
  stage := early.stage.add side races

private theorem Early.act (early : Early call) (action : Action) (unaborted : (call.act action).aborted = false) :
    Early (call.act action) := by
  cases action with
  | queue => exact early.enqueue (by simp [IsSide]) (by simp)
  | respond settlement =>
    rw [ToolCall.act]
    split
    · have kept : Early { call with inflight := false, settlement := some settlement } :=
        ⟨early.unaborted, early.quiet, early.waited, early.done, early.calm, early.unsent, early.stage⟩
      refine kept.enqueue (fun microtask inside => ?_) fun unstarted outcome inside => ?_
      · split at inside
        · rw [List.mem_singleton.mp inside]
          rfl
        · cases inside
      · rw [if_neg (by simpa using unstarted)] at inside
        cases inside
    · exact early
  | abort =>
    rw [ToolCall.act, if_neg (by simp [early.unaborted])] at unaborted
    cases unaborted
  | sent delivered =>
    rw [ToolCall.act]
    split
    next open_ =>
      refine ⟨early.unaborted, fun inside => ?_, early.waited, early.done, early.calm, early.unsent, ?_⟩
      · exact (List.mem_append.mp inside).elim early.quiet fun inside => by cases List.mem_singleton.mp inside
      · show Stage false call.waiting call.timer call.raced call.result (call.microtasks ++ [Microtask.sent delivered])
        cases early.stage with
        | sending _ unstarted pending idle =>
          refine .sent rfl ⟨unstarted.waiting, unstarted.timer, unstarted.raced, fun outcome inside => ?_⟩ pending
            delivered ?_
          · exact (List.mem_append.mp inside).elim (unstarted.races outcome) fun inside => by
              cases List.mem_singleton.mp inside
          · rw [chain_append, idle]
            rfl
        | sent closed | unsent closed | waiting closed | passing closed =>
          rw [closed] at open_
          cases open_
    · exact early
  | notified => rw [ToolCall.act, early.calm]; exact early

/-- The first microtask carries no outcome. -/
private theorem Stage.pop (stage : Stage sending waiting timer raced result (microtask :: microtasks))
    (same : chain (microtask :: microtasks) = chain microtasks) :
    Stage sending waiting timer raced result microtasks := by
  have unstarted' (unstarted : Unstarted waiting timer raced (microtask :: microtasks)) :
      Unstarted waiting timer raced microtasks :=
    ⟨unstarted.waiting, unstarted.timer, unstarted.raced, fun outcome inside =>
      unstarted.races outcome (List.mem_cons_of_mem _ inside)⟩
  cases stage with
  | sending open_ unstarted pending idle => exact .sending open_ (unstarted' unstarted) pending (same.symm.trans idle)
  | sent closed unstarted pending delivered passes =>
    exact .sent closed (unstarted' unstarted) pending delivered (same.symm.trans passes)
  | unsent closed unstarted passes => exact .unsent closed (unstarted' unstarted) (by rwa [← same])
  | waiting closed waits open_ pending idle => exact .waiting closed waits open_ pending (same.symm.trans idle)
  | passing closed waits raced pending outcome passes =>
    exact .passing closed waits raced pending outcome (by rwa [← same])

private theorem Unstarted.tail (unstarted : Unstarted waiting timer raced (microtask :: microtasks)) :
    Unstarted waiting timer raced microtasks :=
  ⟨unstarted.waiting, unstarted.timer, unstarted.raced, fun outcome inside =>
    unstarted.races outcome (List.mem_cons_of_mem _ inside)⟩

private theorem Unstarted.enqueue (unstarted : Unstarted waiting timer raced (microtask :: microtasks))
    (races : ∀ outcome, .race outcome ∉ added) : Unstarted waiting timer raced (microtasks ++ added) :=
  ⟨unstarted.waiting, unstarted.timer, unstarted.raced, fun outcome inside =>
    (List.mem_append.mp inside).elim (unstarted.tail.races outcome) (races outcome)⟩

private theorem Early.pop (early : Early { call with microtasks := microtask :: microtasks })
    (same : chain (microtask :: microtasks) = chain microtasks) : Early { call with microtasks } :=
  ⟨early.unaborted, fun inside => early.quiet (List.mem_cons_of_mem _ inside), early.waited, early.done, early.calm,
    early.unsent, early.stage.pop same⟩

/-- The microtask goes on to one that carries the outcome further. -/
private theorem Early.pass {raced' timer' : Bool} (early : Early { call with microtasks := microtask :: microtasks })
    (closed : call.sending = false) (waits : call.waiting = true) (pending : call.result.isNone) (raced : raced' = true)
    (idle : chain microtasks = []) (quiet : .commit ∉ added) (passes : ∃ next ∈ Passing outcome, chain added = [next]) :
    Early ({ call with microtasks, raced := raced', timer := timer' }.enqueue added) where
  unaborted := early.unaborted
  quiet inside := (List.mem_append.mp inside).elim (fun inside => early.quiet (List.mem_cons_of_mem _ inside)) quiet
  waited := early.waited
  done := early.done
  calm := early.calm
  unsent := early.unsent
  stage := by
    refine .passing closed waits raced pending outcome ?_
    show ∃ next ∈ Passing outcome, chain (microtasks ++ added) = [next]
    rw [chain_append, idle]
    exact passes

/-- Nothing is cancelled when `wait` is called, and a response that has arrived takes part in the race. -/
private theorem Early.beginWait (early : Early { call with microtasks := microtask :: microtasks })
    (closed : call.sending = false) (open_ : call.raced = false) (pending : call.result.isNone)
    (idle : chain microtasks = []) : Early ({ call with microtasks }.beginWait) := by
  have only (settlement : Option InflightSettlement) : ∀ microtask ∈
      (settlement.map fun settlement => Microtask.race settlement.outcome).toList, IsSide microtask = true := by
    cases settlement with
    | none => simp
    | some settlement => simp [IsSide]
  rw [ToolCall.beginWait, if_neg (by simp [show call.aborted = false from early.unaborted])]
  refine ⟨early.unaborted, fun inside => ?_, early.waited, early.done, early.calm, early.unsent, ?_⟩
  · exact (List.mem_append.mp inside).elim (fun inside => early.quiet (List.mem_cons_of_mem _ inside)) fun inside => by
      cases only _ _ inside
  · refine .waiting closed rfl open_ pending ?_
    show chain (microtasks ++ _) = _
    rw [chain_append, idle]
    exact List.filter_eq_nil_iff.mpr fun microtask inside => by simp [only _ _ inside]

private theorem Early.perform (early : Early { call with microtasks := microtask :: microtasks }) :
    Early ({ call with microtasks }.perform microtask) ∨
      ∃ outcome, Settled outcome ({ call with microtasks }.perform microtask) := by
  have noCommit : IsCommit microtask = false := by
    cases microtask with
    | commit => exact absurd List.mem_cons_self early.quiet
    | _ => rfl
  by_cases side : IsSide microtask = true
  · have popped := early.pop (chain_cons_side side)
    cases microtask with
    | foreign =>
      exact .inl ⟨popped.unaborted, popped.quiet, popped.waited, popped.done, popped.calm, popped.unsent, popped.stage⟩
    | thunk => exact .inl popped
    | race outcome =>
      rw [ToolCall.perform]
      split
      · exact .inl popped
      next open_ =>
        cases early.stage with
        | sending _ unstarted | sent _ unstarted | unsent _ unstarted =>
          exact absurd List.mem_cons_self (unstarted.races outcome)
        | passing _ _ raced => exact absurd raced open_
        | waiting closed waits _ pending idle =>
          rw [chain_cons_side side] at idle
          exact .inl (early.pass closed waits pending rfl idle (by simp) ⟨_, List.mem_cons_self, rfl⟩)
    | _ => cases side
  have listed : chain (microtask :: microtasks) = microtask :: chain microtasks :=
    chain_cons (Bool.eq_false_iff.mpr side) noCommit
  cases early.stage with
  | sending _ _ _ idle | waiting _ _ _ _ idle =>
    rw [listed] at idle
    cases idle
  | sent closed unstarted pending delivered passes =>
    rw [listed] at passes
    obtain ⟨rfl, idle⟩ := List.cons_eq_cons.mp passes
    left
    cases delivered with
    | true => exact early.beginWait closed unstarted.raced pending idle
    | false =>
      refine ⟨early.unaborted, fun inside => ?_, early.waited, early.done, early.calm, early.unsent, ?_⟩
      · exact (List.mem_append.mp inside).elim (fun inside => early.quiet (List.mem_cons_of_mem _ inside)) (by simp)
      · refine .unsent closed (unstarted.enqueue (by simp)) (.inl ?_)
        show chain (microtasks ++ _) = _
        rw [chain_append, idle]
        rfl
  | unsent closed unstarted passes =>
    rw [listed] at passes
    obtain ⟨rfl, idle⟩ := List.cons_eq_cons.mp (passes.resolve_right (List.cons_ne_nil _ _))
    refine .inl ⟨early.unaborted, fun inside => early.quiet (List.mem_cons_of_mem _ inside), early.waited, early.done,
      early.calm, early.unsent, .unsent closed unstarted.tail (.inr idle)⟩
  | passing closed waits raced pending outcome passes =>
    obtain ⟨known, inside, passes⟩ := passes
    rw [listed] at passes
    obtain ⟨rfl, idle⟩ := List.cons_eq_cons.mp passes
    have adopts : .adopt outcome ∈ Passing outcome := by simp [Passing]
    have settles : .settle outcome ∈ Passing outcome := by simp [Passing]
    have resumes : .resume outcome ∈ Passing outcome := by simp [Passing]
    simp only [Passing, List.mem_cons, List.not_mem_nil, or_false] at inside
    rcases inside with rfl | rfl | rfl | rfl
    · exact .inl (early.pass closed waits pending raced idle (by simp) ⟨_, adopts, rfl⟩)
    · exact .inl (early.pass closed waits pending raced idle (by simp) ⟨_, settles, rfl⟩)
    · exact .inl (early.pass closed waits pending raced idle (by simp) ⟨_, resumes, rfl⟩)
    · refine .inr ⟨outcome, closed, raced, rfl, early.calm, early.unsent, .inl ⟨early.done, pending, [], ?_, by simp⟩⟩
      have none_ : ordered microtasks = [] := by
        refine List.filter_eq_nil_iff.mpr fun microtask inside carries => ?_
        refine List.filter_eq_nil_iff.mp idle microtask inside ?_
        cases microtask with
        | commit => exact absurd (List.mem_cons_of_mem _ inside) early.quiet
        | _ => simpa [IsCommit] using carries
      show ordered (microtasks ++ _) = _
      rw [ordered_append, none_]
      rfl

end Waiting

private theorem aborted_act (action : Action) (aborted : call.aborted = true) : (call.act action).aborted = true := by
  cases action with
  | queue => exact aborted
  | abort =>
    rw [ToolCall.act, if_pos aborted]
    exact aborted
  | respond settlement | sent delivered | notified =>
    rw [ToolCall.act]
    split <;> exact aborted

private theorem aborted_perform (microtask : Microtask) (aborted : call.aborted = true) :
    (call.perform microtask).aborted = true := by
  cases microtask with
  | sent delivered =>
    cases delivered with
    | true =>
      rw [ToolCall.perform, ToolCall.beginWait, if_pos aborted]
      exact aborted
    | false => exact aborted
  | race outcome | hear outcome | commit =>
    rw [ToolCall.perform]
    split <;> exact aborted
  | _ => exact aborted

/-- A signal stays aborted. -/
private theorem aborted_step (stepped : call.step event = some next) (aborted : call.aborted = true) :
    next.aborted = true := by
  cases event with
  | act action =>
    rw [ToolCall.step] at stepped
    split at stepped
    · cases stepped
      exact aborted_act action aborted
    · cases stepped
  | microtask =>
    rw [ToolCall.step] at stepped
    split at stepped
    · cases stepped
      exact aborted_perform _ aborted
    · cases stepped
  | task | leave | deadline =>
    rw [ToolCall.step] at stepped
    split at stepped <;> cases stepped
    exact aborted

private theorem Early.step (early : Early call) (stepped : call.step event = some next)
    (unaborted : next.aborted = false) : Early next ∨ ∃ outcome, Settled outcome next := by
  have moved (turn : Bool) : Early { call with turn } :=
    ⟨early.unaborted, early.quiet, early.waited, early.done, early.calm, early.unsent, early.stage⟩
  cases event with
  | task =>
    rw [ToolCall.step] at stepped
    split at stepped
    · cases stepped
    · cases stepped
      exact .inl (moved true)
  | act action =>
    rw [ToolCall.step] at stepped
    split at stepped
    · cases stepped
      exact .inl (early.act action unaborted)
    · cases stepped
  | leave =>
    rw [ToolCall.step] at stepped
    split at stepped
    · cases stepped
      exact .inl (moved false)
    · cases stepped
  | microtask =>
    rw [ToolCall.step] at stepped
    split at stepped
    next first rest turn listed =>
      cases stepped
      refine Early.perform ?_
      rw [← listed]
      exact early
    · cases stepped
  | deadline =>
    rw [ToolCall.step] at stepped
    split at stepped
    · cases stepped
    next armed =>
      cases stepped
      have timer : call.timer = true := by
        by_contra off
        exact armed (.inr (.inr (by simp [off])))
      have stage : Stage call.sending call.waiting false call.raced call.result call.microtasks := by
        cases early.stage with
        | sending _ unstarted | sent _ unstarted | unsent _ unstarted =>
          rw [unstarted.timer] at timer
          cases timer
        | waiting closed waits open_ pending idle => exact .waiting closed waits open_ pending idle
        | passing closed waits raced pending outcome passes => exact .passing closed waits raced pending outcome passes
      have kept : Early { call with timer := false } :=
        ⟨early.unaborted, early.quiet, early.waited, early.done, early.calm, early.unsent, stage⟩
      refine .inl (kept.enqueue (by simp [IsSide]) fun unstarted => ?_)
      cases early.stage with
      | sending _ unstarted | sent _ unstarted | unsent _ unstarted =>
        rw [unstarted.timer] at timer
        cases timer
      | waiting _ waits | passing _ waits =>
        rw [show call.waiting = false from unstarted] at waits
        cases waits

/-- Until the signal is aborted, the promise of `wait` is pending, or it is settled and nothing has been cancelled. -/
theorem early_or_settled (run : run? ToolCall.step {} events = some call) (unaborted : call.aborted = false) :
    Early call ∨ ∃ outcome, Settled outcome call := by
  induction events using List.reverseRecOn generalizing call with
  | nil =>
    cases run
    refine .inl ⟨rfl, by simp, rfl, rfl, rfl, rfl, .sending rfl ⟨rfl, rfl, rfl, by simp⟩ rfl rfl⟩
  | append_singleton events event ih =>
    obtain ⟨middle, run, last⟩ := run?_append.mp run
    obtain ⟨next, stepped, ⟨⟩⟩ := run?_cons.mp last
    have before : middle.aborted = false := Bool.eq_false_iff.mpr fun aborted => by
      rw [aborted_step stepped aborted] at unaborted
      cases unaborted
    rcases ih run before with early | ⟨outcome, settled⟩
    · exact early.step stepped unaborted
    · exact .inr ⟨outcome, settled.step stepped⟩

private theorem Settled.run (settled : Settled outcome call) (run : run? ToolCall.step call events = some final) :
    Settled outcome final := by
  induction events generalizing call with
  | nil =>
    cases run
    exact settled
  | cons event events ih =>
    obtain ⟨next, stepped, rest⟩ := run?_cons.mp run
    exact ih (settled.step stepped) rest

/-- What a response should come to when the signal is aborted behind it. -/
structure Delivered (settlement : InflightSettlement) (call : ToolCall) : Prop where
  unsent : call.cancelledFrames = 0
  result : ∀ result, call.result = some result → result = settlement.outcome.callResult
  /-- When nothing is left to do, the call has returned. -/
  returns : call.microtasks = [] → call.result = some settlement.outcome.callResult

/-- A response wins over a signal that is aborted when the promise of `wait` is settled with it. -/
theorem response_beats_cancel (run : run? ToolCall.step {} before = some call)
    (answered : call.settlement = some settlement) (unaborted : call.aborted = false)
    (later : call.waited = call.settlement.map (·.outcome))
    (rest : run? ToolCall.step call (.act .abort :: after) = some final) : Delivered settlement final := by
  rw [answered, Option.map_some] at later
  obtain ⟨outcome, settled⟩ : ∃ outcome, Settled outcome call := by
    rcases early_or_settled run unaborted with early | settled
    · cases early.waited.symm.trans later
    · exact settled
  obtain rfl : outcome = settlement.outcome := Option.some.inj (settled.waited.symm.trans later)
  have settled' := settled.run rest
  refine ⟨settled'.unsent, fun result returned => ?_, fun finished => ?_⟩
  · rcases settled'.passes with ⟨_, pending, _⟩ | ⟨_, pending, _⟩ | ⟨_, returned', _⟩
    · simp [returned] at pending
    · simp [returned] at pending
    · exact Option.some.inj (returned.symm.trans returned')
  · rcases settled'.passes with ⟨_, _, commits, first, _⟩ | ⟨_, _, passing⟩ | ⟨_, returned, _⟩
    · rw [finished] at first
      cases first
    · rw [finished] at passing
      rcases passing with passing | passing <;> cases passing
    · exact returned

/-- The result of a tool without content. -/
def emptyResult : InflightSettlement := .ok (.obj [(js "content", .arr [])])

/-- The line is sent, and the pump resolves the request. -/
def responding : List Event := [.task, .act (.sent true), .leave, .microtask, .task, .act (.respond emptyResult)]

/-- The call after that. -/
def answeredCall : ToolCall where
  microtasks := [.race emptyResult.outcome]
  turn := true
  inflight := false
  settlement := some emptyResult
  sending := false
  waiting := true
  timer := true
  listening := true

/-- The signal is aborted when everything that follows the response has been done. -/
theorem response_beats_late_cancel :
    Delivered emptyResult
      { answeredCall with
        microtasks := []
        aborted := true
        timer := false
        raced := true
        waited := some emptyResult.outcome
        listening := false
        done := true
        result := some emptyResult.outcome.callResult } := by
  have run : run? ToolCall.step {} (responding ++ Event.leave :: List.replicate 9 Event.microtask ++ [Event.task]) =
      some { answeredCall with
        microtasks := []
        timer := false
        raced := true
        waited := some emptyResult.outcome
        listening := false
        done := true
        result := some emptyResult.outcome.callResult } := rfl
  have rest : ∀ final, run? ToolCall.step _ [.act .abort] = some final → Delivered emptyResult final := fun _ =>
    response_beats_cancel run rfl rfl rfl
  exact rest _ rfl

/-- The signal is aborted in the turn of the response, and wins. -/
theorem cancel_beats_response : ∃ final, run? ToolCall.step {} responding = some answeredCall ∧
    run? ToolCall.step answeredCall [.act .abort, .leave, .microtask, .microtask] = some final ∧
      ¬Delivered emptyResult final :=
  ⟨{ answeredCall with
      microtasks := [.finally emptyResult.outcome]
      turn := false
      aborted := true
      raced := true
      listening := false
      done := true
      cancelling := true
      cancelledFrames := 1 }, rfl, rfl, fun delivered => Nat.one_ne_zero delivered.unsent⟩

end PieAgent.Soundness.DeliveredResponses
