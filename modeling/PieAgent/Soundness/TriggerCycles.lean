import PieAgent.Proofs.Triggers.TriggerRuntime

/-! # The cycle limit

The hop count of a trace is kept from one admitted trigger of the trace to the next, unless a trigger is
evaluated in between whose instant is more than the window after the first of the two. Without such a
trigger no trace is admitted more often than the limit allows, whatever else is evaluated meanwhile.
-/

namespace PieAgent.Soundness

open JavaScript Model Proofs TriggerRuntime

section Property

variable (config : TriggerRuntimeConfig) (triggers : List Trigger)

/-- The trigger with this index is admitted, and it is one of the trace. -/
def AcceptedAt (trace : JsString) (index : ℕ) : Prop :=
  ∃ trigger, triggers[index]? = some trigger ∧ trigger.traceId = trace ∧
    outcomeAfter config (triggers.take index) trigger = .accept

/-- The instant of the trigger with this index. -/
def instantAt? (index : ℕ) : Option ℤ := triggers[index]?.bind fun trigger => trigger.receivedAt.millis

/-- The later trigger carries an instant more than the window after the one of the earlier trigger. -/
def Apart (earlier later : ℕ) : Prop :=
  ∃ first second, instantAt? triggers earlier = some first ∧ instantAt? triggers later = some second ∧
    first + window config < second

end Property

variable {config : TriggerRuntimeConfig} {triggers : List Trigger} {trace : JsString} {index hop next : ℕ}

/-- Right after the trigger with this index, the trace has made at least so many hops, the last one there. -/
private def HopsAt (config : TriggerRuntimeConfig) (triggers : List Trigger) (trace : JsString) (hop count last : ℕ)
    (index : ℕ) : Prop :=
  hop ≤ last ∧ last < index ∧ AcceptedAt config triggers trace last ∧
    ∃ entry, (after config (triggers.take index)).cycle.get? trace = some entry ∧
      entry.lastSeenAtMs = instantAt? triggers last ∧ count ≤ entry.hopCount

private theorem after_take_succ {trigger : Trigger} (here : triggers[index]? = some trigger) :
    after config (triggers.take (index + 1)) = ((after config (triggers.take index)).evaluate trigger).1 := by
  rw [List.take_add_one, here, Option.toList_some, after_concat]

private theorem isExpired_iff_apart {trigger : Trigger} {entry : CycleEntry} {last : ℕ}
    (here : triggers[index]? = some trigger) (seen : entry.lastSeenAtMs = instantAt? triggers last) :
    isExpired (window config) trigger.receivedAt.millis entry.lastSeenAtMs = true ↔ Apart config triggers last index := by
  have now : instantAt? triggers index = trigger.receivedAt.millis := by rw [instantAt?, here, Option.bind_some]
  rw [Apart, seen, now]
  cases trigger.receivedAt.millis with
  | none => simp [isExpired]
  | some second =>
    cases instantAt? triggers last with
    | none => simp [isExpired]
    | some first => simp [isExpired_some]

/-- An admitted trigger counts as a hop. -/
private theorem hopsAt_accepted (accepted : AcceptedAt config triggers trace index) :
    HopsAt config triggers trace index 1 index (index + 1) := by
  obtain ⟨trigger, here, isTrace, outcome⟩ := accepted
  refine ⟨Nat.le_refl _, Nat.lt_succ_self _, ⟨trigger, here, isTrace, outcome⟩, ?_⟩
  obtain ⟨_, _, _, entry⟩ | ⟨other, _⟩ := get?_cycle_evaluate (after config (triggers.take index)) trigger trace
  · refine ⟨_, by rw [after_take_succ here]; exact entry, ?_, Nat.le_add_left ..⟩
    rw [instantAt?, here, Option.bind_some]
  · exact absurd ⟨outcome, isTrace⟩ other

/-- One evaluation keeps the hops of a trace and adds one when it admits a trigger of the trace. -/
private theorem HopsAt.step {count last : ℕ} (hops : HopsAt config triggers trace hop count last index)
    (inside : index < triggers.length) (near : ¬ Apart config triggers last index) :
    (AcceptedAt config triggers trace index → (count : ℤ) < config.cycleHopLimit ∧
        HopsAt config triggers trace hop (count + 1) index (index + 1)) ∧
      (¬ AcceptedAt config triggers trace index → HopsAt config triggers trace hop count last (index + 1)) := by
  obtain ⟨lower, upper, accepted, entry, found, seen, enough⟩ := hops
  have here : triggers[index]? = some triggers[index] := List.getElem?_eq_getElem inside
  have alive : ((after config (triggers.take index)).prune triggers[index].receivedAt.millis).cycle.get? trace = some entry := by
    rw [cycle_prune, found, config_after]
    apply Option.filter_some_pos
    rw [Bool.not_eq_true', ← Bool.not_eq_true]
    exact fun expired => near ((isExpired_iff_apart here seen).mp expired)
  obtain ⟨outcome, isTrace, below, updated⟩ | ⟨other, same⟩ :=
    get?_cycle_evaluate (after config (triggers.take index)) triggers[index] trace
  · rw [alive] at below updated
    have room := below entry rfl
    rw [config_after] at room
    constructor
    · intro here'
      refine ⟨Int.lt_of_le_of_lt (Int.ofNat_le.mpr enough) room, by omega, Nat.lt_succ_self _, here',
        ⟨triggers[index].receivedAt.millis, entry.hopCount + 1⟩, ?_, ?_, Nat.succ_le_succ enough⟩
      · rw [after_take_succ here]
        exact updated
      · rw [instantAt?, here, Option.bind_some]
    · intro refused
      exact absurd ⟨triggers[index], here, isTrace, outcome⟩ refused
  · constructor
    · rintro ⟨trigger, here', isTrace, outcome⟩
      cases here.symm.trans here'
      exact absurd ⟨outcome, isTrace⟩ other
    · intro _
      refine ⟨lower, by omega, accepted, entry, ?_, seen, enough⟩
      rw [after_take_succ here, same, alive]

/-- No trigger up to the later index is far behind an admitted trigger of the trace from the earlier index on. -/
private def Near (config : TriggerRuntimeConfig) (triggers : List Trigger) (trace : JsString) (hop next : ℕ) : Prop :=
  ∀ earlier later, hop ≤ earlier → earlier < later → later ≤ next → AcceptedAt config triggers trace earlier →
    ¬ Apart config triggers earlier later

/-- From one admitted trigger to a later one the hop count grows. -/
private theorem hopsAt_of_near {count : ℕ} (hops : HopsAt config triggers trace hop count hop (hop + 1)) (order : hop < next)
    (near : Near config triggers trace hop next) (accepted : AcceptedAt config triggers trace next) :
    (count : ℤ) < config.cycleHopLimit ∧ HopsAt config triggers trace next (count + 1) next (next + 1) := by
  have inside : next < triggers.length := by
    obtain ⟨trigger, here, _⟩ := accepted
    exact (List.getElem?_eq_some_iff.mp here).1
  -- every index in between keeps at least the hops of the first trigger
  have kept : ∀ steps, hop + 1 + steps ≤ next → ∃ last more, count ≤ more ∧
      HopsAt config triggers trace hop more last (hop + 1 + steps) := by
    intro steps
    induction steps with
    | zero => exact fun _ => ⟨hop, count, Nat.le_refl _, hops⟩
    | succ steps ih =>
      intro bound
      obtain ⟨last, more, enough, hops⟩ := ih (by omega)
      have close := near last (hop + 1 + steps) hops.1 hops.2.1 (by omega) hops.2.2.1
      obtain ⟨grows, stays⟩ := hops.step (by omega) close
      by_cases here : AcceptedAt config triggers trace (hop + 1 + steps)
      · exact ⟨_, more + 1, by omega, (grows here).2⟩
      · exact ⟨last, more, enough, stays here⟩
  obtain ⟨last, more, enough, hops⟩ := kept (next - (hop + 1)) (by omega)
  rw [show hop + 1 + (next - (hop + 1)) = next by omega] at hops
  have close := near last next hops.1 hops.2.1 (Nat.le_refl _) hops.2.2.1
  obtain ⟨room, lower, upper, here, entry, found, seen, counted⟩ := (hops.step inside close).1 accepted
  exact ⟨by omega, Nat.le_refl _, upper, here, entry, found, seen, by omega⟩

/-- A list of hops without a gap is no longer than the limit. -/
private theorem length_le_of_near {count : ℕ} {rest : List ℕ} (hops : HopsAt config triggers trace hop count hop (hop + 1))
    (sorted : (hop :: rest).Pairwise (· < ·)) (accepted : ∀ next ∈ rest, AcceptedAt config triggers trace next)
    (near : ∀ front earlier later back, hop :: rest = front ++ earlier :: later :: back →
      Near config triggers trace earlier later) :
    rest = [] ∨ (count + rest.length : ℤ) ≤ config.cycleHopLimit := by
  induction rest generalizing hop count with
  | nil => exact .inl rfl
  | cons next rest ih =>
    obtain ⟨first, others⟩ := List.forall_mem_cons.mp accepted
    obtain ⟨above, sorted⟩ := List.pairwise_cons.mp sorted
    obtain ⟨room, hops⟩ := hopsAt_of_near hops (above next List.mem_cons_self) (near [] hop next rest rfl) first
    refine .inr ?_
    rcases ih hops sorted others (fun front earlier later back split =>
      near (hop :: front) earlier later back (by rw [split]; rfl)) with rfl | bound
    · simp only [List.length_cons, List.length_nil]
      omega
    · simp only [List.length_cons]
      omega

/-- In a chronological sequence every trigger has its instant, and instants never decrease. -/
private theorem instantAt?_mono (chronological : Chronological triggers) (order : index ≤ next) {instant : ℤ}
    (here : instantAt? triggers next = some instant) :
    ∃ earlier, instantAt? triggers index = some earlier ∧ earlier ≤ instant := by
  obtain ⟨trigger, found, millis⟩ := Option.bind_eq_some_iff.mp here
  obtain ⟨inside, rfl⟩ := List.getElem?_eq_some_iff.mp found
  have before : index < triggers.length := by omega
  refine ⟨triggers[index].instant, ?_, ?_⟩
  · rw [instantAt?, List.getElem?_eq_getElem before, Option.bind_some]
    exact chronological.parseable _ (List.getElem_mem before)
  · have same := millis.symm.trans (chronological.parseable _ (List.getElem_mem inside))
    cases same
    rcases Nat.lt_or_eq_of_le order with earlier | rfl
    · exact List.pairwise_iff_getElem.mp chronological.ordered index next before inside earlier
    · exact Int.le_refl _

/-- Two triggers that are apart stay apart when the earlier one is moved back and the later one forward. -/
private theorem apart_mono (chronological : Chronological triggers) {earlier later : ℕ} (lower : earlier ≤ hop)
    (upper : next ≤ later) (last : AcceptedAt config triggers trace later) (apart : Apart config triggers hop next) :
    Apart config triggers earlier later := by
  obtain ⟨first, second, atHop, atNext, wide⟩ := apart
  obtain ⟨trigger, here, _⟩ := last
  have atLater : instantAt? triggers later = some trigger.instant := by
    rw [instantAt?, here, Option.bind_some]
    exact chronological.parseable _ (List.mem_of_getElem? here)
  obtain ⟨first', atEarlier, before⟩ := instantAt?_mono chronological lower atHop
  obtain ⟨second', atNext', after_⟩ := instantAt?_mono chronological upper atLater
  cases atNext.symm.trans atNext'
  exact ⟨first', trigger.instant, atEarlier, atLater, by omega⟩

/-- Of more admitted triggers of one trace than the limit allows (at least one is always allowed), two consecutive
ones are separated: some trigger evaluated up to the later one carries an instant more than the window after an
admitted trigger of the trace from the earlier one on. When the instants can be parsed and never decrease, the two
are themselves more than the window apart. -/
theorem accepted_hops_separated (config : TriggerRuntimeConfig) (triggers : List Trigger) (trace : JsString)
    {hops : List ℕ} (sorted : hops.Pairwise (· < ·)) (accepted : ∀ hop ∈ hops, AcceptedAt config triggers trace hop)
    (many : max config.cycleHopLimit 1 < hops.length) :
    ∃ front earlier later back, hops = front ++ earlier :: later :: back ∧
      (∃ hop next, earlier ≤ hop ∧ hop < next ∧ next ≤ later ∧ AcceptedAt config triggers trace hop ∧
        Apart config triggers hop next) ∧
      (Chronological triggers → Apart config triggers earlier later) := by
  obtain ⟨front, earlier, later, back, split, hop, next, lower, order, upper, here, apart⟩ :
      ∃ front earlier later back, hops = front ++ earlier :: later :: back ∧
        ∃ hop next, earlier ≤ hop ∧ hop < next ∧ next ≤ later ∧ AcceptedAt config triggers trace hop ∧
          Apart config triggers hop next := by
    by_contra none_
    cases hops with
    | nil =>
      simp only [List.length_nil] at many
      omega
    | cons hop rest =>
      obtain ⟨first, others⟩ := List.forall_mem_cons.mp accepted
      have near : ∀ front earlier later back, hop :: rest = front ++ earlier :: later :: back →
          Near config triggers trace earlier later := by
        intro front earlier later back split hop next lower order upper here apart
        exact none_ ⟨front, earlier, later, back, split, hop, next, lower, order, upper, here, apart⟩
      simp only [List.length_cons] at many
      rcases length_le_of_near (hopsAt_accepted first) sorted others near with rfl | bound
      · simp only [List.length_nil] at many
        omega
      · omega
  refine ⟨front, earlier, later, back, split, ⟨hop, next, lower, order, upper, here, apart⟩, ?_⟩
  intro chronological
  exact apart_mono chronological lower upper (accepted later (by rw [split]; simp)) apart

/-- A local trigger with the given key, trace and instant. -/
private def tracedTrigger (key trace : String) (millis : ℤ) : Trigger where
  source := .local (js "loop")
  sourceKind := .local
  sourceLabel := js "loop"
  eventLabel := js "tick"
  payloadVisibility := .local
  payloadSummary := none
  idempotencyKey := js key
  replacementPolicy := .drop
  traceId := js trace
  authority := ⟨js "p", js "p", .user, [], none⟩
  receivedAt := ⟨js "t", some millis⟩

/-- The second trigger is from the far future and belongs to another trace. -/
private def foreignFuture : List Trigger :=
  [tracedTrigger "a" "t" 100, tracedTrigger "b" "u" 1000000, tracedTrigger "c" "t" 101]

private theorem accepted_foreignFuture : ∀ hop ∈ [0, 2], AcceptedAt { cycleHopLimit := 1 } foreignFuture (js "t") hop := by
  intro hop member
  rcases List.mem_cons.mp member with rfl | member
  · exact ⟨tracedTrigger "a" "t" 100, rfl, rfl, by decide⟩
  · obtain rfl := List.mem_singleton.mp member
    exact ⟨tracedTrigger "c" "t" 101, rfl, rfl, by decide⟩

/-- The law applied to two admitted triggers under a limit of one hop. -/
theorem accepted_hops_separated_foreignFuture :
    ∃ front earlier later back, [0, 2] = front ++ earlier :: later :: back ∧
      (∃ hop next, earlier ≤ hop ∧ hop < next ∧ next ≤ later ∧
        AcceptedAt { cycleHopLimit := 1 } foreignFuture (js "t") hop ∧ Apart { cycleHopLimit := 1 } foreignFuture hop next) ∧
      (Chronological foreignFuture → Apart { cycleHopLimit := 1 } foreignFuture earlier later) :=
  accepted_hops_separated { cycleHopLimit := 1 } foreignFuture (js "t") (by decide) accepted_foreignFuture (by decide)

/-- A trigger with a later instant between them lets two triggers of one trace pass the limit of one hop. -/
theorem futureInstant_resets_hops :
    ¬ ∀ config triggers trace (hops : List ℕ), hops.Pairwise (· < ·) →
      (∀ hop ∈ hops, AcceptedAt config triggers trace hop) → config.cycleHopLimit + 1 = hops.length →
        ∃ front earlier later back, hops = front ++ earlier :: later :: back ∧ Apart config triggers earlier later := by
  intro always
  obtain ⟨front, earlier, later, back, split, first, second, atEarlier, atLater, wide⟩ :=
    always { cycleHopLimit := 1 } foreignFuture (js "t") [0, 2] (by decide) accepted_foreignFuture rfl
  cases front with
  | nil =>
    cases split
    cases atEarlier
    cases atLater
    exact absurd wide (by decide)
  | cons _ front =>
    have length := congrArg List.length split
    simp only [List.length_cons, List.length_append, List.length_nil] at length
    omega

end PieAgent.Soundness
