import PieAgent.Model.Agent.Select

/-! # Selects over queues

A select only aborts its losers when it decides, and an item that a branch has taken by then is gone
with the branch if another one wins. In a run in which no select decides while one of its branches
holds an item and another one has settled too, every item that was pushed is buffered or was taken by
a consumer, by a select that is still undecided, or by the winner of a select.
-/

namespace PieAgent.Soundness

open Model SelectState

variable {T : Type}

/-- The branch has settled. -/
def Settled (state : SelectState T) (select index : ℕ) : Prop :=
  ∃ branch, state.branch? select index = some branch ∧ branch.settled.isSome

/-- A branch of the select that holds an item is the only one that has settled. -/
def Undivided (state : SelectState T) (select : ℕ) : Prop :=
  ∀ index other branch item, state.branch? select index = some branch → branch.settled = some (.item item) →
    Settled state select other → other = index

/-- A step that lets an open select decide finds it undivided. -/
def DecidesUndivided (state : SelectState T) : SelectState.Event T → Prop
  | .microtask => ∀ select, state.winner? select = none →
    state.microtasks.head? = some (.resume select) ∨ state.microtasks.head? = some (.check select) →
      Undivided state select
  | _ => True

/-- Every item that was pushed is buffered or was taken, in order, and of the branches of a select that has
decided only the winner has taken one. -/
def Lossless (state : SelectState T) : Prop :=
  ∀ (index : ℕ) (queue : AsyncQueue T), state.queues[index]? = some queue →
    queue.taken.map (·.1) ++ queue.buffer = queue.pushed ∧
      ∀ (item : T) (select branch : ℕ), (item, .branch select branch) ∈ queue.taken →
        state.winner? select = none ∨ state.winner? select = some branch

/-- The kind of a select. -/
private def biased? (state : SelectState T) (select : ℕ) : Option Bool := state.selects[select]?.map (·.biased)

/-- What a microtask is about. -/
private def Justified (state : SelectState T) : Microtask → Prop
  | .relay select index _ => Settled state select index
  | .race select index => Settled state select index ∧ biased? state select = some false
  | .resume select => biased? state select = some false
  | .check select => biased? state select = some true

/-- What was pushed was taken or is buffered, and nobody waits while something is buffered. -/
private def ConsistentQueue (queue : AsyncQueue T) : Prop :=
  queue.taken.map (·.1) ++ queue.buffer = queue.pushed ∧ (queue.waiters = [] ∨ queue.buffer = [])

/-- The invariant of a run, but for the waiters of decided selects. -/
private structure Core (state : SelectState T) : Prop where
  consistent : ∀ (index : ℕ) (queue : AsyncQueue T), state.queues[index]? = some queue → ConsistentQueue queue
  waiting : ∀ (index : ℕ) (queue : AsyncQueue T) (select branch : ℕ), state.queues[index]? = some queue →
    .branch select branch ∈ queue.waiters →
      ∃ hops, state.branch? select branch = some { source := .queue index hops }
  once : ∀ (index : ℕ) (queue : AsyncQueue T) (select branch : ℕ), state.queues[index]? = some queue →
    queue.waiters.count (.branch select branch) ≤ 1
  taken : ∀ (index : ℕ) (queue : AsyncQueue T) (item : T) (select branch : ℕ), state.queues[index]? = some queue →
    (item, .branch select branch) ∈ queue.taken →
      (∃ found, state.branch? select branch = some found ∧ found.settled = some (.item item)) ∧
        (state.winner? select = none ∨ state.winner? select = some branch)
  justified : ∀ microtask ∈ state.microtasks, Justified state microtask
  candidates : ∀ (select : ℕ) (found : Select T) (index : ℕ), state.selects[select]? = some found →
    found.raced = some index ∨ index ∈ found.recorded → Settled state select index
  decided : ∀ (select : ℕ) (found : Select T) (winner : ℕ), state.selects[select]? = some found →
    found.biased = false → found.winner = some winner → found.raced = some winner

/-- The branches of a select that has decided wait nowhere. -/
private def Released (state : SelectState T) (select : ℕ) : Prop :=
  ∀ (index : ℕ) (queue : AsyncQueue T) (branch : ℕ), state.queues[index]? = some queue →
    .branch select branch ∉ queue.waiters

private structure SelectsSound (state : SelectState T) : Prop where
  core : Core state
  released : ∀ select winner, state.winner? select = some winner → Released state select

section Settle

variable {state : SelectState T} {select index : ℕ} {settlement : Settlement T}

private theorem branch?_eq_some {branch : SelectBranch T} : state.branch? select index = some branch ↔
    ∃ found : Select T, state.selects[select]? = some found ∧ found.branches[index]? = some branch := by
  simp [branch?, Option.bind_eq_some_iff]

/-- An unsettled branch that settles, and nothing else that changes. -/
private structure Settles (state : SelectState T) (select index : ℕ) (settlement : Settlement T)
    (after : SelectState T) : Prop where
  queues : after.queues = state.queues
  branch : ∀ other position, after.branch? other position =
    if other = select ∧ position = index then
      (state.branch? select index).map fun branch => { branch with settled := some settlement }
    else state.branch? other position
  selects : ∀ (other : ℕ) (found : Select T), after.selects[other]? = some found → ∃ before : Select T, state.selects[other]? = some before ∧
    found.biased = before.biased ∧ found.raced = before.raced ∧ found.recorded = before.recorded ∧
      found.winner = before.winner
  biased : ∀ other, biased? after other = biased? state other
  winner : ∀ other, after.winner? other = state.winner? other
  microtasks : ∃ hops, after.microtasks = state.microtasks ++ [.relay select index hops]

private theorem settles_settle {branch : SelectBranch T} (found : state.branch? select index = some branch)
    (unsettled : branch.settled = none) (settlement : Settlement T) :
    Settles state select index settlement (state.settle select index settlement) := by
  obtain ⟨select', foundSelect, foundBranch⟩ := (branch?_eq_some).mp found
  obtain ⟨inside, isSelect⟩ := List.getElem?_eq_some_iff.mp foundSelect
  obtain ⟨within, isBranch⟩ := List.getElem?_eq_some_iff.mp foundBranch
  rw [settle, foundSelect]
  dsimp only
  rw [foundBranch]
  dsimp only
  rw [unsettled]
  refine ⟨rfl, fun other position => ?_, fun other found' present => ?_, fun other => ?_, fun other => ?_, _, rfl⟩
  · by_cases same : other = select
    · subst same
      by_cases here : position = index
      · subst here
        simp [branch?, enqueue, isSelect, isBranch, inside, within]
      · simp [branch?, enqueue, isSelect, inside, here, Ne.symm here]
    · simp [branch?, enqueue, same, Ne.symm same]
  · by_cases same : other = select
    · subst same
      simp only [enqueue, Option.isSome_none, Bool.false_eq_true, ↓reduceIte, List.getElem?_set_self inside,
        Option.some.injEq] at present
      subst present
      exact ⟨select', foundSelect, rfl, rfl, rfl, rfl⟩
    · simp only [enqueue, Option.isSome_none, Bool.false_eq_true, ↓reduceIte, List.getElem?_set_ne (Ne.symm same)] at present
      exact ⟨found', present, rfl, rfl, rfl, rfl⟩
  · by_cases same : other = select
    · subst same
      simp [biased?, enqueue, isSelect, inside]
    · simp [biased?, enqueue, Ne.symm same]
  · by_cases same : other = select
    · subst same
      simp [winner?, enqueue, isSelect, inside]
    · simp [winner?, enqueue, Ne.symm same]

private theorem Settles.own {after : SelectState T} {branch : SelectBranch T} (settles : Settles state select index settlement after)
    (found : state.branch? select index = some branch) :
    after.branch? select index = some { branch with settled := some settlement } := by
  rw [settles.branch, if_pos ⟨rfl, rfl⟩, found]
  rfl

private theorem Settles.settled {after : SelectState T} {branch : SelectBranch T} {other position : ℕ}
    (settles : Settles state select index settlement after) (found : state.branch? select index = some branch)
    (settled : Settled state other position) : Settled after other position := by
  by_cases same : other = select ∧ position = index
  · obtain ⟨rfl, rfl⟩ := same
    exact ⟨_, settles.own found, rfl⟩
  · obtain ⟨branch, present, isSettled⟩ := settled
    exact ⟨branch, by rw [settles.branch, if_neg same]; exact present, isSettled⟩

private theorem Settles.justified {after : SelectState T} {branch : SelectBranch T} {microtask : Microtask}
    (settles : Settles state select index settlement after) (found : state.branch? select index = some branch)
    (justified : Justified state microtask) : Justified after microtask := by
  cases microtask with
  | relay other position hops => exact settles.settled found justified
  | resume other => exact (settles.biased other).trans justified
  | check other => exact (settles.biased other).trans justified
  | race other position => exact ⟨settles.settled found justified.1, (settles.biased other).trans justified.2⟩

/-- A queue lets go of a waiter that settles: with an item that the log then names, or without one. -/
private structure Hands (before after : AsyncQueue T) (waiter : Waiter) (settlement : Settlement T) : Prop where
  consistent : ConsistentQueue before → ConsistentQueue after
  fewer : after.waiters.Sublist before.waiters
  logged : after.taken = before.taken ∨
    ∃ value, settlement = .item value ∧ after.taken = before.taken ++ [(value, waiter)]

/-- A branch that waits nowhere any more settles. -/
private theorem Core.handOver (core : Core state) {queues : List (AsyncQueue T)} (queue : ℕ) {branch : SelectBranch T}
    (found : state.branch? select index = some branch) (unsettled : branch.settled = none)
    (gone : ∀ (other : ℕ) (after : AsyncQueue T), queues[other]? = some after → .branch select index ∉ after.waiters)
    (undecided : (∃ item, settlement = .item item) → state.winner? select = none)
    (others : ∀ other, other ≠ queue → queues[other]? = state.queues[other]?)
    (own : ∀ after : AsyncQueue T, queues[queue]? = some after → ∃ before : AsyncQueue T, state.queues[queue]? = some before ∧
      Hands before after (.branch select index) settlement) :
    Core ({ state with queues }.settle select index settlement) := by
  have kept : SelectState.branch? { state with queues } select index = some branch := found
  have settles := settles_settle kept unsettled settlement
  generalize SelectState.settle { state with queues } select index settlement = after at settles ⊢
  have unchanged : ∀ other position branch, state.branch? other position = some branch →
      ¬ (other = select ∧ position = index) → after.branch? other position = some branch := by
    intro other position branch present differ
    rw [settles.branch, if_neg differ]
    exact present
  constructor
  · intro other found' present
    rw [settles.queues] at present
    by_cases same : other = queue
    · subst same
      obtain ⟨before, known, hands⟩ := own found' present
      exact hands.consistent (core.consistent _ _ known)
    · exact core.consistent other found' (by rw [← others other same]; exact present)
  · intro other found' select' position present member
    rw [settles.queues] at present
    have differ : ¬ (select' = select ∧ position = index) := by
      rintro ⟨rfl, rfl⟩
      exact gone other found' present member
    by_cases same : other = queue
    · subst same
      obtain ⟨before, known, hands⟩ := own found' present
      obtain ⟨hops, waits⟩ := core.waiting _ _ _ _ known (hands.fewer.subset member)
      exact ⟨hops, unchanged _ _ _ waits differ⟩
    · obtain ⟨hops, waits⟩ := core.waiting other found' select' position
        (by rw [← others other same]; exact present) member
      exact ⟨hops, unchanged _ _ _ waits differ⟩
  · intro other found' select' branch present
    rw [settles.queues] at present
    by_cases same : other = queue
    · subst same
      obtain ⟨before, known, hands⟩ := own found' present
      exact Nat.le_trans (hands.fewer.count_le _) (core.once _ _ _ _ known)
    · exact core.once other found' select' branch (by rw [← others other same]; exact present)
  · intro other found' item select' branch present member
    rw [settles.queues] at present
    rw [settles.winner]
    have earlier : ∀ (queue' : ℕ) (before : AsyncQueue T), state.queues[queue']? = some before →
        (item, .branch select' branch) ∈ before.taken →
        (∃ found, after.branch? select' branch = some found ∧ found.settled = some (.item item)) ∧
          (state.winner? select' = none ∨ state.winner? select' = some branch) := by
      intro queue' before known member
      obtain ⟨⟨taker, present, took⟩, decided⟩ := core.taken queue' before item select' branch known member
      refine ⟨⟨taker, unchanged _ _ _ present ?_, took⟩, decided⟩
      rintro ⟨rfl, rfl⟩
      obtain rfl := Option.some.inj (found.symm.trans present)
      rw [unsettled] at took
      cases took
    by_cases same : other = queue
    · subst same
      obtain ⟨before, known, hands⟩ := own found' present
      rcases hands.logged with unlogged | ⟨value, rfl, logged⟩
      · exact earlier other before known (unlogged ▸ member)
      · rw [logged, List.mem_append, List.mem_singleton] at member
        rcases member with old | new
        · exact earlier other before known old
        · cases new
          exact ⟨⟨_, settles.own found, rfl⟩, Or.inl (undecided ⟨_, rfl⟩)⟩
    · exact earlier other found' (by rw [← others other same]; exact present) member
  · intro microtask member
    obtain ⟨hops', appended⟩ := settles.microtasks
    rw [appended, List.mem_append, List.mem_singleton] at member
    rcases member with old | rfl
    · exact settles.justified found (core.justified microtask old)
    · exact ⟨_, settles.own found, rfl⟩
  · intro other found' position present candidate
    obtain ⟨before, known, _, raced, recorded, _⟩ := settles.selects other found' present
    rw [raced, recorded] at candidate
    exact settles.settled found (core.candidates other before position known candidate)
  · intro other found' winner present plain won
    obtain ⟨before, known, biased, raced, _, decided⟩ := settles.selects other found' present
    rw [raced]
    exact core.decided other before winner known (biased ▸ plain) (decided ▸ won)

/-- The queue changes, and no branch settles. -/
private structure Exchanges (before after : AsyncQueue T) (joins : Option (ℕ × ℕ)) : Prop where
  consistent : ConsistentQueue before → ConsistentQueue after
  waiters : ∀ select index, after.waiters.count (.branch select index) ≤
    before.waiters.count (.branch select index) + if joins = some (select, index) then 1 else 0
  logged : ∀ item select index, (item, .branch select index) ∈ after.taken → (item, .branch select index) ∈ before.taken

/-- A queue changes; a branch that joins its waiters waited nowhere before. -/
private theorem Core.exchange (core : Core state) {queues : List (AsyncQueue T)} {queue : ℕ} (joins : Option (ℕ × ℕ))
    (fresh : ∀ select index, joins = some (select, index) →
      (∃ hops, state.branch? select index = some { source := .queue queue hops }) ∧
        ∀ before : AsyncQueue T, state.queues[queue]? = some before → .branch select index ∉ before.waiters)
    (others : ∀ other, other ≠ queue → queues[other]? = state.queues[other]?)
    (own : ∀ after : AsyncQueue T, queues[queue]? = some after → ∃ before : AsyncQueue T,
      state.queues[queue]? = some before ∧ Exchanges before after joins) :
    Core { state with queues } := by
  constructor
  · intro other found present
    by_cases same : other = queue
    · subst same
      obtain ⟨before, known, exchanges⟩ := own found present
      exact exchanges.consistent (core.consistent _ _ known)
    · exact core.consistent other found (by rw [← others other same]; exact present)
  · intro other found select branch present member
    by_cases same : other = queue
    · subst same
      obtain ⟨before, known, exchanges⟩ := own found present
      by_cases joining : joins = some (select, branch)
      · exact (fresh select branch joining).1
      · refine core.waiting other before select branch known (List.count_pos_iff.mp ?_)
        have counted := exchanges.waiters select branch
        rw [if_neg joining] at counted
        exact Nat.lt_of_lt_of_le (List.count_pos_iff.mpr member) counted
    · exact core.waiting other found select branch (by rw [← others other same]; exact present) member
  · intro other found select branch present
    by_cases same : other = queue
    · subst same
      obtain ⟨before, known, exchanges⟩ := own found present
      have counted := exchanges.waiters select branch
      by_cases joining : joins = some (select, branch)
      · rw [if_pos joining, List.count_eq_zero_of_not_mem ((fresh select branch joining).2 before known)] at counted
        exact counted
      · rw [if_neg joining] at counted
        exact Nat.le_trans counted (core.once _ _ _ _ known)
    · exact core.once other found select branch (by rw [← others other same]; exact present)
  · intro other found item select branch present member
    by_cases same : other = queue
    · subst same
      obtain ⟨before, known, exchanges⟩ := own found present
      exact core.taken other before item select branch known (exchanges.logged item select branch member)
    · exact core.taken other found item select branch (by rw [← others other same]; exact present) member
  · exact core.justified
  · exact core.candidates
  · exact core.decided

end Settle

section Queues

variable {state : SelectState T} {select index queue hops : ℕ} {found changed : AsyncQueue T}

private theorem set_others (queues : List (AsyncQueue T)) (changed : AsyncQueue T) :
    ∀ other, other ≠ queue → (queues.set queue changed)[other]? = queues[other]? :=
  fun _ differ => List.getElem?_set_ne (Ne.symm differ)

private theorem set_own {queues : List (AsyncQueue T)} {after : AsyncQueue T}
    (present : (queues.set queue changed)[queue]? = some after) : after = changed := by
  rw [List.getElem?_set] at present
  split at present
  · split at present
    · exact (Option.some.inj present).symm
    · cases present
  · next differ => exact absurd rfl differ

/-- A branch waits at no queue but its own. -/
private theorem Core.elsewhere (core : Core state)
    (own : state.branch? select index = some { source := .queue queue hops }) {other : ℕ} (differ : other ≠ queue)
    {before : AsyncQueue T} (present : state.queues[other]? = some before) : .branch select index ∉ before.waiters := by
  intro member
  obtain ⟨hops', waits⟩ := core.waiting other before select index present member
  rw [own] at waits
  cases waits
  exact differ rfl

/-- A branch that is gone from its own queue is gone from all. -/
private theorem Core.gone (core : Core state)
    (own : state.branch? select index = some { source := .queue queue hops })
    (released : .branch select index ∉ changed.waiters) :
    ∀ (other : ℕ) (after : AsyncQueue T), (state.queues.set queue changed)[other]? = some after →
      .branch select index ∉ after.waiters := by
  intro other after present
  by_cases same : other = queue
  · subst same
    rw [set_own present]
    exact released
  · rw [set_others _ _ other same] at present
    exact core.elsewhere own same present

/-- What `next` does to its queue. -/
private theorem next_cases (queue : AsyncQueue T) (waiter : Waiter) :
    (∃ value buffer, queue.buffer = value :: buffer ∧
        queue.next waiter = ({ queue with buffer, taken := queue.taken ++ [(value, waiter)] }, some (.item value))) ∨
      queue.next waiter = (queue, some .other) ∨
      queue.buffer = [] ∧ queue.next waiter = ({ queue with waiters := queue.waiters ++ [waiter] }, none) := by
  unfold AsyncQueue.next
  split
  · next value buffer buffered => exact Or.inl ⟨value, buffer, buffered, rfl⟩
  · next empty =>
    split
    · exact Or.inr (Or.inl rfl)
    · exact Or.inr (Or.inr ⟨empty, rfl⟩)

private theorem ConsistentQueue.pop {buffer : List T} {value : T} (consistent : ConsistentQueue found)
    (buffered : found.buffer = value :: buffer) (waiter : Waiter) :
    ConsistentQueue { found with buffer, taken := found.taken ++ [(value, waiter)] } := by
  obtain ⟨kept, exclusive⟩ := consistent
  rw [buffered] at kept exclusive
  exact ⟨by simpa using kept, Or.inl (by simpa using exclusive)⟩

private theorem Core.exchanged (core : Core state) (known : state.queues[queue]? = some found)
    (exchanges : Exchanges found changed none) : Core { state with queues := state.queues.set queue changed } := by
  refine core.exchange none nofun (set_others _ _) fun after present => ⟨found, known, ?_⟩
  rw [set_own present]
  exact exchanges

private theorem Core.handed {waiter : Waiter} {settlement : Settlement T} (core : Core state)
    (known : state.queues[queue]? = some found) (isBranch : waiter = .branch select index)
    (own : state.branch? select index = some { source := .queue queue hops })
    (released : waiter ∉ changed.waiters) (undecided : (∃ item, settlement = .item item) → state.winner? select = none)
    (hands : Hands found changed waiter settlement) :
    Core ({ state with queues := state.queues.set queue changed }.settle select index settlement) := by
  subst isBranch
  refine core.handOver queue own rfl (core.gone own released) undecided (set_others _ _) fun after present => ⟨found, known, ?_⟩
  rw [set_own present]
  exact hands

private theorem Core.nextConsumer (core : Core state) (id : ℕ) : Core (state.next queue (.consumer id)) := by
  unfold SelectState.next
  cases known : state.queues[queue]? with
  | none => exact core
  | some found =>
    dsimp only
    rcases next_cases found (.consumer id) with ⟨value, buffer, buffered, same⟩ | same | ⟨empty, same⟩
    · rw [same]
      exact core.exchanged known ⟨fun kept => kept.pop buffered _, fun _ _ => by simp,
        fun item select index member => by simpa using member⟩
    · rw [same]
      exact core.exchanged known ⟨fun kept => kept, fun _ _ => by simp, fun _ _ _ member => member⟩
    · rw [same]
      exact core.exchanged known ⟨fun kept => ⟨kept.1, Or.inr empty⟩, fun _ _ => by simp, fun _ _ _ member => member⟩

/-- A branch calls `next` of its queue. -/
private theorem Core.nextBranch (core : Core state)
    (own : state.branch? select index = some { source := .queue queue hops })
    (absent : ∀ before : AsyncQueue T, state.queues[queue]? = some before → .branch select index ∉ before.waiters)
    (undecided : state.winner? select = none) : Core (state.next queue (.branch select index)) := by
  unfold SelectState.next
  cases known : state.queues[queue]? with
  | none => exact core
  | some found =>
    have idle := absent found known
    dsimp only
    rcases next_cases found (.branch select index) with ⟨value, buffer, buffered, same⟩ | same | ⟨empty, same⟩
    · rw [same]
      exact core.handed known rfl own idle (fun _ => undecided)
        ⟨fun kept => kept.pop buffered _, List.Sublist.refl _, Or.inr ⟨value, rfl, rfl⟩⟩
    · rw [same]
      exact core.handed known rfl own idle (fun _ => undecided) ⟨fun kept => kept, List.Sublist.refl _, Or.inl rfl⟩
    · rw [same]
      refine core.exchange (some (select, index)) (fun select index same => ?_) (set_others _ _)
        fun after present => ⟨found, known, ?_⟩
      · cases same
        exact ⟨⟨hops, own⟩, absent⟩
      · rw [set_own present]
        refine ⟨fun kept => ⟨kept.1, Or.inr empty⟩, fun other position => ?_, fun _ _ _ member => member⟩
        by_cases same : select = other ∧ index = position
        · obtain ⟨rfl, rfl⟩ := same
          simp
        · simp [same]

private theorem SelectsSound.undecided (sound : SelectsSound state) (known : state.queues[queue]? = some found)
    (member : .branch select index ∈ found.waiters) : state.winner? select = none := by
  cases decided : state.winner? select with
  | none => rfl
  | some winner => exact absurd member (sound.released select winner decided queue found index known)

private theorem SelectsSound.core_push (sound : SelectsSound state) (value : T) : Core (state.push queue value) := by
  unfold SelectState.push
  cases known : state.queues[queue]? with
  | none => exact sound.core
  | some found =>
    dsimp only
    unfold AsyncQueue.push
    by_cases closed : found.closed
    · rw [if_pos closed]
      exact sound.core.exchanged known ⟨fun kept => kept, fun _ _ => by simp, fun _ _ _ member => member⟩
    · rw [if_neg closed]
      cases waiting : found.waiters with
      | nil =>
        refine sound.core.exchanged known ⟨fun kept => ⟨?_, Or.inl rfl⟩, fun _ _ => by simp, fun _ _ _ member => member⟩
        rw [← kept.1, List.append_assoc]
      | cons waiter waiters =>
        have handed : ConsistentQueue found → ConsistentQueue
            { found with waiters, pushed := found.pushed ++ [value], taken := found.taken ++ [(value, waiter)] } := by
          rintro ⟨kept, exclusive⟩
          have empty : found.buffer = [] := by simpa [waiting] using exclusive
          rw [empty] at kept
          exact ⟨by simpa [empty] using kept, Or.inr empty⟩
        cases waiter with
        | consumer id =>
          refine sound.core.exchanged known ⟨handed, fun _ _ => by simp [waiting], fun item select index member => ?_⟩
          simpa using member
        | branch select index =>
          have first : .branch select index ∈ found.waiters := waiting ▸ List.mem_cons_self
          obtain ⟨hops, own⟩ := sound.core.waiting queue found select index known first
          have single := sound.core.once queue found select index known
          rw [waiting, List.count_cons_self] at single
          have later : .branch select index ∉ waiters := List.count_eq_zero.mp (by omega)
          refine sound.core.handed known rfl own later (fun _ => sound.undecided known first)
            ⟨handed, ?_, Or.inr ⟨value, rfl, rfl⟩⟩
          rw [waiting]
          exact List.sublist_cons_self _ _

/-- The waiters of a queue that has no waiters left settle one after the other. -/
private theorem Core.notifyAll {waiters : List Waiter} (core : Core state) (known : state.queues[queue]? = some changed)
    (nobody : changed.waiters = [])
    (pending : ∀ select index, .branch select index ∈ waiters →
      ∃ hops, state.branch? select index = some { source := .queue queue hops })
    (once : ∀ select index, waiters.count (.branch select index) ≤ 1) :
    Core (waiters.foldl (fun state waiter => state.notify .other waiter) state) := by
  induction waiters generalizing state with
  | nil => exact core
  | cons waiter waiters ih =>
    have fewer : ∀ select index, waiters.count (.branch select index) ≤ 1 := fun select index =>
      Nat.le_trans ((List.sublist_cons_self _ _).count_le _) (once select index)
    rw [List.foldl_cons]
    cases waiter with
    | consumer id => exact ih core known (fun select index member => pending select index (List.mem_cons_of_mem _ member)) fewer
    | branch select index =>
      obtain ⟨hops, own⟩ := pending select index List.mem_cons_self
      have single := once select index
      rw [List.count_cons_self] at single
      have later : .branch select index ∉ waiters := List.count_eq_zero.mp (by omega)
      have settles := settles_settle own rfl (.other : Settlement T)
      refine ih ?_ (by rw [SelectState.notify, settles.queues]; exact known) (fun other position member => ?_) fewer
      · refine core.handOver queue own rfl (fun other after present => ?_) nofun (fun _ _ => rfl) fun after present =>
          ⟨after, present, fun kept => kept, List.Sublist.refl _, Or.inl rfl⟩
        by_cases same : other = queue
        · subst same
          rw [Option.some.inj (present.symm.trans known), nobody]
          exact List.not_mem_nil
        · exact core.elsewhere own same present
      · obtain ⟨hops', waits⟩ := pending other position (List.mem_cons_of_mem _ member)
        refine ⟨hops', ?_⟩
        rw [SelectState.notify, settles.branch, if_neg]
        · exact waits
        · rintro ⟨rfl, rfl⟩
          exact later member

private theorem Core.close (core : Core state) : Core (state.close queue) := by
  unfold SelectState.close
  cases known : state.queues[queue]? with
  | none => exact core
  | some found =>
    have inside : queue < state.queues.length := (List.getElem?_eq_some_iff.mp known).1
    dsimp only
    unfold AsyncQueue.close
    by_cases closed : found.closed
    · rw [if_pos closed]
      exact core.exchanged known ⟨fun kept => kept, fun _ _ => by simp, fun _ _ _ member => member⟩
    · rw [if_neg closed]
      refine Core.notifyAll (core.exchanged known ⟨fun kept => ⟨kept.1, Or.inl rfl⟩, fun _ _ => by simp,
        fun _ _ _ member => member⟩) (List.getElem?_set_self inside) rfl (fun select index member => ?_) fun select index => ?_
      · exact core.waiting queue found select index known member
      · exact core.once queue found select index known

/-- A branch that awaits no queue settles. -/
private theorem Core.settleExternal {settlement : Settlement T} (core : Core state)
    (own : state.branch? select index = some { source := .external hops }) (plain : ¬ ∃ item, settlement = .item item) :
    Core (state.settle select index settlement) := by
  refine core.handOver 0 own rfl (fun other after present member => ?_) (fun item => absurd item plain) (fun _ _ => rfl)
    fun after present => ⟨after, present, fun kept => kept, List.Sublist.refl _, Or.inl rfl⟩
  obtain ⟨hops', waits⟩ := core.waiting other after select index present member
  rw [own] at waits
  cases waits

/-- No select decides, and no branch begins to wait. -/
private structure Calms (before after : SelectState T) : Prop where
  winner : ∀ select, after.winner? select = before.winner? select
  waiters : ∀ (queue : ℕ) (found : AsyncQueue T) (select index : ℕ), after.queues[queue]? = some found →
    .branch select index ∈ found.waiters →
      ∃ earlier : AsyncQueue T, before.queues[queue]? = some earlier ∧ .branch select index ∈ earlier.waiters

private theorem Calms.refl (state : SelectState T) : Calms state state :=
  ⟨fun _ => rfl, fun _ found _ _ present member => ⟨found, present, member⟩⟩

private theorem Calms.trans {before middle after : SelectState T} (first : Calms before middle)
    (second : Calms middle after) : Calms before after := by
  refine ⟨fun select => (second.winner select).trans (first.winner select), fun queue found select index present member => ?_⟩
  obtain ⟨earlier, known, waits⟩ := second.waiters queue found select index present member
  exact first.waiters queue earlier select index known waits

private theorem SelectsSound.of_calms {after : SelectState T} (sound : SelectsSound state) (core : Core after) (calms : Calms state after) :
    SelectsSound after := by
  refine ⟨core, fun select winner decided queue found index present member => ?_⟩
  obtain ⟨earlier, known, waits⟩ := calms.waiters queue found select index present member
  rw [calms.winner] at decided
  exact sound.released select winner decided queue earlier index known waits

private theorem calms_settle (settlement : Settlement T) : Calms state (state.settle select index settlement) := by
  by_cases unsettled : ∃ branch, state.branch? select index = some branch ∧ branch.settled = none
  · obtain ⟨branch, present, unsettled⟩ := unsettled
    have settles := settles_settle present unsettled settlement
    exact ⟨settles.winner, fun queue found other position present member =>
      ⟨found, by rw [← settles.queues]; exact present, member⟩⟩
  · have same : state.settle select index settlement = state := by
      unfold SelectState.settle
      cases foundSelect : state.selects[select]? with
      | none => rfl
      | some select' =>
        dsimp only
        cases foundBranch : select'.branches[index]? with
        | none => rfl
        | some branch =>
          have present := (branch?_eq_some).mpr ⟨select', foundSelect, foundBranch⟩
          dsimp only
          rw [if_pos]
          exact Option.isSome_iff_ne_none.mpr fun none => unsettled ⟨branch, present, none⟩
    rw [same]
    exact Calms.refl state

private theorem calms_notify (settlement : Settlement T) (waiter : Waiter) : Calms state (state.notify settlement waiter) := by
  cases waiter with
  | consumer id => exact Calms.refl state
  | branch select index => exact calms_settle settlement

private theorem calms_set (known : state.queues[queue]? = some found)
    (fewer : ∀ select index, .branch select index ∈ changed.waiters → .branch select index ∈ found.waiters) :
    Calms state { state with queues := state.queues.set queue changed } := by
  refine ⟨fun _ => rfl, fun other after select index present member => ?_⟩
  by_cases same : other = queue
  · subst same
    rw [set_own present] at member
    exact ⟨found, known, fewer select index member⟩
  · rw [set_others _ _ other same] at present
    exact ⟨after, present, member⟩

private theorem calms_push (value : T) : Calms state (state.push queue value) := by
  unfold SelectState.push
  cases known : state.queues[queue]? with
  | none => exact Calms.refl state
  | some found =>
    dsimp only
    unfold AsyncQueue.push
    by_cases closed : found.closed
    · rw [if_pos closed]
      exact calms_set known fun _ _ member => member
    · rw [if_neg closed]
      cases waiting : found.waiters with
      | nil => exact calms_set known fun _ _ member => (List.not_mem_nil member).elim
      | cons waiter waiters =>
        refine Calms.trans (calms_set known fun _ _ member => ?_) (calms_notify _ _)
        rw [waiting]
        exact List.mem_cons_of_mem _ member

private theorem calms_close : Calms state (state.close queue) := by
  unfold SelectState.close
  cases known : state.queues[queue]? with
  | none => exact Calms.refl state
  | some found =>
    dsimp only
    unfold AsyncQueue.close
    by_cases closed : found.closed
    · rw [if_pos closed]
      exact calms_set known fun _ _ member => member
    · rw [if_neg closed]
      have emptied : Calms state
          { state with queues := state.queues.set queue { found with closed := true, waiters := [] } } :=
        calms_set known fun _ _ member => (List.not_mem_nil member).elim
      refine Calms.trans emptied ?_
      generalize SelectState.mk _ _ _ = middle
      generalize found.waiters = waiters
      induction waiters generalizing middle with
      | nil => exact Calms.refl middle
      | cons waiter waiters ih => exact Calms.trans (calms_notify _ _) (ih _)

private theorem calms_nextConsumer (id : ℕ) : Calms state (state.next queue (.consumer id)) := by
  unfold SelectState.next
  cases known : state.queues[queue]? with
  | none => exact Calms.refl state
  | some found =>
    dsimp only
    rcases next_cases found (.consumer id) with ⟨value, buffer, buffered, same⟩ | same | ⟨empty, same⟩
    · rw [same]
      exact calms_set known fun _ _ member => member
    · rw [same]
      exact calms_set known fun _ _ member => member
    · rw [same]
      exact calms_set known fun _ _ member => by simpa using member

end Queues

section Starting

variable {state : SelectState T}

/-- The branches of a select that are still to run: unsettled, and waiting nowhere. -/
private def Idle (state : SelectState T) (select : ℕ) (entries : List (BranchSource × ℕ)) : Prop :=
  state.winner? select = none ∧ ∀ entry ∈ entries, state.branch? select entry.2 = some { source := entry.1 } ∧
    ∀ (queue : ℕ) (found : AsyncQueue T), state.queues[queue]? = some found →
      .branch select entry.2 ∉ found.waiters

/-- Only the given branch settles or begins to wait. -/
private structure Enters (select index : ℕ) (before after : SelectState T) : Prop where
  winner : ∀ other, after.winner? other = before.winner? other
  branch : ∀ other position, ¬ (other = select ∧ position = index) →
    after.branch? other position = before.branch? other position
  waiters : ∀ (queue : ℕ) (found : AsyncQueue T) (other position : ℕ), after.queues[queue]? = some found →
    .branch other position ∈ found.waiters → (other = select ∧ position = index) ∨
      ∃ earlier : AsyncQueue T, before.queues[queue]? = some earlier ∧ .branch other position ∈ earlier.waiters

private theorem Enters.refl (select index : ℕ) (state : SelectState T) : Enters select index state state :=
  ⟨fun _ => rfl, fun _ _ _ => rfl, fun _ found _ _ present member => Or.inr ⟨found, present, member⟩⟩

private theorem enters_next {select index queue : ℕ} {branch : SelectBranch T}
    (own : state.branch? select index = some branch) (unsettled : branch.settled = none) :
    Enters select index state (state.next queue (.branch select index)) := by
  unfold SelectState.next
  cases known : state.queues[queue]? with
  | none => exact Enters.refl select index state
  | some found =>
    have waits : ∀ (changed : AsyncQueue T) (other : ℕ) (after : AsyncQueue T) (select' position : ℕ),
        (∀ select' position, .branch select' position ∈ changed.waiters → (select' = select ∧ position = index) ∨
          .branch select' position ∈ found.waiters) →
        (state.queues.set queue changed)[other]? = some after → .branch select' position ∈ after.waiters →
        (select' = select ∧ position = index) ∨ ∃ earlier : AsyncQueue T, state.queues[other]? = some earlier ∧
          .branch select' position ∈ earlier.waiters := by
      intro changed other after select' position fewer present member
      by_cases same : other = queue
      · subst same
        rw [set_own present] at member
        exact (fewer select' position member).imp_right fun member => ⟨found, known, member⟩
      · rw [set_others _ _ other same] at present
        exact Or.inr ⟨after, present, member⟩
    have settled : ∀ (changed : AsyncQueue T) (settlement : Settlement T), changed.waiters = found.waiters →
        Enters select index state
          (SelectState.settle { state with queues := state.queues.set queue changed } select index settlement) := by
      intro changed settlement same
      have kept : SelectState.branch? { state with queues := state.queues.set queue changed } select index = some branch :=
        own
      have settles := settles_settle kept unsettled settlement
      refine ⟨settles.winner, fun other position differ => ?_, fun other after select' position present member => ?_⟩
      · rw [settles.branch, if_neg differ]
        rfl
      · rw [settles.queues] at present
        exact waits changed other after select' position (fun _ _ member => Or.inr (same ▸ member)) present member
    dsimp only
    rcases next_cases found (.branch select index) with ⟨value, buffer, buffered, same⟩ | same | ⟨empty, same⟩
    · rw [same]
      exact settled _ _ rfl
    · rw [same]
      exact settled _ _ rfl
    · rw [same]
      refine ⟨fun _ => rfl, fun _ _ _ => rfl, fun other after select' position present member => ?_⟩
      refine waits _ other after select' position (fun select' position member => ?_) present member
      rcases List.mem_append.mp member with old | new
      · exact Or.inr old
      · cases List.mem_singleton.mp new
        exact Or.inl ⟨rfl, rfl⟩

private theorem enters_enter {select : ℕ} {entry : BranchSource × ℕ}
    (own : state.branch? select entry.2 = some { source := entry.1 }) :
    Enters select entry.2 state (state.enter select entry) := by
  obtain ⟨source, index⟩ := entry
  cases source with
  | external hops => exact Enters.refl select index state
  | queue queue hops => exact enters_next own rfl

private theorem Core.enter {select : ℕ} {entry : BranchSource × ℕ} (core : Core state)
    (undecided : state.winner? select = none) (own : state.branch? select entry.2 = some { source := entry.1 })
    (absent : ∀ (queue : ℕ) (found : AsyncQueue T), state.queues[queue]? = some found →
      .branch select entry.2 ∉ found.waiters) : Core (state.enter select entry) := by
  obtain ⟨source, index⟩ := entry
  cases source with
  | external hops => exact core
  | queue queue hops => exact core.nextBranch own (fun found known => absent queue found known) undecided

/-- The branches of a select run one after the other. -/
private theorem SelectsSound.enterAll {select : ℕ} (entries : List (BranchSource × ℕ)) (sound : SelectsSound state)
    (idle : Idle state select entries) (distinct : (entries.map (·.2)).Nodup) :
    SelectsSound (entries.foldl (fun started entry => started.enter select entry) state) := by
  induction entries generalizing state with
  | nil => exact sound
  | cons entry entries ih =>
    obtain ⟨undecided, each⟩ := idle
    obtain ⟨own, absent⟩ := each entry List.mem_cons_self
    have core := sound.core.enter undecided own absent
    have enters := enters_enter own
    rw [List.foldl_cons]
    rw [List.map_cons, List.nodup_cons] at distinct
    refine ih ⟨core, fun other winner decided queue found position present member => ?_⟩
      ⟨by rw [enters.winner]; exact undecided, fun later member => ?_⟩ distinct.2
    · rw [enters.winner] at decided
      rcases enters.waiters queue found other position present member with ⟨rfl, rfl⟩ | ⟨earlier, known, waits⟩
      · rw [undecided] at decided
        cases decided
      · exact sound.released other winner decided queue earlier position known waits
    · have differ : ¬ (select = select ∧ later.2 = entry.2) := fun same =>
        distinct.1 (same.2 ▸ List.mem_map_of_mem member)
      obtain ⟨waiting, nowhere⟩ := each later (List.mem_cons_of_mem _ member)
      refine ⟨by rw [enters.branch _ _ differ]; exact waiting, fun queue found present waits => ?_⟩
      rcases enters.waiters queue found select later.2 present waits with same | ⟨earlier, known, waits⟩
      · exact differ same
      · exact nowhere queue earlier known waits

variable {added : Select T}

private theorem branch?_append {select index : ℕ} {branch : SelectBranch T} (present : state.branch? select index = some branch) :
    SelectState.branch? { state with selects := state.selects ++ [added] } select index = some branch := by
  obtain ⟨found, known, branch⟩ := (branch?_eq_some).mp present
  exact (branch?_eq_some).mpr ⟨found, by rw [List.getElem?_append_left (List.getElem?_eq_some_iff.mp known).1]; exact known,
    branch⟩

private theorem winner?_append (fresh : added.winner = none) (select : ℕ) :
    SelectState.winner? { state with selects := state.selects ++ [added] } select = state.winner? select := by
  unfold SelectState.winner?
  dsimp only
  rcases Nat.lt_trichotomy select state.selects.length with inside | rfl | outside
  · rw [List.getElem?_append_left inside]
  · simp [fresh]
  · rw [List.getElem?_eq_none (by simp; omega), List.getElem?_eq_none (by omega)]

private theorem select_append {select : ℕ} {found : Select T} (present : (state.selects ++ [added])[select]? = some found) :
    state.selects[select]? = some found ∨ found = added := by
  rcases Nat.lt_or_ge select state.selects.length with inside | outside
  · rw [List.getElem?_append_left inside] at present
    exact Or.inl present
  · rw [List.getElem?_append_right outside] at present
    exact Or.inr (List.mem_singleton.mp (List.mem_of_getElem? present))

private theorem biased?_append {select : ℕ} {kind : Bool} (known : biased? state select = some kind) :
    biased? { state with selects := state.selects ++ [added] } select = some kind := by
  obtain ⟨found, present, _⟩ := Option.map_eq_some_iff.mp known
  rw [biased?, List.getElem?_append_left (List.getElem?_eq_some_iff.mp present).1]
  exact known

private theorem Settled.append {select index : ℕ} (settled : Settled state select index) :
    Settled { state with selects := state.selects ++ [added] } select index := by
  obtain ⟨branch, present, isSettled⟩ := settled
  exact ⟨branch, branch?_append present, isSettled⟩

private theorem SelectsSound.append (sound : SelectsSound state) (fresh : added.winner = none) (unraced : added.raced = none)
    (unrecorded : added.recorded = []) : SelectsSound { state with selects := state.selects ++ [added] } := by
  refine ⟨⟨sound.core.consistent, ?_, sound.core.once, ?_, ?_, ?_, ?_⟩, ?_⟩
  · intro queue found select index present member
    obtain ⟨hops, waits⟩ := sound.core.waiting queue found select index present member
    exact ⟨hops, branch?_append waits⟩
  · intro queue found item select index present member
    obtain ⟨⟨taker, known, took⟩, decided⟩ := sound.core.taken queue found item select index present member
    rw [winner?_append fresh]
    exact ⟨⟨taker, branch?_append known, took⟩, decided⟩
  · intro microtask member
    have justified := sound.core.justified microtask member
    cases microtask with
    | relay select index hops => exact Settled.append justified
    | resume select => exact biased?_append justified
    | check select => exact biased?_append justified
    | race select index => exact ⟨justified.1.append, biased?_append justified.2⟩
  · intro select found index present candidate
    rcases select_append present with earlier | rfl
    · exact (sound.core.candidates select found index earlier candidate).append
    · simp [unraced, unrecorded] at candidate
  · intro select found winner present plain won
    rcases select_append present with earlier | rfl
    · exact sound.core.decided select found winner earlier plain won
    · rw [fresh] at won
      cases won
  · intro select winner decided
    rw [winner?_append fresh] at decided
    exact sound.released select winner decided

/-- A select that starts finds its branches idle. -/
private theorem SelectsSound.start (sound : SelectsSound state) (biased : Bool) (sources : List BranchSource) :
    SelectsSound (state.start biased sources) := by
  refine (sound.append rfl rfl rfl).enterAll sources.zipIdx ⟨?_, fun entry member => ⟨?_, ?_⟩⟩ ?_
  · rw [winner?_append rfl]
    simp [SelectState.winner?]
  · obtain ⟨source, index⟩ := entry
    have known := (List.mem_zipIdx_iff_getElem?.mp member)
    simp [SelectState.branch?, known]
  · intro queue found present waits
    obtain ⟨hops, known⟩ := sound.core.waiting queue found _ _ present waits
    obtain ⟨earlier, inside, _⟩ := (branch?_eq_some).mp known
    rw [List.getElem?_eq_none (by omega)] at inside
    cases inside
  · simp [List.nodup_range']

end Starting

section Deciding

variable {state : SelectState T} {select index : ℕ} {found changed : Select T} {microtasks : List Microtask}

private theorem branch?_revise (known : state.selects[select]? = some found) (same : changed.branches = found.branches)
    (other position : ℕ) :
    SelectState.branch? { state with selects := state.selects.set select changed, microtasks } other position =
      state.branch? other position := by
  obtain ⟨inside, isSelect⟩ := List.getElem?_eq_some_iff.mp known
  unfold SelectState.branch?
  by_cases here : other = select
  · subst here
    simp [inside, isSelect, same]
  · simp [Ne.symm here]

private theorem winner?_revise (known : state.selects[select]? = some found) (other : ℕ) :
    SelectState.winner? { state with selects := state.selects.set select changed, microtasks } other =
      if other = select then changed.winner else state.winner? other := by
  obtain ⟨inside, isSelect⟩ := List.getElem?_eq_some_iff.mp known
  unfold SelectState.winner?
  by_cases here : other = select
  · subst here
    simp [inside]
  · simp [here, Ne.symm here]

private theorem biased?_revise (known : state.selects[select]? = some found) (same : changed.biased = found.biased)
    (other : ℕ) : biased? { state with selects := state.selects.set select changed, microtasks } other =
      biased? state other := by
  obtain ⟨inside, isSelect⟩ := List.getElem?_eq_some_iff.mp known
  unfold biased?
  by_cases here : other = select
  · subst here
    simp [inside, isSelect, same]
  · simp [Ne.symm here]

private theorem Settled.revise {other position : ℕ} (known : state.selects[select]? = some found)
    (same : changed.branches = found.branches) (settled : Settled state other position) :
    Settled { state with selects := state.selects.set select changed, microtasks } other position := by
  obtain ⟨branch, present, isSettled⟩ := settled
  exact ⟨branch, by rw [branch?_revise known same]; exact present, isSettled⟩

/-- The record of a select changes, and microtasks are run or added. -/
private theorem Core.revise (core : Core state) (known : state.selects[select]? = some found)
    (same : changed.branches = found.branches) (sameKind : changed.biased = found.biased)
    (claims : ∀ (queue : ℕ) (before : AsyncQueue T) (item : T) (index : ℕ), state.queues[queue]? = some before →
      (item, .branch select index) ∈ before.taken → changed.winner = none ∨ changed.winner = some index)
    (candidates : ∀ index, changed.raced = some index ∨ index ∈ changed.recorded → Settled state select index)
    (decided : changed.biased = false → ∀ winner, changed.winner = some winner → changed.raced = some winner)
    (justified : ∀ microtask ∈ microtasks, Justified state microtask) :
    Core { state with selects := state.selects.set select changed, microtasks } := by
  have inside : select < state.selects.length := (List.getElem?_eq_some_iff.mp known).1
  refine ⟨core.consistent, ?_, core.once, ?_, ?_, ?_, ?_⟩
  · intro queue before other position present member
    rw [branch?_revise known same]
    exact core.waiting queue before other position present member
  · intro queue before item other position present member
    obtain ⟨taker, decided⟩ := core.taken queue before item other position present member
    rw [branch?_revise known same, winner?_revise known]
    refine ⟨taker, ?_⟩
    by_cases here : other = select
    · subst here
      rw [if_pos rfl]
      exact claims queue before item position present member
    · rw [if_neg here]
      exact decided
  · intro microtask member
    have about := justified microtask member
    cases microtask with
    | relay other position hops => exact Settled.revise known same about
    | resume other => exact (biased?_revise known sameKind other).trans about
    | check other => exact (biased?_revise known sameKind other).trans about
    | race other position => exact ⟨about.1.revise known same, (biased?_revise known sameKind other).trans about.2⟩
  · intro other after position present candidate
    apply Settled.revise known same
    by_cases here : other = select
    · subst here
      rw [List.getElem?_set_self inside] at present
      rw [← Option.some.inj present] at candidate
      exact candidates position candidate
    · rw [List.getElem?_set_ne (Ne.symm here)] at present
      exact core.candidates other after position present candidate
  · intro other after winner present plain won
    by_cases here : other = select
    · subst here
      rw [List.getElem?_set_self inside] at present
      rw [← Option.some.inj present] at plain won ⊢
      exact decided plain winner won
    · rw [List.getElem?_set_ne (Ne.symm here)] at present
      exact core.decided other after winner present plain won

private theorem winner?_of_known (known : state.selects[select]? = some found) : state.winner? select = found.winner := by
  simp [SelectState.winner?, known]

/-- A change that leaves the winner alone. -/
private theorem SelectsSound.revise (sound : SelectsSound state) (known : state.selects[select]? = some found)
    (same : changed.branches = found.branches) (sameKind : changed.biased = found.biased)
    (sameWinner : changed.winner = found.winner)
    (candidates : ∀ index, changed.raced = some index ∨ index ∈ changed.recorded → Settled state select index)
    (decided : changed.biased = false → ∀ winner, changed.winner = some winner → changed.raced = some winner)
    (justified : ∀ microtask ∈ microtasks, Justified state microtask) :
    SelectsSound { state with selects := state.selects.set select changed, microtasks } := by
  refine ⟨sound.core.revise known same sameKind (fun queue before item index present member => ?_) candidates decided
    justified, fun other winner decided => ?_⟩
  · rw [sameWinner, ← winner?_of_known known]
    exact (sound.core.taken queue before item select index present member).2
  · have unchanged : state.winner? other = some winner := by
      rw [winner?_revise known] at decided
      by_cases here : other = select
      · rw [if_pos here, sameWinner, ← winner?_of_known known] at decided
        rw [here]
        exact decided
      · rw [if_neg here] at decided
        exact decided
    exact sound.released other winner unchanged

private theorem modify_own {queues : List (AsyncQueue T)} {queue : ℕ} {change : AsyncQueue T → AsyncQueue T}
    {after : AsyncQueue T} (present : (queues.modify queue change)[queue]? = some after) :
    ∃ before, queues[queue]? = some before ∧ after = change before := by
  rw [List.getElem?_modify] at present
  obtain ⟨before, known, same⟩ := Option.map_eq_some_iff.mp present
  exact ⟨before, known, by simpa using same.symm⟩

private theorem modify_others (queues : List (AsyncQueue T)) {queue : ℕ} (change : AsyncQueue T → AsyncQueue T) :
    ∀ other, other ≠ queue → (queues.modify queue change)[other]? = queues[other]? := by
  intro other differ
  rw [List.getElem?_modify]
  simp [Ne.symm differ]

private theorem abortBranch_core (core : Core state) :
    Core (state.abortBranch select index) ∧ Calms state (state.abortBranch select index) ∧
      ∀ (queue : ℕ) (after : AsyncQueue T), (state.abortBranch select index).queues[queue]? = some after →
        .branch select index ∉ after.waiters := by
  unfold SelectState.abortBranch
  split
  · next queue hops own =>
    have gone : ∀ (other : ℕ) (after : AsyncQueue T),
        (state.queues.modify queue (·.release (.branch select index)))[other]? = some after →
          .branch select index ∉ after.waiters := by
      intro other after present
      by_cases here : other = queue
      · subst here
        obtain ⟨before, _, rfl⟩ := modify_own present
        simp [AsyncQueue.release]
      · rw [modify_others _ _ other here] at present
        exact core.elsewhere own here present
    have moved : Calms state { state with queues := state.queues.modify queue (·.release (.branch select index)) } := by
      refine ⟨fun _ => rfl, fun other after select' position present member => ?_⟩
      by_cases here : other = queue
      · subst here
        obtain ⟨before, known, rfl⟩ := modify_own present
        exact ⟨before, known, List.mem_of_mem_filter member⟩
      · rw [modify_others _ _ other here] at present
        exact ⟨after, present, member⟩
    refine ⟨?_, moved.trans (calms_settle _), fun other after present => ?_⟩
    · refine core.handOver queue own rfl gone nofun (modify_others _ _) fun after present => ?_
      obtain ⟨before, known, rfl⟩ := modify_own present
      refine ⟨before, known, fun kept => ⟨kept.1, kept.2.imp_left fun nobody => ?_⟩, List.filter_sublist, Or.inl rfl⟩
      simp [AsyncQueue.release, nobody]
    · have kept : SelectState.branch?
          { state with queues := state.queues.modify queue (·.release (.branch select index)) } select index =
            some { source := .queue queue hops } := own
      rw [(settles_settle kept rfl _).queues] at present
      exact gone other after present
  · next differ =>
    refine ⟨core, Calms.refl state, fun queue after present member => ?_⟩
    obtain ⟨hops, waits⟩ := core.waiting queue after select index present member
    exact differ queue hops waits

/-- The losers of a select are aborted one after the other. -/
private theorem abortAll_core (indices : List ℕ) (core : Core state) :
    Core (indices.foldl (fun state index => state.abortBranch select index) state) ∧
      Calms state (indices.foldl (fun state index => state.abortBranch select index) state) ∧
      ∀ index ∈ indices, ∀ (queue : ℕ) (after : AsyncQueue T),
        (indices.foldl (fun state index => state.abortBranch select index) state).queues[queue]? = some after →
          .branch select index ∉ after.waiters := by
  induction indices generalizing state with
  | nil => exact ⟨core, Calms.refl state, nofun⟩
  | cons first indices ih =>
    obtain ⟨aborted, calms, absent⟩ := @abortBranch_core _ _ select first core
    obtain ⟨final, later, others⟩ := ih aborted
    refine ⟨final, calms.trans later, fun index member queue after present waits => ?_⟩
    rcases List.mem_cons.mp member with rfl | member
    · obtain ⟨earlier, known, waits⟩ := later.waiters queue after select index present waits
      exact absent queue earlier known waits
    · exact others index member queue after present waits

/-- A select decides for a branch that has settled, when no other branch has taken an item. -/
private theorem SelectsSound.decideFor {winner : ℕ} (sound : SelectsSound state) (settled : Settled state select winner)
    (raced : ∀ found : Select T, state.selects[select]? = some found → found.biased = false → found.raced = some winner)
    (claims : ∀ (queue : ℕ) (before : AsyncQueue T) (item : T) (index : ℕ), state.queues[queue]? = some before →
      (item, .branch select index) ∈ before.taken → index = winner) : SelectsSound (state.decideFor select winner) := by
  unfold SelectState.decideFor
  cases known : state.selects[select]? with
  | none => exact sound
  | some found =>
    dsimp only
    have inside : select < state.selects.length := (List.getElem?_eq_some_iff.mp known).1
    have core : Core { state with selects := state.selects.set select { found with winner := some winner } } := by
      refine sound.core.revise known rfl rfl (fun queue before item index present member => ?_) (fun index candidate => ?_)
        (fun plain other won => ?_) sound.core.justified
      · rw [claims queue before item index present member]
        exact Or.inr rfl
      · exact sound.core.candidates select found index known candidate
      · rw [← Option.some.inj won]
        exact raced found known plain
    obtain ⟨final, calms, absent⟩ := @abortAll_core _ _ select ((List.range found.branches.length).filter (· ≠ winner)) core
    refine ⟨final, fun other decided isDecided queue after index present waits => ?_⟩
    rw [calms.winner] at isDecided
    obtain ⟨earlier, earlierKnown, earlierWaits⟩ := calms.waiters queue after other index present waits
    by_cases here : other = select
    · subst here
      obtain ⟨hops, waiting⟩ := sound.core.waiting queue earlier other index earlierKnown earlierWaits
      obtain ⟨found', foundKnown, branchKnown⟩ := (branch?_eq_some).mp waiting
      rw [known] at foundKnown
      cases foundKnown
      have loser : index ≠ winner := by
        rintro rfl
        obtain ⟨branch, present, isSettled⟩ := settled
        rw [waiting] at present
        cases present
        cases isSettled
      refine absent index (List.mem_filter.mpr ⟨?_, by simpa using loser⟩) queue after present waits
      exact List.mem_range.mpr (List.getElem?_eq_some_iff.mp branchKnown).1
    · rw [winner?_revise known, if_neg here] at isDecided
      exact sound.released other decided isDecided queue earlier index earlierKnown earlierWaits

private theorem SelectsSound.enqueue {microtask : Microtask} (sound : SelectsSound state) (justified : Justified state microtask) :
    SelectsSound (state.enqueue microtask) := by
  obtain ⟨core, released⟩ := sound
  refine ⟨⟨core.consistent, core.waiting, core.once, core.taken, fun other member => ?_, core.candidates, core.decided⟩,
    released⟩
  rcases List.mem_append.mp member with old | new
  · exact core.justified other old
  · rw [List.mem_singleton.mp new]
    exact justified

private theorem SelectsSound.onSettled (sound : SelectsSound state) (settled : Settled state select index) :
    SelectsSound (state.onSettled select index) := by
  unfold SelectState.onSettled
  cases known : state.selects[select]? with
  | none => exact sound
  | some found =>
    dsimp only
    have kind : biased? state select = some found.biased := by simp [biased?, known]
    have recorded : ∀ other, found.raced = some other ∨ other ∈ found.recorded ++ [index] →
        Settled state select other := by
      intro other candidate
      rcases candidate with raced | listed
      · exact sound.core.candidates select found other known (Or.inl raced)
      · rcases List.mem_append.mp listed with old | new
        · exact sound.core.candidates select found other known (Or.inr old)
        · rw [List.mem_singleton.mp new]
          exact settled
    by_cases plain : found.biased = false
    · rw [if_pos (by simp [plain])]
      exact sound.enqueue ⟨settled, plain ▸ kind⟩
    · rw [if_neg (by simpa using plain)]
      have decided : found.biased = false → ∀ winner, found.winner = some winner → found.raced = some winner :=
        fun plain winner won => sound.core.decided select found winner known plain won
      split
      · exact sound
      · split
        · exact sound.revise known rfl rfl rfl recorded decided sound.core.justified
        · refine SelectsSound.enqueue (sound.revise known rfl rfl rfl recorded decided sound.core.justified) ?_
          refine (biased?_revise known ?_ select).trans (kind.trans ?_)
          · rfl
          · simpa using plain

private theorem SelectsSound.onRaced (sound : SelectsSound state) (settled : Settled state select index)
    (plain : biased? state select = some false) : SelectsSound (state.onRaced select index) := by
  unfold SelectState.onRaced
  cases known : state.selects[select]? with
  | none => exact sound
  | some found =>
    dsimp only
    have kind : found.biased = false := by simpa [biased?, known] using plain
    split
    · exact sound
    · next unraced =>
      refine SelectsSound.enqueue (sound.revise known rfl rfl rfl (fun other candidate => ?_) (fun _ winner won => ?_)
        sound.core.justified) ((biased?_revise known ?_ select).trans plain)
      · rcases candidate with raced | listed
        · rw [← Option.some.inj raced]
          exact settled
        · exact sound.core.candidates select found other known (Or.inr listed)
      · rw [sound.core.decided select found winner known kind won] at unraced
        exact absurd rfl unraced
      · rfl

/-- A branch that has taken an item is the one that an undivided select decides for. -/
private theorem claims_of_undivided {winner : ℕ} (sound : SelectsSound state) (undivided : Undivided state select)
    (settled : Settled state select winner) :
    ∀ (queue : ℕ) (before : AsyncQueue T) (item : T) (index : ℕ), state.queues[queue]? = some before →
      (item, .branch select index) ∈ before.taken → index = winner := by
  intro queue before item index present member
  obtain ⟨⟨branch, known, took⟩, _⟩ := sound.core.taken queue before item select index present member
  exact (undivided index winner branch item known took settled).symm

private theorem SelectsSound.onResumed (sound : SelectsSound state)
    (undivided : state.winner? select = none → Undivided state select)
    (plain : biased? state select = some false) : SelectsSound (state.onResumed select) := by
  unfold SelectState.onResumed
  cases known : state.selects[select]? with
  | none => exact sound
  | some found =>
    dsimp only
    split
    · exact sound
    · next winner raced =>
      have settled := sound.core.candidates select found winner known (Or.inl raced)
      refine sound.decideFor settled (fun found' present _ => ?_) ?_
      · rw [known] at present
        cases present
        exact raced
      · cases decided : found.winner with
        | none =>
          exact claims_of_undivided sound (undivided ((winner?_of_known known).trans decided)) settled
        | some earlier =>
          have kind : found.biased = false := by simpa [biased?, known] using plain
          have same : earlier = winner :=
            Option.some.inj ((sound.core.decided select found earlier known kind decided).symm.trans raced)
          intro queue before item index present member
          have claimed := (sound.core.taken queue before item select index present member).2
          rw [winner?_of_known known, decided] at claimed
          simpa [same, eq_comm] using claimed

private theorem SelectsSound.commitIfReady (sound : SelectsSound state)
    (undivided : state.winner? select = none → Undivided state select)
    (biased : biased? state select = some true) : SelectsSound (state.commitIfReady select) := by
  unfold SelectState.commitIfReady
  cases known : state.selects[select]? with
  | none => exact sound
  | some found =>
    dsimp only
    have kind : found.biased = true := by simpa [biased?, known] using biased
    have checked : SelectsSound { state with selects := state.selects.set select { found with checkScheduled := false } } :=
      sound.revise known rfl rfl rfl (fun other candidate => sound.core.candidates select found other known candidate)
        (fun plain => by simp [kind] at plain) sound.core.justified
    split
    · exact checked
    · next undecided =>
      split
      · exact checked
      · next winner first =>
        have listed : winner ∈ found.recorded := by simpa using List.find?_some first
        have settled := sound.core.candidates select found winner known (Or.inr listed)
        have inside : select < state.selects.length := (List.getElem?_eq_some_iff.mp known).1
        have claims := fun undecided => claims_of_undivided sound (undivided undecided) settled
        refine checked.decideFor (settled.revise known rfl) (fun found' present plain => ?_) ?_
        · rw [List.getElem?_set_self inside] at present
          cases present
          simp [kind] at plain
        · have open' : state.winner? select = none := by
            rw [winner?_of_known known]
            simpa using undecided
          exact claims open'

private theorem SelectsSound.runMicrotask {microtask : Microtask} (sound : SelectsSound state)
    (undivided : DecidesUndivided state .microtask) (queued : state.microtasks = microtask :: microtasks) :
    SelectsSound ({ state with microtasks }.runMicrotask microtask) := by
  have about := sound.core.justified microtask (queued ▸ List.mem_cons_self)
  have dropped : SelectsSound { state with microtasks } := by
    obtain ⟨core, released⟩ := sound
    exact ⟨⟨core.consistent, core.waiting, core.once, core.taken,
      fun other member => core.justified other (queued ▸ List.mem_cons_of_mem _ member), core.candidates, core.decided⟩,
      released⟩
  cases microtask with
  | relay select index hops =>
    cases hops with
    | zero => exact dropped.onSettled about
    | succ hops => exact dropped.enqueue about
  | race select index => exact dropped.onRaced about.1 about.2
  | resume select =>
    exact dropped.onResumed (fun undecided => undivided select undecided (Or.inl (by rw [queued]; rfl))) about
  | check select =>
    exact dropped.commitIfReady (fun undecided => undivided select undecided (Or.inr (by rw [queued]; rfl))) about

/-- A step that lets undivided selects decide keeps the invariant. -/
private theorem SelectsSound.step {event : SelectState.Event T} {next : SelectState T} (sound : SelectsSound state)
    (undivided : DecidesUndivided state event) (stepped : state.step? event = some next) : SelectsSound next := by
  cases event with
  | push queue value =>
    rw [SelectState.step?, Option.ite_none_right_eq_some] at stepped
    cases stepped.2
    exact sound.of_calms (sound.core_push value) (calms_push value)
  | close queue =>
    rw [SelectState.step?, Option.ite_none_right_eq_some] at stepped
    cases stepped.2
    exact sound.of_calms sound.core.close calms_close
  | consume queue id =>
    rw [SelectState.step?, Option.ite_none_right_eq_some] at stepped
    cases stepped.2
    exact sound.of_calms (sound.core.nextConsumer id) (calms_nextConsumer id)
  | select biased sources =>
    rw [SelectState.step?, Option.ite_none_left_eq_some] at stepped
    cases stepped.2
    exact sound.start biased sources
  | settle select index fulfilled =>
    rw [SelectState.step?] at stepped
    split at stepped
    · next hops own =>
      cases stepped
      refine sound.of_calms (sound.core.settleExternal own ?_) (calms_settle _)
      rintro ⟨item, same⟩
      cases fulfilled <;> cases same
    · cases stepped
  | microtask =>
    rw [SelectState.step?] at stepped
    split at stepped
    · cases stepped
    · next microtask microtasks queued =>
      cases stepped
      exact sound.runMicrotask undivided queued

end Deciding

/-- A state whose selects have at most one settled branch each. -/
private theorem undivided_of_single {state : SelectState T} {event : SelectState.Event T}
    (single : ∀ found ∈ state.selects, ∀ index < found.branches.length, ∀ other < found.branches.length,
      (found.branches[index]?.any (·.settled.isSome)) → (found.branches[other]?.any (·.settled.isSome)) → other = index) :
    DecidesUndivided state event := by
  cases event with
  | microtask =>
    rintro select _ _ index other branch item present took ⟨rival, presentRival, settled⟩
    obtain ⟨found, known, isBranch⟩ := (branch?_eq_some).mp present
    obtain ⟨found', known', isRival⟩ := (branch?_eq_some).mp presentRival
    rw [known] at known'
    cases known'
    refine single found (List.mem_of_getElem? known) index (List.getElem?_eq_some_iff.mp isBranch).1 other
      (List.getElem?_eq_some_iff.mp isRival).1 ?_ ?_
    · simp [isBranch, took]
    · simpa [isRival] using settled
  | _ => trivial

/-- A select over two queues, a push to the first one, and the microtasks that decide. -/
private def singlePush : List (SelectState.Event ℕ) :=
  [.select false [.queue 0 0, .queue 1 0], .push 0 5, .microtask, .microtask, .microtask]

end PieAgent.Soundness
