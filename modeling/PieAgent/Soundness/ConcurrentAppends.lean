import PieAgent.Proofs.Session.AppendSteps

/-! # When concurrent appends lose no entry

Calls that overlap may read the same leaf. Then their entries become siblings, and only one of them can
lie on the path of any later leaf. In every run, all appended entries lie on the path of the current leaf
exactly when every commit still found the leaf that its call had read.
-/

namespace PieAgent.Soundness

open JavaScript Model

section Property

variable (state : SessionState)

/-- Every appended entry lies on the path from the current leaf to the root exactly once. -/
def EveryEntryOnPath : Prop :=
  ∃ leafId path, state.storage.getLeafId = .ok leafId ∧ state.storage.getPathToRoot leafId = .ok path ∧
    ∀ id, state.Appended id → path.countP (·.id = id) = 1

/-- An entry that is committed still finds the leaf its call has read. -/
def LeafUnchanged : SessionEvent → Prop
  | .settleWrite call (.ok ()) =>
    ∀ entry, state.phase? call = some (.writing entry) → entry.parentId = state.storage.currentLeafId
  | _ => True

end Property

/-- The appended entries lie on the chain of the current leaf. -/
private def OnLeafChain (state : SessionState) : Prop :=
  ∀ path, state.storage.Chain state.storage.currentLeafId path → ∀ id, state.Appended id → id ∈ path.map (·.id)

/-- Another entry became the leaf after the call of `entry` had read its parent. -/
private def Overtaken (state : SessionState) (entry : StoredEntry) : Prop :=
  ∃ leafId, state.storage.currentLeafId = some leafId ∧ state.Appended leafId ∧
    ∀ path, state.storage.Chain entry.parentId path → leafId ∉ path.map (·.id)

/-- Every entry that is being written has the current leaf as its parent or was overtaken. -/
private structure Tracked (state : SessionState) : Prop where
  consistent : state.Consistent
  parents : ∀ call entry, state.phase? call = some (.writing entry) →
    entry.parentId = state.storage.currentLeafId ∨ Overtaken state entry

/-- Two appended entries lie on no common chain. -/
private def Split (state : SessionState) : Prop :=
  ∃ first second, state.Appended first ∧ state.Appended second ∧
    ∀ start path, state.storage.Chain start path → first ∈ path.map (·.id) → second ∉ path.map (·.id)

variable {state next : SessionState} {event : SessionEvent} {call : ℕ} {entry : StoredEntry} {path : List StoredEntry}

/-- A chain after a commit is an old one, or the committed entry below the chain of its parent. -/
private theorem chain_after_commit (consistent : state.Consistent) (commits : state.Commits call entry next)
    {start : Option JsString} (chain : next.storage.Chain start path) :
    state.storage.Chain start path ∨
      ∃ front, path = front ++ [entry] ∧ start = some entry.id ∧ state.storage.Chain entry.parentId front := by
  unfold JsonlSessionStorage.Chain at chain
  rw [commits.entries] at chain
  exact chain.of_snoc consistent.tree.grown (consistent.fresh call _ entry.id commits.writing rfl).1
    (consistent.writing call entry commits.writing).parentKnown

private theorem appended_known (consistent : state.Consistent) {id : JsString} (appended : state.Appended id) :
    id ∈ state.storage.entries.map (·.id) :=
  appended.elim fun call resolved => consistent.resolved call id resolved

private theorem chain_known {start : Option JsString} (chain : state.storage.Chain start path) {id : JsString}
    (member : id ∈ path.map (·.id)) : id ∈ state.storage.entries.map (·.id) :=
  List.map_subset _ chain.subset member

private theorem Tracked.step (tracked : Tracked state) (stepped : state.step event = some next) : Tracked next := by
  have effect := SessionState.effect_of_step stepped
  refine ⟨tracked.consistent.step effect, fun other writing present => ?_⟩
  rcases SessionState.quiet_or_commits tracked.consistent effect with quiet | ⟨call, entry, rfl, commits⟩
  · rw [quiet.storage]
    rcases quiet.writing other writing present with old | read
    · refine (tracked.parents other writing old).imp id fun ⟨leafId, current, appended, apart⟩ => ?_
      exact ⟨leafId, quiet.storage ▸ current, (quiet.appended leafId).mpr appended, quiet.storage ▸ apart⟩
    · exact Or.inl read
  · obtain ⟨different, old⟩ := commits.others other writing present
    refine Or.inr ⟨entry.id, commits.leaf, (commits.appended entry.id).mpr (Or.inr rfl), fun path chain member => ?_⟩
    obtain ⟨fresh, alone⟩ := tracked.consistent.fresh call _ entry.id commits.writing rfl
    rcases chain_after_commit tracked.consistent commits chain with old' | ⟨front, _, start, _⟩
    · exact fresh (chain_known old' member)
    · exact fresh ((tracked.consistent.writing other writing old).parentKnown entry.id start)

private theorem OnLeafChain.step (tracked : Tracked state) (onChain : OnLeafChain state)
    (unchanged : LeafUnchanged state event) (stepped : state.step event = some next) : OnLeafChain next := by
  have effect := SessionState.effect_of_step stepped
  rcases SessionState.quiet_or_commits tracked.consistent effect with quiet | ⟨call, entry, rfl, commits⟩
  · intro path chain id appended
    rw [quiet.storage] at chain
    exact onChain path chain id ((quiet.appended id).mp appended)
  · intro path chain id appended
    rw [commits.leaf] at chain
    rcases chain_after_commit tracked.consistent commits chain with old | ⟨front, rfl, _, above⟩
    · exact absurd (chain_known old old.key_mem) (tracked.consistent.fresh call _ entry.id commits.writing rfl).1
    · rw [List.map_append, List.mem_append]
      rcases (commits.appended id).mp appended with earlier | rfl
      · rw [unchanged entry commits.writing] at above
        exact Or.inl (onChain front above id earlier)
      · exact Or.inr (List.mem_singleton.mpr rfl)

/-- A commit below an old leaf puts its entry and the current leaf on different branches. -/
private theorem split_of_changed (tracked : Tracked state) (stepped : state.step event = some next)
    (changed : ¬ LeafUnchanged state event) : Split next := by
  have effect := SessionState.effect_of_step stepped
  rcases SessionState.quiet_or_commits tracked.consistent effect with quiet | ⟨call, entry, rfl, commits⟩
  · refine absurd ?_ changed
    unfold LeafUnchanged
    split
    · exact absurd rfl (quiet.event _)
    · trivial
  · have moved : entry.parentId ≠ state.storage.currentLeafId := fun same => changed fun other writing => by
      cases commits.writing.symm.trans writing
      exact same
    obtain ⟨leafId, current, appended, apart⟩ := (tracked.parents call entry commits.writing).resolve_left moved
    refine ⟨entry.id, leafId, (commits.appended _).mpr (Or.inr rfl), (commits.appended _).mpr (Or.inl appended),
      fun start path chain first second => ?_⟩
    have fresh := (tracked.consistent.fresh call _ entry.id commits.writing rfl).1
    rcases chain_after_commit tracked.consistent commits chain with old | ⟨front, rfl, _, above⟩
    · exact fresh (chain_known old first)
    · rw [List.map_append, List.mem_append] at second
      rcases second with inFront | last
      · exact apart front above inFront
      · obtain rfl := List.mem_singleton.mp last
        exact fresh (appended_known tracked.consistent appended)

private theorem Split.step (tracked : Tracked state) (split : Split state) (stepped : state.step event = some next) :
    Split next := by
  obtain ⟨first, second, appendedFirst, appendedSecond, apart⟩ := split
  have effect := SessionState.effect_of_step stepped
  rcases SessionState.quiet_or_commits tracked.consistent effect with quiet | ⟨call, entry, rfl, commits⟩
  · exact ⟨first, second, (quiet.appended _).mpr appendedFirst, (quiet.appended _).mpr appendedSecond,
      quiet.storage ▸ apart⟩
  · refine ⟨first, second, (commits.appended _).mpr (Or.inl appendedFirst),
      (commits.appended _).mpr (Or.inl appendedSecond), fun start path chain onFirst onSecond => ?_⟩
    have fresh := (tracked.consistent.fresh call _ entry.id commits.writing rfl).1
    have older : ∀ id front, state.Appended id → id ∈ (front ++ [entry]).map (·.id) → id ∈ front.map (·.id) := by
      intro id front appended member
      rw [List.map_append, List.mem_append] at member
      refine member.resolve_right fun last => fresh ?_
      obtain rfl := List.mem_singleton.mp last
      exact appended_known tracked.consistent appended
    rcases chain_after_commit tracked.consistent commits chain with old | ⟨front, rfl, _, above⟩
    · exact apart start path old onFirst onSecond
    · exact apart entry.parentId front above (older first front appendedFirst onFirst)
        (older second front appendedSecond onSecond)

private theorem everyEntryOnPath_of_onLeafChain (consistent : state.Consistent) (onChain : OnLeafChain state) :
    EveryEntryOnPath state := by
  obtain ⟨path, readable, chain⟩ := JsonlSessionStorage.exists_leaf_chain consistent.tree
  refine ⟨_, path, readable, JsonlSessionStorage.getPathToRoot_chain consistent.tree chain, fun id appended => ?_⟩
  have once := List.count_eq_one_of_mem (consistent.tree.grown.nodup_chain chain) (onChain path chain id appended)
  rw [← once, List.count, List.countP_map]
  exact List.countP_congr fun entry _ => by simp

private theorem not_split_of_everyEntryOnPath (consistent : state.Consistent) (onPath : EveryEntryOnPath state) :
    ¬ Split state := by
  rintro ⟨first, second, appendedFirst, appendedSecond, apart⟩
  obtain ⟨leafId, path, readable, walked, once⟩ := onPath
  obtain ⟨other, readableToo, chain⟩ := JsonlSessionStorage.exists_leaf_chain consistent.tree
  obtain rfl := Except.ok.inj (readable.symm.trans readableToo)
  obtain rfl : other = path :=
    Except.ok.inj ((JsonlSessionStorage.getPathToRoot_chain consistent.tree chain).symm.trans walked)
  have member : ∀ id, state.Appended id → id ∈ other.map (·.id) := by
    intro id appended
    have positive : 0 < other.countP (·.id = id) := by rw [once id appended]; exact Nat.one_pos
    obtain ⟨entry, present, same⟩ := List.countP_pos_iff.mp positive
    exact List.mem_map.mpr ⟨entry, present, by simpa using same⟩
  exact apart _ _ chain (member first appendedFirst) (member second appendedSecond)

/-- In every run of concurrent appends, all appended entries lie on the path of the current leaf, each
once, exactly when every committed entry still found the leaf that its call had read. -/
theorem appends_onPath_iff {storage : JsonlSessionStorage} (tree : storage.SessionTree) {events : List SessionEvent}
    {final : SessionState} (run : SessionState.run? ⟨storage, []⟩ events = some final) :
    EveryEntryOnPath final ↔ Machine.Meets SessionState.step LeafUnchanged ⟨storage, []⟩ events := by
  have start : Tracked ⟨storage, []⟩ := ⟨SessionState.consistent_initial tree, nofun⟩
  have tracked : Tracked final := Machine.run?_preserves Tracked (fun _ _ _ now stepped => now.step stepped) start run
  constructor
  · intro onPath
    exact Machine.meets_of_undamaged (fun _ _ _ now stepped => now.step stepped)
      (fun _ _ _ now stepped changed => split_of_changed now stepped changed)
      (fun _ _ _ now split stepped => split.step now stepped) start run
      (not_split_of_everyEntryOnPath tracked.consistent onPath)
  · intro unchanged
    have both : Tracked final ∧ OnLeafChain final :=
      Machine.run?_invariant (fun state => Tracked state ∧ OnLeafChain state)
        (fun _ _ _ now kept stepped => ⟨now.1.step stepped, now.2.step now.1 kept stepped⟩)
        ⟨start, fun _ _ _ appended => nomatch appended.choose_spec⟩ unchanged run
    exact everyEntryOnPath_of_onLeafChain both.1.consistent both.2

private def noonStamp : NonemptyText := ⟨js "2026-01-01T12:00:00.000Z", by decide⟩

private def firstId : NonemptyText := ⟨js "first", by decide⟩

private def secondId : NonemptyText := ⟨js "second", by decide⟩

/-- Two appended names, the second one issued after the first one has resolved. -/
private def orderedAppends : List SessionEvent :=
  [.issue (.sessionInfo (js "a")), .createEntryId 0 firstId, .readLeaf 0 noonStamp, .settleWrite 0 (.ok ()),
    .issue (.sessionInfo (js "b")), .createEntryId 1 secondId, .readLeaf 1 noonStamp, .settleWrite 1 (.ok ())]

/-- Both calls read the leaf before either of them commits. -/
private def overlappingAppends : List SessionEvent :=
  [.issue (.sessionInfo (js "a")), .issue (.sessionInfo (js "b")), .createEntryId 0 firstId, .createEntryId 1 secondId,
    .readLeaf 0 noonStamp, .readLeaf 1 noonStamp, .settleWrite 0 (.ok ()), .settleWrite 1 (.ok ())]

/-- The law applied to two appends in a row. -/
theorem appends_onPath_orderedAppends :
    ∃ final, SessionState.run? ⟨.empty, []⟩ orderedAppends = some final ∧
      (EveryEntryOnPath final ↔ Machine.Meets SessionState.step LeafUnchanged ⟨.empty, []⟩ orderedAppends) :=
  ⟨_, rfl, appends_onPath_iff JsonlSessionStorage.sessionTree_empty rfl⟩

/-- The call has resolved. -/
def isResolved (call : AppendCall) : Bool :=
  match call.phase with
  | .resolved _ => true
  | _ => false

/-- Two overlapping calls both resolve, and one of their entries is not on the path of the leaf. -/
theorem overlappingAppends_lose_entry :
    ¬ ∀ events final, SessionState.run? ⟨.empty, []⟩ events = some final → final.calls.all isResolved →
      EveryEntryOnPath final := by
  intro always
  obtain ⟨leafId, path, readable, walked, once⟩ := always overlappingAppends _ rfl rfl
  cases readable
  cases walked
  cases once firstId ⟨0, rfl⟩

end PieAgent.Soundness
