import PieAgent.Model.Session.ConcurrentAppends
import PieAgent.Model.Session.JsonlStorage

/-! # What one step of concurrent appends does

A step starts a call, moves one call to its next phase, or commits the entry of one call. The ids of calls
that are not settled are fresh and distinct, and the storage stays a session tree.
-/

/-! ## The path to the root is a chain of the entry forest

The loop of `getPathToRoot` never runs out of rounds, since every round but the last adds an entry id to
the ids it has seen. In a session whose entries grew as a forest it returns the chain of its argument.
-/

namespace PieAgent.Model

open JavaScript

namespace JsonlSessionStorage

/-- The chain of an id among the entries of the storage. -/
abbrev Chain (storage : JsonlSessionStorage) : Option JsString → List StoredEntry → Prop :=
  Forest.Chain StoredEntry.id StoredEntry.parentId storage.entries

/-- The entries of the storage grew as a forest and the current leaf is one of them. -/
structure SessionTree (storage : JsonlSessionStorage) : Prop where
  grown : Forest.Grown StoredEntry.id StoredEntry.parentId storage.entries
  leafKnown : ∀ leafId, storage.currentLeafId = some leafId → leafId ∈ storage.entries.map (·.id)

theorem sessionTree_empty : SessionTree empty := ⟨.nil, nofun⟩

variable {storage : JsonlSessionStorage} {rounds : ℕ} {seen : List JsString} {start : Option JsString}
  {path collected : List StoredEntry}

private theorem walkToRoot_chain (chain : storage.Chain start path) (distinct : (path.map (·.id)).Nodup)
    (unseen : ∀ entry ∈ path, entry.id ∉ seen) (enough : path.length ≤ rounds) :
    storage.walkToRoot rounds seen collected start = .ok (path ++ collected) := by
  induction chain generalizing rounds seen collected with
  | root => cases rounds <;> rfl
  | @child wanted entry front found _ ih =>
    obtain ⟨rounds, rfl⟩ : ∃ fewer, rounds = fewer + 1 := ⟨rounds - 1, by simp at enough; omega⟩
    rw [List.map_append, List.map_singleton, List.nodup_append] at distinct
    obtain ⟨distinct, _, apart⟩ := distinct
    obtain rfl := Forest.find?_key found
    have new : entry.id ∉ seen := unseen entry (by simp)
    rw [walkToRoot, if_neg new, byId, found]
    refine (ih distinct (fun other onPath again => ?_) (by simpa using enough)).trans (by simp)
    rcases List.mem_cons.mp again with same | old
    · exact apart _ (List.mem_map_of_mem onPath) _ (List.mem_singleton.mpr rfl) same
    · exact unseen other (List.mem_append_left _ onPath) old

/-- In a session tree `getPathToRoot` returns the chain of its argument. -/
theorem getPathToRoot_chain (tree : storage.SessionTree) (chain : storage.Chain start path) :
    storage.getPathToRoot start = .ok path := by
  have distinct := tree.grown.nodup_chain chain
  have short : path.length ≤ storage.entries.length :=
    List.Nodup.length_le_of_subset (List.Nodup.of_map _ distinct) chain.subset
  rw [getPathToRoot, walkToRoot_chain chain distinct (by simp) (Nat.le_succ_of_le short), List.append_nil]

/-- The current leaf of a session tree is readable and has a chain. -/
theorem exists_leaf_chain (tree : storage.SessionTree) :
    ∃ path, storage.getLeafId = .ok storage.currentLeafId ∧ storage.Chain storage.currentLeafId path := by
  obtain ⟨path, chain, _⟩ := tree.grown.exists_chain _ tree.leafKnown
  refine ⟨path, ?_, chain⟩
  unfold getLeafId
  cases current : storage.currentLeafId with
  | none => rfl
  | some leafId =>
    rw [current] at chain
    cases chain with
    | child found _ => simp [byId, found]

end JsonlSessionStorage

end PieAgent.Model

namespace PieAgent.Model

open JavaScript

variable {state next : SessionState} {event : SessionEvent} {call other : ℕ} {phase : AppendPhase}
  {entry : StoredEntry} {id : JsString}

@[simp] theorem SessionState.phase?_advance : (state.advance call phase).phase? other =
    if call = other then (state.phase? call).map fun _ => phase else state.phase? other := by
  unfold SessionState.phase? SessionState.advance
  rw [List.getElem?_modify]
  split
  · next same =>
    subst same
    cases state.calls[call]? <;> rfl
  · cases state.calls[other]? <;> rfl

namespace SessionState

/-- What one step does to the calls and to the storage. -/
inductive Effect (state : SessionState) : SessionEvent → SessionState → Prop
  | issue (request : AppendRequest) :
    Effect state (.issue request) { state with calls := state.calls ++ [⟨request, state.issuedPhase request⟩] }
  | identify {call : ℕ} {id : NonemptyText} : state.phase? call = some .issued → id.val ∉ state.usedIds →
    Effect state (.createEntryId call id) (state.advance call (.identified id))
  | link {call : ℕ} {request : AppendRequest} {id timestamp : NonemptyText} {leafId : Option JsString} :
    state.phase? call = some (.identified id) → state.storage.getLeafId = .ok leafId →
    Effect state (.readLeaf call timestamp) (state.advance call (.writing (request.entry id leafId timestamp)))
  | reject {call : ℕ} {phase : AppendPhase} {message : JsString} {event : SessionEvent} :
    state.phase? call = some phase → phase.pendingId?.isSome → (∀ written, event ≠ .settleWrite written (.ok ())) →
    Effect state event (state.advance call (.rejected message))
  | commit {call : ℕ} {entry : StoredEntry} : state.phase? call = some (.writing entry) →
    Effect state (.settleWrite call (.ok ())) (state.commit call entry)

theorem effect_of_step (stepped : state.step event = some next) : Effect state event next := by
  cases event with
  | issue request =>
    cases stepped
    exact .issue request
  | createEntryId call id =>
    obtain ⟨⟨issued, fresh⟩, moved⟩ := Option.ite_none_right_eq_some.mp stepped
    cases moved
    exact .identify issued fresh
  | readLeaf call timestamp =>
    dsimp only [SessionState.step] at stepped
    split at stepped
    · next request id found =>
      have identified : state.phase? call = some (.identified id) := by rw [SessionState.phase?, found]; rfl
      cases read : state.storage.getLeafId with
      | ok leafId =>
        rw [read] at stepped
        cases stepped
        exact .link identified read
      | error error =>
        rw [read] at stepped
        cases stepped
        exact .reject identified rfl nofun
    · cases stepped
  | settleWrite call outcome =>
    dsimp only [SessionState.step] at stepped
    split at stepped
    · next entry writing =>
      cases outcome with
      | ok done =>
        cases stepped
        exact .commit writing
      | error error =>
        cases stepped
        exact .reject writing rfl nofun
    · cases stepped

/-- The writing entry of a call: its id moves the leaf and its label suits the cache. -/
structure Committable (storage : JsonlSessionStorage) (entry : StoredEntry) : Prop where
  parentKnown : ∀ above, entry.parentId = some above → above ∈ storage.entries.map (·.id)
  movesLeaf : leafIdAfterEntry entry = some entry.id
  labels : ∀ labelsById, ∃ updated, updateLabelCache labelsById entry = .ok updated

/-- A commit adds the entry, makes it the leaf and resolves the call. -/
theorem commit_spec (call : ℕ) (committable : Committable state.storage entry) :
    ∃ labelsById, state.commit call entry =
      { state with storage := ⟨state.storage.entries ++ [entry], labelsById, some entry.id⟩ }.advance call
        (.resolved entry.id) := by
  obtain ⟨labelsById, updated⟩ := committable.labels state.storage.labelsById
  refine ⟨labelsById, ?_⟩
  simp only [SessionState.commit, JsonlSessionStorage.push, updated, committable.movesLeaf]

/-- What holds in every state of a run. -/
structure Consistent (state : SessionState) : Prop where
  tree : state.storage.SessionTree
  fresh : ∀ call phase id, state.phase? call = some phase → phase.pendingId? = some id →
    id ∉ state.storage.entries.map (·.id) ∧
      ∀ other phase, state.phase? other = some phase → phase.pendingId? = some id → other = call
  writing : ∀ call entry, state.phase? call = some (.writing entry) → Committable state.storage entry
  resolved : ∀ call id, state.phase? call = some (.resolved id) → id ∈ state.storage.entries.map (·.id)

theorem consistent_initial {storage : JsonlSessionStorage} (tree : storage.SessionTree) : Consistent ⟨storage, []⟩ where
  tree := tree
  fresh := nofun
  writing := nofun
  resolved := nofun

theorem mem_usedIds_of_pending (found : state.phase? call = some phase) (pending : phase.pendingId? = some id) :
    id ∈ state.usedIds := by
  obtain ⟨moved, present, rfl⟩ := Option.map_eq_some_iff.mp found
  exact List.mem_append_right _ (List.mem_filterMap.mpr ⟨moved, List.mem_of_getElem? present, pending⟩)

/-- A call that has just been issued has no id. -/
theorem phase?_issue (request : AppendRequest)
    (found : phase? { state with calls := state.calls ++ [⟨request, state.issuedPhase request⟩] } call = some phase) :
    state.phase? call = some phase ∨ phase.pendingId? = none ∧ ∀ id, phase ≠ .resolved id := by
  unfold phase? at found ⊢
  rw [List.getElem?_append] at found
  split at found
  · exact Or.inl found
  · obtain ⟨moved, present, rfl⟩ := Option.map_eq_some_iff.mp found
    obtain rfl := List.mem_singleton.mp (List.mem_of_getElem? present)
    refine Or.inr ?_
    cases request with
    | label targetId text =>
      dsimp only [issuedPhase]
      split <;> exact ⟨rfl, nofun⟩
    | _ => exact ⟨rfl, nofun⟩

private theorem Consistent.issue (consistent : Consistent state) (request : AppendRequest) :
    Consistent { state with calls := state.calls ++ [⟨request, state.issuedPhase request⟩] } where
  tree := consistent.tree
  fresh call phase id found pending := by
    rcases phase?_issue request found with old | ⟨none, _⟩
    · refine ⟨(consistent.fresh call phase id old pending).1, fun other phase again same => ?_⟩
      rcases phase?_issue request again with old' | ⟨none, _⟩
      · exact (consistent.fresh call _ id old pending).2 other phase old' same
      · cases none.symm.trans same
    · cases none.symm.trans pending
  writing call entry found := by
    rcases phase?_issue request found with old | ⟨none, _⟩
    · exact consistent.writing call entry old
    · cases none
  resolved call id found := by
    rcases phase?_issue request found with old | ⟨_, other⟩
    · exact consistent.resolved call id old
    · exact absurd rfl (other id)

/-- Moving an unsettled call keeps the state consistent when a new id is fresh and a new entry fits. -/
private theorem Consistent.advance {old new : AppendPhase} (consistent : Consistent state)
    (found : state.phase? call = some old)
    (pending : ∀ id, new.pendingId? = some id → id ∉ state.usedIds ∨ old.pendingId? = some id)
    (fits : ∀ entry, new = .writing entry → Committable state.storage entry) (open_ : ∀ id, new ≠ .resolved id) :
    Consistent (state.advance call new) where
  tree := consistent.tree
  fresh one phase id present has := by
    have unused : ∀ id, new.pendingId? = some id → id ∉ state.storage.entries.map (·.id) ∧
        ∀ other phase, state.phase? other = some phase → phase.pendingId? = some id → other = call := by
      intro id has
      rcases pending id has with fresh | kept
      · exact ⟨fun member => fresh (List.mem_append_left _ member), fun other phase present has =>
          absurd (mem_usedIds_of_pending present has) fresh⟩
      · exact consistent.fresh call old id found kept
    rw [phase?_advance, found] at present
    split at present
    · next same =>
      cases present
      refine ⟨(unused id has).1, fun other phase again same' => ?_⟩
      rw [phase?_advance, found] at again
      split at again
      · next same'' => rw [← same, same'']
      · rw [← same]
        exact (unused id has).2 other phase again same'
    · next different =>
      refine ⟨(consistent.fresh one phase id present has).1, fun other phase again same' => ?_⟩
      rw [phase?_advance, found] at again
      split at again
      · cases again
        exact absurd ((unused id same').2 one _ present has).symm different
      · exact (consistent.fresh one _ id present has).2 other phase again same'
  writing one entry present := by
    rw [phase?_advance, found] at present
    split at present
    · exact fits entry (Option.some.inj present)
    · exact consistent.writing one entry present
  resolved one id present := by
    rw [phase?_advance, found] at present
    split at present
    · exact absurd (Option.some.inj present) (open_ id)
    · exact consistent.resolved one id present

private theorem Consistent.commit (consistent : Consistent state) (writing : state.phase? call = some (.writing entry)) :
    Consistent (state.commit call entry) := by
  have committable := consistent.writing call entry writing
  obtain ⟨fresh, alone⟩ := consistent.fresh call _ entry.id writing rfl
  obtain ⟨labelsById, same⟩ := commit_spec call committable
  rw [same]
  have mono : ∀ id, id ∈ state.storage.entries.map (·.id) → id ∈ (state.storage.entries ++ [entry]).map (·.id) :=
    fun id member => by rw [List.map_append]; exact List.mem_append_left _ member
  have self : entry.id ∈ (state.storage.entries ++ [entry]).map (·.id) := by simp
  have inSnoc : ∀ id, id ∈ (state.storage.entries ++ [entry]).map (·.id) →
      id ∈ state.storage.entries.map (·.id) ∨ id = entry.id := fun id member => by simpa [List.map_append] using member
  refine ⟨⟨consistent.tree.grown.snoc fresh committable.parentKnown, fun leafId current => ?_⟩,
    fun one phase id present has => ?_, fun one other present => ?_, fun one id present => ?_⟩
  · cases current
    exact self
  · rw [phase?_advance] at present
    split at present
    · obtain ⟨_, _, rfl⟩ := Option.map_eq_some_iff.mp present
      cases has
    · next different =>
      obtain ⟨outside, only⟩ := consistent.fresh one phase id present has
      refine ⟨fun member => ?_, fun other phase again same' => ?_⟩
      · rcases inSnoc id member with old | rfl
        · exact outside old
        · exact different (alone one phase present has).symm
      · rw [phase?_advance] at again
        split at again
        · obtain ⟨_, _, rfl⟩ := Option.map_eq_some_iff.mp again
          cases same'
        · exact only other phase again same'
  · rw [phase?_advance] at present
    split at present
    · obtain ⟨_, _, wrong⟩ := Option.map_eq_some_iff.mp present
      cases wrong
    · obtain ⟨parentKnown, movesLeaf, labels⟩ := consistent.writing one other present
      exact ⟨fun above has => mono above (parentKnown above has), movesLeaf, labels⟩
  · rw [phase?_advance] at present
    split at present
    · obtain ⟨_, _, resolved⟩ := Option.map_eq_some_iff.mp present
      cases resolved
      exact self
    · exact mono id (consistent.resolved one id present)

/-- Every step keeps the state consistent. -/
theorem Consistent.step (consistent : Consistent state) (effect : Effect state event next) : Consistent next := by
  cases effect with
  | issue request => exact consistent.issue request
  | identify issued fresh =>
    refine consistent.advance issued (fun id has => Or.inl ?_) nofun nofun
    cases has
    exact fresh
  | @link call request id timestamp leafId identified read =>
    refine consistent.advance identified (fun id has => Or.inr ?_) (fun entry same => ?_) nofun
    · simpa [AppendPhase.pendingId?] using has
    · cases same
      refine ⟨fun above has => ?_, by simp, request.updateLabelCache_entry id leafId timestamp⟩
      rw [AppendRequest.parentId_entry] at has
      obtain ⟨path, readable, _⟩ := JsonlSessionStorage.exists_leaf_chain consistent.tree
      exact consistent.tree.leafKnown above ((Except.ok.inj (readable.symm.trans read)).trans has)
  | reject found _ _ => exact consistent.advance found nofun nofun nofun
  | commit writing => exact consistent.commit writing

/-- A call has resolved with the id of its entry. -/
def Appended (state : SessionState) (id : JsString) : Prop := ∃ call, state.phase? call = some (.resolved id)

/-- A step that commits nothing. The leaf of a newly read parent is the current one. -/
structure Quiet (state : SessionState) (event : SessionEvent) (next : SessionState) : Prop where
  event : ∀ call, event ≠ .settleWrite call (.ok ())
  storage : next.storage = state.storage
  appended : ∀ id, next.Appended id ↔ state.Appended id
  writing : ∀ call entry, next.phase? call = some (.writing entry) →
    state.phase? call = some (.writing entry) ∨ entry.parentId = state.storage.currentLeafId

/-- A step that commits the entry of a call. -/
structure Commits (state : SessionState) (call : ℕ) (entry : StoredEntry) (next : SessionState) : Prop where
  writing : state.phase? call = some (.writing entry)
  entries : next.storage.entries = state.storage.entries ++ [entry]
  leaf : next.storage.currentLeafId = some entry.id
  appended : ∀ id, next.Appended id ↔ state.Appended id ∨ id = entry.id
  others : ∀ other writing, next.phase? other = some (.writing writing) →
    other ≠ call ∧ state.phase? other = some (.writing writing)

private theorem appended_advance {old : AppendPhase} (new : AppendPhase) (found : state.phase? call = some old)
    (unsettled : ∀ id, old ≠ .resolved id) :
    (state.advance call new).Appended id ↔ state.Appended id ∨ new = .resolved id := by
  constructor
  · rintro ⟨other, present⟩
    rw [phase?_advance, found] at present
    split at present
    · exact Or.inr (Option.some.inj present)
    · exact Or.inl ⟨other, present⟩
  · rintro (⟨other, present⟩ | rfl)
    · refine ⟨other, ?_⟩
      rw [phase?_advance, if_neg]
      · exact present
      · rintro rfl
        exact unsettled id (Option.some.inj (found.symm.trans present))
    · exact ⟨call, by rw [phase?_advance, if_pos rfl, found]; rfl⟩

private theorem quiet_advance {old new : AppendPhase} (found : state.phase? call = some old)
    (unsettled : ∀ id, old ≠ .resolved id) (open_ : ∀ id, new ≠ .resolved id)
    (reads : ∀ entry, new = .writing entry → entry.parentId = state.storage.currentLeafId)
    (harmless : ∀ call, event ≠ .settleWrite call (.ok ())) : Quiet state event (state.advance call new) where
  event := harmless
  storage := rfl
  appended id := by simp [appended_advance new found unsettled, open_ id]
  writing other entry present := by
    rw [phase?_advance, found] at present
    split at present
    · exact Or.inr (reads entry (Option.some.inj present))
    · exact Or.inl present

private theorem quiet_issue (request : AppendRequest) :
    Quiet state (.issue request) { state with calls := state.calls ++ [⟨request, state.issuedPhase request⟩] } where
  event := nofun
  storage := rfl
  appended id := by
    constructor
    · rintro ⟨call, present⟩
      rcases phase?_issue request present with old | ⟨_, other⟩
      · exact ⟨call, old⟩
      · exact absurd rfl (other id)
    · rintro ⟨call, present⟩
      obtain ⟨moved, found, same⟩ := Option.map_eq_some_iff.mp present
      have inside := (List.getElem?_eq_some_iff.mp found).1
      refine ⟨call, Option.map_eq_some_iff.mpr ⟨moved, ?_, same⟩⟩
      rw [List.getElem?_append_left inside, found]
  writing call entry present := by
    rcases phase?_issue request present with old | ⟨none, _⟩
    · exact Or.inl old
    · cases none

private theorem commits_commit (consistent : Consistent state) (writing : state.phase? call = some (.writing entry)) :
    Commits state call entry (state.commit call entry) := by
  obtain ⟨labelsById, same⟩ := commit_spec call (consistent.writing call entry writing)
  rw [same]
  refine ⟨writing, rfl, rfl, fun id => ?_, fun other entry present => ?_⟩
  · refine (appended_advance (.resolved entry.id) writing nofun).trans (or_congr Iff.rfl ?_)
    rw [AppendPhase.resolved.injEq, eq_comm]
  · rw [phase?_advance] at present
    split at present
    · obtain ⟨_, _, wrong⟩ := Option.map_eq_some_iff.mp present
      cases wrong
    · next different => exact ⟨fun same => different same.symm, present⟩

/-- Every step is quiet or commits one entry. -/
theorem quiet_or_commits (consistent : Consistent state) (effect : Effect state event next) :
    Quiet state event next ∨ ∃ call entry, event = .settleWrite call (.ok ()) ∧ Commits state call entry next := by
  cases effect with
  | issue request => exact Or.inl (quiet_issue request)
  | identify issued _ => exact Or.inl (quiet_advance issued nofun nofun nofun nofun)
  | @link call request id timestamp leafId identified read =>
    refine Or.inl (quiet_advance identified nofun nofun (fun entry same => ?_) nofun)
    cases same
    obtain ⟨path, readable, _⟩ := JsonlSessionStorage.exists_leaf_chain consistent.tree
    rw [AppendRequest.parentId_entry]
    exact (Except.ok.inj (readable.symm.trans read)).symm
  | reject found pending harmless =>
    refine Or.inl (quiet_advance found (fun id same => ?_) nofun nofun harmless)
    subst same
    cases pending
  | @commit call entry writing => exact Or.inr ⟨call, entry, rfl, commits_commit consistent writing⟩

end SessionState

end PieAgent.Model
