import PieAgent.Forest.Core.Chain
import PieAgent.Model.Compaction.CodingAgent
import PieAgent.Proofs.Session.AppendSteps

/-! # The entries that a branch summary covers

In a session tree the root paths of two entries fork. The entries collected for a branch summary are what the
old path holds behind the fork, and the reported ancestor is the last entry before it.
-/

namespace PieAgent.Soundness.AbandonedEntries

open JavaScript Model Forest

variable {storage : JsonlSessionStorage} {rounds : ℕ} {oldLeafId start : Option JsString} {targetId : JsString}
  {path target shared below collected : List StoredEntry}

/-- The entries are those of the old path below its deepest entry that is on the target path as well. -/
structure LiesBelow (oldPath targetPath : List StoredEntry) (result : CollectEntriesResult) : Prop where
  intro ::
  split : ∃ shared, oldPath = shared ++ result.entries ∧ shared <+: targetPath ∧
    result.commonAncestorId = shared.getLast?.map StoredEntry.id
  apart : ∀ entry ∈ result.entries, entry ∉ targetPath

private theorem id_ne_nil (entry : StoredEntry) : entry.id ≠ [] := by
  have accepted := entry.accepted
  unfold entryProblem at accepted
  split_ifs at accepted with _ _ noId
  · rw [StoredEntry.id]
    cases found : nonemptyField? entry.value "id" with
    | none => simp [found] at noId
    | some id => simpa using (Option.filter_eq_some_iff.mp found).2

private theorem collectUpTo_next {stop : Option JsString} {entry : StoredEntry} (other : some entry.id ≠ stop)
    (found : storage.getEntry entry.id = some entry) :
    storage.collectUpTo stop (rounds + 1) collected (some entry.id) =
      storage.collectUpTo stop rounds (collected ++ [entry]) entry.parentId := by
  obtain ⟨unit, rest, same⟩ := List.exists_cons_of_ne_nil (id_ne_nil entry)
  rw [same] at other found ⊢
  rw [JsonlSessionStorage.collectUpTo, if_neg other, found]

private theorem collectUpTo_stop (stop : Option JsString) :
    storage.collectUpTo stop (rounds + 1) collected stop = .ok collected := by
  match stop with
  | none | some [] => rfl
  | some (unit :: rest) => rw [JsonlSessionStorage.collectUpTo, if_pos rfl]

/-- The loop goes up a chain to the last shared entry. -/
private theorem collectUpTo_chain (chain : storage.Chain start (shared ++ below)) (enough : below.length < rounds)
    (apart : ∀ entry ∈ below, some entry.id ≠ shared.getLast?.map StoredEntry.id) :
    storage.collectUpTo (shared.getLast?.map StoredEntry.id) rounds collected start =
      .ok (collected ++ below.reverse) := by
  induction below using List.reverseRecOn generalizing start rounds collected with
  | nil =>
    obtain ⟨rounds, rfl⟩ := Nat.exists_eq_succ_of_ne_zero (Nat.ne_of_gt enough)
    rw [List.append_nil] at chain
    rw [chain.start_eq, collectUpTo_stop, List.reverse_nil, List.append_nil]
  | append_singleton below last ih =>
    obtain ⟨rounds, rfl⟩ := Nat.exists_eq_succ_of_ne_zero (Nat.ne_of_gt (Nat.zero_lt_of_lt enough))
    rw [← List.append_assoc] at chain
    obtain ⟨rfl, found, rest⟩ := chain.of_concat
    rw [collectUpTo_next (apart last (by simp)) found, ih rest (by simpa using enough) fun entry member =>
      apart entry (List.mem_append_left _ member)]
    simp

/-- The last entry of a path that is on the other one is the last shared entry. -/
private theorem findCommonAncestor_fork {otherBelow : List StoredEntry}
    (fork : Fork StoredEntry.id path target shared below otherBelow) :
    JsonlSessionStorage.findCommonAncestor path target = shared.getLast?.map StoredEntry.id := by
  rw [JsonlSessionStorage.findCommonAncestor, fork.otherSplit, List.reverse_append, List.find?_append]
  have behind : otherBelow.reverse.find? (fun entry => entry.id ∈ path.map StoredEntry.id) = none :=
    List.find?_eq_none.mpr fun entry member => by simpa using fork.otherApart entry (List.mem_reverse.mp member)
  rw [behind, Option.none_or]
  cases shared using List.reverseRecOn with
  | nil => rfl
  | append_singleton shared last =>
    rw [List.reverse_append, List.reverse_singleton, List.singleton_append, List.find?_cons_of_pos, List.getLast?_concat]
    simp [fork.split]

/-- For every session tree, old leaf and target the collected entries lie below the deepest common entry. -/
theorem collects_abandoned (tree : storage.SessionTree) (oldKnown : ∀ id ∈ oldLeafId, id ∈ storage.entries.map (·.id))
    (targetKnown : targetId ∈ storage.entries.map (·.id)) (enough : storage.entries.length < rounds) :
    ∃ oldPath targetPath result, storage.Chain oldLeafId oldPath ∧ storage.Chain (some targetId) targetPath ∧
      storage.collectEntriesForBranchSummary rounds oldLeafId targetId = .ok result ∧
        LiesBelow oldPath targetPath result := by
  obtain ⟨path, chain, distinct⟩ := tree.grown.exists_chain oldLeafId oldKnown
  obtain ⟨target, targetChain, _⟩ := tree.grown.exists_chain (some targetId) (by simpa using targetKnown)
  refine ⟨path, target, ?_⟩
  cases oldLeafId with
  | none =>
    cases chain
    exact ⟨_, .root, targetChain, rfl, ⟨[], rfl, List.nil_prefix, rfl⟩, fun _ member => absurd member List.not_mem_nil⟩
  | some oldLeafId =>
    obtain ⟨shared, below, otherBelow, fork⟩ := tree.grown.fork chain targetChain
    have apart : ∀ entry ∈ below, some entry.id ≠ shared.getLast?.map StoredEntry.id := by
      intro entry member same
      obtain ⟨last, isLast, equal⟩ := Option.map_eq_some_iff.mp same.symm
      apply fork.apart entry member
      rw [← equal, fork.otherSplit]
      exact List.mem_map_of_mem (List.mem_append_left _ (List.mem_of_getLast? isLast))
    have short : below.length < rounds := by
      have whole : path.length ≤ storage.entries.length :=
        List.Nodup.length_le_of_subset (List.Nodup.of_map _ distinct) chain.subset
      rw [fork.split, List.length_append] at whole
      omega
    have loop : storage.collectUpTo (shared.getLast?.map StoredEntry.id) rounds [] (some oldLeafId) =
        .ok ([] ++ below.reverse) :=
      collectUpTo_chain (fork.split ▸ chain) short apart
    have nonempty : oldLeafId ≠ [] := by
      have last := chain.start_eq
      obtain ⟨entry, _, same⟩ := Option.map_eq_some_iff.mp last.symm
      exact same ▸ id_ne_nil entry
    refine ⟨⟨below, shared.getLast?.map StoredEntry.id⟩, chain, targetChain, ?_, ⟨shared, fork.split, ?_, rfl⟩, ?_⟩
    · obtain ⟨unit, rest, rfl⟩ := List.exists_cons_of_ne_nil nonempty
      simp only [JsonlSessionStorage.collectEntriesForBranchSummary, JsonlSessionStorage.getBranch,
        JsonlSessionStorage.getPathToRoot_chain tree chain, JsonlSessionStorage.getPathToRoot_chain tree targetChain,
        findCommonAncestor_fork fork, loop, Except.bind, bind, List.nil_append, List.reverse_reverse]
    · exact fork.otherSplit ▸ List.prefix_append shared otherBelow
    · exact fun entry member again => fork.apart entry member (List.mem_map_of_mem again)

section Sample

private def sampleValue (id : String) (parentId : Json) : Json :=
  .obj [(js "type", .str (js "custom")), (js "id", .str (js id)), (js "parentId", parentId),
    (js "timestamp", .str (js "t"))]

private def top : StoredEntry := ⟨sampleValue "a" .null, by decide⟩

private def left : StoredEntry := ⟨sampleValue "b" (.str (js "a")), by decide⟩

private def right : StoredEntry := ⟨sampleValue "c" (.str (js "a")), by decide⟩

/-- Two entries below one root. -/
private def forked : JsonlSessionStorage := ⟨[top, left, right], [], some right.id⟩

private theorem forked_tree : forked.SessionTree where
  grown := by
    have first : Grown StoredEntry.id StoredEntry.parentId ([] ++ [top]) := .snoc .nil (by decide) (by decide)
    have second : Grown StoredEntry.id StoredEntry.parentId ([top] ++ [left]) :=
      .snoc first (by decide) (by decide)
    exact .snoc second (by decide) (by decide)
  leafKnown leafId same := by
    cases same
    decide

/-- On the way from one entry to its sibling the entry alone is abandoned. -/
theorem collects_abandoned_sibling : ∃ oldPath targetPath result, forked.Chain (some (js "b")) oldPath ∧
    forked.Chain (some (js "c")) targetPath ∧
    forked.collectEntriesForBranchSummary 4 (some (js "b")) (js "c") = .ok result ∧
      LiesBelow oldPath targetPath result ∧ result = ⟨[left], some (js "a")⟩ := by
  obtain ⟨oldPath, targetPath, result, old, target, collects, below⟩ :=
    @collects_abandoned forked 4 (some (js "b")) (js "c") forked_tree
      (fun id same => by cases same; decide) (by decide) (by decide)
  have found : forked.collectEntriesForBranchSummary 4 (some (js "b")) (js "c") = .ok ⟨[left], some (js "a")⟩ := by
    decide
  exact ⟨oldPath, targetPath, result, old, target, collects, below, Except.ok.inj (collects.symm.trans found)⟩

end Sample

end PieAgent.Soundness.AbandonedEntries
