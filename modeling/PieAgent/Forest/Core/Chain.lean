import Mathlib.Data.List.Basic
import Mathlib.Data.List.Chain
import Mathlib.Data.List.Induction
import Mathlib.Data.List.Nodup
import Mathlib.Tactic.Common

/-! # Growing forests of parent pointers

A forest is a list of nodes, each with a key and perhaps the key of its parent. It has grown when
every node was added with a fresh key below a key that was already there. The chain of a key lists
its ancestors from the root down to the node itself; in a grown forest every known key has exactly
one chain, and adding a node changes no chain but its own.
-/

namespace Forest

variable {ν ι : Type} [DecidableEq ι] (key : ν → ι) (parent : ν → Option ι)

/-- The latest node with the given key. -/
def find? (nodes : List ν) (wanted : ι) : Option ν := nodes.reverse.find? fun node => key node = wanted

/-- Every node was added with a fresh key, at the root or below an earlier node. -/
inductive Grown : List ν → Prop
  | nil : Grown []
  | snoc {nodes : List ν} {node : ν} : Grown nodes → key node ∉ nodes.map key →
      (∀ above, parent node = some above → above ∈ nodes.map key) → Grown (nodes ++ [node])

/-- The nodes from the root down to the node with the given key. -/
inductive Chain (nodes : List ν) : Option ι → List ν → Prop
  | root : Chain nodes none []
  | child {wanted : ι} {node : ν} {path : List ν} : find? key nodes wanted = some node →
      Chain nodes (parent node) path → Chain nodes (some wanted) (path ++ [node])

variable {key parent} {nodes : List ν} {node : ν} {wanted : ι} {start : Option ι} {path other : List ν}

theorem find?_key (found : find? key nodes wanted = some node) : key node = wanted := by
  simpa using List.find?_some found

theorem find?_mem (found : find? key nodes wanted = some node) : node ∈ nodes :=
  List.mem_reverse.mp (List.mem_of_find?_eq_some found)

theorem find?_snoc_self : find? key (nodes ++ [node]) (key node) = some node := by
  simp [find?]

theorem find?_snoc_of_ne (different : key node ≠ wanted) :
    find? key (nodes ++ [node]) wanted = find? key nodes wanted := by
  simp [find?, different]

/-- A key has at most one chain. -/
theorem Chain.unique (chain : Chain key parent nodes start path) (again : Chain key parent nodes start other) :
    path = other := by
  induction chain generalizing other with
  | root =>
    cases again
    rfl
  | child found _ ih =>
    cases again with
    | child foundAgain rest =>
      obtain rfl := Option.some.inj (found.symm.trans foundAgain)
      rw [ih rest]

theorem Chain.subset (chain : Chain key parent nodes start path) : path ⊆ nodes := by
  induction chain with
  | root => exact List.nil_subset _
  | child found _ ih =>
    exact List.append_subset.mpr ⟨ih, List.cons_subset.mpr ⟨find?_mem found, List.nil_subset _⟩⟩

theorem Chain.key_mem (chain : Chain key parent nodes (some wanted) path) : wanted ∈ path.map key := by
  cases chain with
  | child found _ => simp [find?_key found]

/-- Adding a node with a fresh key changes no chain. -/
theorem Chain.snoc (chain : Chain key parent nodes start path) (fresh : key node ∉ nodes.map key) :
    Chain key parent (nodes ++ [node]) start path := by
  induction chain with
  | root => exact .root
  | @child wanted earlier path found _ ih =>
    refine .child ((find?_snoc_of_ne fun same => fresh ?_).trans found) ih
    rw [same, ← find?_key found]
    exact List.mem_map_of_mem (find?_mem found)

/-- The chain of an added node leads over its parent. -/
theorem Chain.snoc_self (chain : Chain key parent nodes (parent node) path) (fresh : key node ∉ nodes.map key) :
    Chain key parent (nodes ++ [node]) (some (key node)) (path ++ [node]) :=
  .child find?_snoc_self (chain.snoc fresh)

/-- In a grown forest every known key has a chain, along which no key repeats. -/
theorem Grown.exists_chain (start : Option ι) (grown : Grown key parent nodes) (known : ∀ wanted, start = some wanted →
    wanted ∈ nodes.map key) : ∃ path, Chain key parent nodes start path ∧ (path.map key).Nodup := by
  induction grown generalizing start with
  | nil =>
    cases start with
    | none => exact ⟨[], .root, List.nodup_nil⟩
    | some wanted => cases known wanted rfl
  | @snoc nodes node grown fresh below ih =>
    cases start with
    | none => exact ⟨[], .root, List.nodup_nil⟩
    | some wanted =>
      by_cases same : key node = wanted
      · obtain ⟨path, chain, distinct⟩ := ih (parent node) below
        subst same
        refine ⟨path ++ [node], chain.snoc_self fresh, ?_⟩
        rw [List.map_append, List.map_singleton, List.nodup_append]
        refine ⟨distinct, List.nodup_singleton _, fun first member second single => ?_⟩
        obtain ⟨inside, onPath, rfl⟩ := List.mem_map.mp member
        obtain rfl := List.mem_singleton.mp single
        exact fun same => fresh (same ▸ List.mem_map_of_mem (chain.subset onPath))
      · obtain ⟨path, chain, distinct⟩ := ih (some wanted) fun other some => by
          have member := known other some
          cases some
          simpa [Ne.symm same] using member
        exact ⟨path, chain.snoc fresh, distinct⟩

/-- A chain in a grown forest repeats no key. -/
theorem Grown.nodup_chain (grown : Grown key parent nodes) (chain : Chain key parent nodes start path) :
    (path.map key).Nodup := by
  obtain ⟨other, again, distinct⟩ := grown.exists_chain start fun wanted same => by
    subst same
    exact List.map_subset key chain.subset chain.key_mem
  rwa [chain.unique again]

/-- A chain after an addition is an old one, unless it ends at the added node. -/
theorem Chain.of_snoc (grown : Grown key parent nodes) (fresh : key node ∉ nodes.map key)
    (below : ∀ above, parent node = some above → above ∈ nodes.map key)
    (chain : Chain key parent (nodes ++ [node]) start path) :
    Chain key parent nodes start path ∨
      ∃ front, path = front ++ [node] ∧ start = some (key node) ∧ Chain key parent nodes (parent node) front := by
  cases chain with
  | root => exact Or.inl .root
  | @child wanted last front found rest =>
    by_cases same : key node = wanted
    · subst same
      obtain rfl := Option.some.inj ((find?_snoc_self).symm.trans found)
      obtain ⟨path, chain, _⟩ := grown.exists_chain _ below
      rw [rest.unique (chain.snoc fresh)]
      exact Or.inr ⟨path, rfl, rfl, chain⟩
    · rw [find?_snoc_of_ne same] at found
      have known : wanted ∈ nodes.map key := by
        rw [← find?_key found]
        exact List.mem_map_of_mem (find?_mem found)
      obtain ⟨path, chain, _⟩ := grown.exists_chain (some wanted) fun other some => by
        cases some
        exact known
      rw [(Chain.child (by rwa [find?_snoc_of_ne same]) rest).unique (chain.snoc fresh)]
      exact Or.inl chain

end Forest

/-! ## Where two chains part

Two chains of one forest share a front, and behind it no key of one is on the other. The last node of the
front is their deepest common node; there is none when the chains start at different roots.
-/

namespace Forest

variable {ν ι : Type} [DecidableEq ι] {key : ν → ι} {parent : ν → Option ι} {nodes : List ν} {node : ν}
  {start otherStart : Option ι} {path other front back : List ν}

omit [DecidableEq ι] in
/-- Two lists with a common front, behind which no key of one is in the other. -/
structure Fork (key : ν → ι) (path other shared below otherBelow : List ν) : Prop where
  split : path = shared ++ below
  otherSplit : other = shared ++ otherBelow
  apart : ∀ node ∈ below, key node ∉ other.map key
  otherApart : ∀ node ∈ otherBelow, key node ∉ path.map key

/-- A chain ends at the node with its key. -/
theorem Chain.start_eq (chain : Chain key parent nodes start path) : start = path.getLast?.map key := by
  cases chain with
  | root => rfl
  | child found _ => rw [List.getLast?_concat, Option.map_some, find?_key found]

/-- The last step of a chain leads from its last node to the parent. -/
theorem Chain.of_concat (chain : Chain key parent nodes start (path ++ [node])) :
    start = some (key node) ∧ find? key nodes (key node) = some node ∧ Chain key parent nodes (parent node) path := by
  generalize whole : path ++ [node] = long at chain
  cases chain with
  | root => simp at whole
  | child found rest =>
    obtain ⟨rfl, last⟩ := List.append_inj' whole rfl
    obtain rfl := List.singleton_inj.mp last
    have same := find?_key found
    subst same
    exact ⟨rfl, found, rest⟩

/-- A chain leads over the chains of its nodes. -/
theorem Chain.to_node (chain : Chain key parent nodes start (front ++ node :: back)) :
    Chain key parent nodes (some (key node)) (front ++ [node]) := by
  induction back using List.reverseRecOn generalizing start with
  | nil =>
    obtain ⟨same, _, _⟩ := chain.of_concat
    rwa [same] at chain
  | append_singleton back last ih =>
    rw [← List.cons_append, ← List.append_assoc] at chain
    exact ih chain.of_concat.2.2

/-- The last node of a list that passes a test. -/
private theorem split_at_last (test : ν → Prop) [DecidablePred test] (list : List ν) :
    (∀ node ∈ list, ¬ test node) ∨
      ∃ front node back, list = front ++ node :: back ∧ test node ∧ ∀ node ∈ back, ¬ test node := by
  induction list using List.reverseRecOn with
  | nil => exact .inl fun _ member => absurd member List.not_mem_nil
  | append_singleton list last ih =>
    by_cases passes : test last
    · exact .inr ⟨list, last, [], rfl, passes, fun _ member => absurd member List.not_mem_nil⟩
    · rcases ih with none | ⟨front, node, back, rfl, passed, behind⟩
      · refine .inl fun node member => ?_
        rcases List.mem_append.mp member with earlier | same
        · exact none node earlier
        · rwa [List.mem_singleton.mp same]
      · refine .inr ⟨front, node, back ++ [last], by simp, passed, fun node member => ?_⟩
        rcases List.mem_append.mp member with earlier | same
        · exact behind node earlier
        · rwa [List.mem_singleton.mp same]

/-- Two chains of a grown forest fork. -/
theorem Grown.fork (grown : Grown key parent nodes) (chain : Chain key parent nodes start path)
    (otherChain : Chain key parent nodes otherStart other) :
    ∃ shared below otherBelow, Fork key path other shared below otherBelow := by
  rcases split_at_last (fun node => key node ∈ path.map key) other with none | ⟨front, node, back, rfl, shared, behind⟩
  · refine ⟨[], path, other, rfl, rfl, fun node member again => ?_, none⟩
    obtain ⟨twin, onOther, same⟩ := List.mem_map.mp again
    exact none twin onOther (same ▸ List.mem_map_of_mem member)
  · obtain ⟨twin, onPath, same⟩ := List.mem_map.mp shared
    obtain ⟨above, below, rfl⟩ := List.append_of_mem onPath
    have joined : above ++ [twin] = front ++ [node] := chain.to_node.unique (same ▸ otherChain.to_node)
    obtain ⟨rfl, last⟩ := List.append_inj' joined rfl
    obtain rfl := List.singleton_inj.mp last
    refine ⟨above ++ [twin], below, back, by simp, by simp, fun inner member again => ?_, behind⟩
    have distinct := grown.nodup_chain chain
    rw [← List.singleton_append, ← List.append_assoc, List.map_append, List.nodup_append] at distinct
    rw [← List.singleton_append, ← List.append_assoc, List.map_append, List.mem_append] at again
    rcases again with onFront | onBack
    · exact distinct.2.2 _ onFront _ (List.mem_map_of_mem member) rfl
    · obtain ⟨deeper, onBack, same⟩ := List.mem_map.mp onBack
      refine behind deeper onBack ?_
      rw [same]
      exact List.mem_map_of_mem (by simp [member])

end Forest

/-! ## Trails in forests with unknown parents

A node may name a parent that the forest does not hold; a walk to the root ends there. When every node was
added with a key that no node had or named before, no later node can become such a parent, so every node has
exactly one trail, along which the nodes stand in the order of their addition.
-/

namespace Forest

variable {ν ι : Type} [DecidableEq ι] (key : ν → ι) (parent : ν → Option ι)

/-- No node has the key, and no node names it as its parent. -/
def Unused (nodes : List ν) (wanted : ι) : Prop := wanted ∉ nodes.map key ∧ some wanted ∉ nodes.map parent

/-- Every node was added with an unused key. -/
inductive Loose : List ν → Prop
  | nil : Loose []
  | snoc {nodes : List ν} {node : ν} : Loose nodes → Unused key parent nodes (key node) →
      parent node ≠ some (key node) → Loose (nodes ++ [node])

/-- The nodes from the first one without a known parent down to a node. -/
inductive Trail (nodes : List ν) : Option ν → List ν → Prop
  | stop : Trail nodes none []
  | step {node : ν} {path : List ν} : Trail nodes ((parent node).bind (find? key nodes)) path →
      Trail nodes (some node) (path ++ [node])

/-- Every node of a list names the one before it. -/
def Linked (path : List ν) : Prop := path.IsChain fun above below => parent below = some (key above)

variable {key parent} {nodes more path other : List ν} {node first : ν} {wanted : ι} {start : Option ν}

theorem find?_of_nodup (distinct : (nodes.map key).Nodup) (member : node ∈ nodes) :
    find? key nodes (key node) = some node := by
  cases found : find? key nodes (key node) with
  | none => simpa using List.find?_eq_none.mp found node (List.mem_reverse.mpr member)
  | some same => rw [List.inj_on_of_nodup_map distinct (find?_mem found) member (find?_key found)]

theorem find?_eq_none : find? key nodes wanted = none ↔ wanted ∉ nodes.map key := by
  simp [find?]

omit [DecidableEq ι] in
theorem Loose.nodup (loose : Loose key parent nodes) : (nodes.map key).Nodup := by
  induction loose with
  | nil => exact List.nodup_nil
  | snoc _ unused _ ih =>
    rw [List.map_append, List.map_singleton, ← List.concat_eq_append]
    exact ih.concat unused.1

omit [DecidableEq ι] in
theorem Unused.sublist (unused : Unused key parent nodes wanted) (fewer : path.Sublist nodes) :
    Unused key parent path wanted :=
  ⟨fun member => unused.1 ((fewer.map key).subset member), fun member => unused.2 ((fewer.map parent).subset member)⟩

omit [DecidableEq ι] in
theorem Loose.sublist (loose : Loose key parent nodes) (fewer : path.Sublist nodes) : Loose key parent path := by
  induction loose generalizing path with
  | nil =>
    rw [List.sublist_nil.mp fewer]
    exact .nil
  | snoc _ unused proper ih =>
    obtain ⟨front, back, rfl, inFront, inBack⟩ := List.sublist_append_iff.mp fewer
    rcases List.sublist_singleton.mp inBack with rfl | rfl
    · rw [List.append_nil]
      exact ih inFront
    · exact .snoc (ih inFront) (unused.sublist inFront) proper

theorem Trail.unique (trail : Trail key parent nodes start path) (again : Trail key parent nodes start other) :
    path = other := by
  induction trail generalizing other with
  | stop =>
    cases again
    rfl
  | step _ ih =>
    cases again with
    | step rest => rw [ih rest]

theorem Trail.getLast? (trail : Trail key parent nodes start path) : path.getLast? = start := by
  cases trail <;> simp

/-- A trail stays in the forest. -/
theorem Trail.subset (trail : Trail key parent nodes start path) (known : ∀ last ∈ start, last ∈ nodes) : path ⊆ nodes := by
  induction trail with
  | stop => exact List.nil_subset _
  | step _ ih =>
    refine List.append_subset.mpr ⟨ih fun above found => ?_, by simpa using known⟩
    obtain ⟨_, _, hit⟩ := Option.bind_eq_some_iff.mp found
    exact find?_mem hit

/-- Adding a node that no node names changes no trail. -/
theorem Trail.snoc (trail : Trail key parent nodes start path) (unused : Unused key parent nodes (key node))
    (known : ∀ last ∈ start, last ∈ nodes) : Trail key parent (nodes ++ [node]) start path := by
  induction trail with
  | stop => exact .stop
  | @step last path _ ih =>
    have same : (parent last).bind (find? key (nodes ++ [node])) = (parent last).bind (find? key nodes) := by
      cases above : parent last with
      | none => rfl
      | some above' =>
        refine find?_snoc_of_ne fun equal => unused.2 ?_
        rw [equal, ← above]
        exact List.mem_map_of_mem (known last rfl)
    refine .step ?_
    rw [same]
    refine ih fun above found => ?_
    obtain ⟨_, _, hit⟩ := Option.bind_eq_some_iff.mp found
    exact find?_mem hit

/-- Every node has a trail, whose nodes were added in its order. -/
theorem Loose.exists_trail (loose : Loose key parent nodes) (member : node ∈ nodes) :
    ∃ path, Trail key parent nodes (some node) path ∧ path.Sublist nodes := by
  induction loose generalizing node with
  | nil => cases member
  | @snoc nodes last _ unused proper ih =>
    rcases List.mem_append.mp member with earlier | isLast
    · obtain ⟨path, trail, inside⟩ := ih earlier
      exact ⟨path, trail.snoc unused (by simpa using earlier), inside.trans (List.sublist_append_left _ _)⟩
    · obtain rfl := List.mem_singleton.mp isLast
      have lookup : (parent node).bind (find? key (nodes ++ [node])) = (parent node).bind (find? key nodes) := by
        cases above : parent node with
        | none => rfl
        | some above' => exact find?_snoc_of_ne fun equal => proper (above.trans (congrArg some equal.symm))
      cases hit : (parent node).bind (find? key nodes) with
      | none =>
        exact ⟨[node], @Trail.step _ _ _ _ _ _ node [] (by rw [lookup, hit]; exact .stop), List.sublist_append_right _ _⟩
      | some above =>
        obtain ⟨_, _, found⟩ := Option.bind_eq_some_iff.mp hit
        obtain ⟨path, trail, inside⟩ := ih (find?_mem found)
        refine ⟨path ++ [node], .step ?_, inside.append_right _⟩
        rw [lookup, hit]
        exact trail.snoc unused (by simpa using find?_mem found)

/-- Along a trail every node names the one before it. -/
theorem Trail.linked (trail : Trail key parent nodes start path) : Linked key parent path := by
  induction trail with
  | stop => exact List.isChain_nil
  | @step node path rest ih =>
    refine List.isChain_append.mpr ⟨ih, List.isChain_singleton _, fun above last below single => ?_⟩
    cases single
    rw [rest.getLast?] at last
    obtain ⟨wanted, names, found⟩ := Option.bind_eq_some_iff.mp last
    rw [names, find?_key found]

/-- The first node of a trail has no known parent. -/
theorem Trail.head (trail : Trail key parent nodes start path) (leads : first ∈ path.head?) :
    (parent first).bind (find? key nodes) = none := by
  induction trail with
  | stop => cases leads
  | @step node path rest ih =>
    cases path with
    | nil =>
      cases leads
      rw [← rest.getLast?]
      rfl
    | cons top below => exact ih leads

/-- A linked list of known nodes is a trail when its first node has no known parent. -/
theorem trail_of_linked (linked : Linked key parent path) (known : ∀ node ∈ path, find? key nodes (key node) = some node)
    (top : ∀ first ∈ path.head?, (parent first).bind (find? key nodes) = none) :
    Trail key parent nodes path.getLast? path := by
  induction path using List.reverseRecOn with
  | nil => exact .stop
  | append_singleton path node ih =>
    obtain ⟨linked, _, joined⟩ := List.isChain_append.mp linked
    rw [List.getLast?_concat]
    refine .step ?_
    cases last : path.getLast? with
    | none =>
      obtain rfl := List.getLast?_eq_none_iff.mp last
      rw [top node (by simp)]
      exact .stop
    | some above =>
      have member : above ∈ path := List.mem_of_getLast? last
      rw [joined above last node (by simp), Option.bind_some, known above (List.mem_append_left _ member), ← last]
      refine ih linked (fun node member => known node (List.mem_append_left _ member)) fun first leads => top first ?_
      rw [List.head?_append, leads]
      rfl

end Forest
