import Mathlib.Data.Fintype.EquivFin
import PieAgent.Model.Session.SessionTree

/-! # Walks over a loaded session file

Nothing checks the ids of a file when it is loaded. The walks end and the tree holds every entry once exactly when no two
entries share an id and no entry is above itself; an entry that is its own parent counts when its id is true, since only
the tree takes it for a root.
-/

namespace PieAgent.Soundness.SessionTrees

open JavaScript Forest Model SessionTree

variable {numbers : Numbers} {entries : List Json}

/-- The tree holds every entry once. -/
def HoldsAll (tree : Tree entries) : Prop :=
  ∃ nodes, Lists tree.children tree.roots nodes ∧ nodes.Perm (List.finRange entries.length)

/-- Every walk ends, from wherever it starts, and the tree holds every entry once. -/
structure Walkable (numbers : Numbers) (entries : List Json) : Prop where
  getBranch : ∀ fromId leafId, ∃ rounds path, getBranch numbers entries rounds fromId leafId = some path
  buildSessionContext : ∀ leafId, ∃ rounds path, contextPath numbers entries rounds leafId = some path
  getTree : ∀ order, ∃ rounds tree, getTree numbers entries order rounds = some tree ∧ HoldsAll tree

/-- The entry that another one has for its parent. Its own parent it is for a true id only. -/
def linked (numbers : Numbers) (entries : List Json) (entry : Entry entries) : Option (Entry entries) :=
  if parentId numbers entries entry = .null then none
  else ((byId numbers entries).get? (parentId numbers entries entry)).filter fun parent =>
    parent ≠ entry || (parentId numbers entries entry).truthy

/-- No two entries share an id, and no entry is above itself. -/
structure Sound (numbers : Numbers) (entries : List Json) : Prop where
  distinct : Function.Injective (id numbers entries)
  acyclic : Acyclic (linked numbers entries)

section Maps

variable {entry other : Entry entries} {key : Key numbers.Value}

private theorem of_get?_foldl (places : List (Entry entries)) (map : JsMap (Key numbers.Value) (Entry entries))
    (found : (places.foldl (fun map entry => map.set (id numbers entries entry) entry) map).get? key = some entry) :
    id numbers entries entry = key ∨ map.get? key = some entry := by
  induction places generalizing map with
  | nil => exact .inr found
  | cons place places ih =>
    rcases ih _ found with here | before
    · exact .inl here
    · by_cases same : id numbers entries place = key
      · subst same
        rw [JsMap.get?_set_self] at before
        cases before
        exact .inl rfl
      · rw [JsMap.get?_set_of_ne _ _ (Ne.symm same)] at before
        exact .inr before

private theorem get?_foldl (places : List (Entry entries)) (map : JsMap (Key numbers.Value) (Entry entries))
    (known : (∃ entry ∈ places, id numbers entries entry = key) ∨ ∃ entry, map.get? key = some entry) :
    ∃ entry, (places.foldl (fun map entry => map.set (id numbers entries entry) entry) map).get? key = some entry := by
  induction places generalizing map with
  | nil => exact known.resolve_left (by simp)
  | cons place places ih =>
    apply ih
    by_cases same : id numbers entries place = key
    · subst same
      exact .inr ⟨place, JsMap.get?_set_self ..⟩
    · rw [JsMap.get?_set_of_ne _ _ (Ne.symm same)]
      refine known.imp_left ?_
      rintro ⟨entry, listed, rfl⟩
      rcases List.mem_cons.mp listed with rfl | later
      · exact absurd rfl same
      · exact ⟨entry, later, rfl⟩

private theorem id_of_byId (found : (byId numbers entries).get? key = some entry) : id numbers entries entry = key :=
  (of_get?_foldl _ _ found).resolve_right (by simp)

private theorem byId_id (numbers : Numbers) (entry : Entry entries) :
    ∃ known, (byId numbers entries).get? (id numbers entries entry) = some known :=
  get?_foldl _ _ (.inl ⟨entry, List.mem_finRange entry, rfl⟩)

private theorem byId_of_distinct (distinct : Function.Injective (id numbers entries)) (entry : Entry entries) :
    (byId numbers entries).get? (id numbers entries entry) = some entry := by
  obtain ⟨known, found⟩ := byId_id numbers entry
  rw [found, distinct (id_of_byId found)]

end Maps

section Branches

variable {entry other : Entry entries}

private theorem ne_null_of_truthy {key : Key numbers.Value} (true_ : key.truthy = true) : key ≠ .null := by
  rintro rfl
  cases true_

private theorem ne_undefined_of_truthy {key : Key numbers.Value} (true_ : key.truthy = true) : key ≠ .undefined := by
  rintro rfl
  cases true_

private theorem above_eq_some (step : above numbers entries entry = some other) :
    (parentId numbers entries entry).truthy = true ∧
      (byId numbers entries).get? (parentId numbers entries entry) = some other := by
  rw [above, lookup] at step
  split at step
  · next true_ => exact ⟨true_, step⟩
  · cases step

private theorem climb_of_ends
    (ends : ∀ entry, ∃ rounds path, climb (above numbers entries) rounds (some entry) = some path)
    (start : Option (Entry entries)) : ∃ rounds path, climb (above numbers entries) rounds start = some path := by
  cases start with
  | none => exact ⟨0, [], rfl⟩
  | some entry => exact ends entry

/-- All branches end exactly when no entry is above itself through true ids. -/
private theorem getBranch_ends_iff :
    (∀ fromId leafId, ∃ rounds path, getBranch numbers entries rounds fromId leafId = some path) ↔
      Acyclic (above numbers entries) := by
  rw [← climb_ends_iff]
  constructor
  · intro ends entry
    cases step : above numbers entries entry with
    | none => exact ⟨1, [entry], by rw [climb, step, climb]; rfl⟩
    | some parent =>
      obtain ⟨true_, found⟩ := above_eq_some step
      obtain ⟨rounds, path, ended⟩ := ends (parentId numbers entries entry) .null
      rw [SessionTree.getBranch, if_neg (not_or.mpr ⟨ne_undefined_of_truthy true_, ne_null_of_truthy true_⟩), lookup,
        if_pos true_, found] at ended
      exact ⟨rounds + 1, path ++ [entry], by rw [climb, step, ended]; rfl⟩
  · intro ends fromId leafId
    exact climb_of_ends ends _

private theorem contextPath_ends
    (ends : ∀ entry, ∃ rounds path, climb (above numbers entries) rounds (some entry) = some path)
    (leafId : Key numbers.Value) : ∃ rounds path, contextPath numbers entries rounds leafId = some path := by
  by_cases null : leafId = .null
  · exact ⟨0, [], by rw [contextPath, if_pos null]⟩
  · obtain ⟨rounds, path, ended⟩ := climb_of_ends ends
      (lookup numbers entries leafId <|> (List.finRange entries.length).getLast?)
    exact ⟨rounds, path, by rw [contextPath, if_neg null, ended]⟩

end Branches

section Tree

variable {entry other : Entry entries}

/-- Where the tree puts an entry. -/
private def treeParent (numbers : Numbers) (entries : List Json) (entry : Entry entries) : Option (Entry entries) :=
  if parentId numbers entries entry = .null ∨ parentId numbers entries entry = id numbers entries entry then none
  else (byId numbers entries).get? (parentId numbers entries entry)

/-- The node that an entry has in the tree. -/
private def nodeOf (numbers : Numbers) (entries : List Json) (entry : Entry entries) : Entry entries :=
  ((byId numbers entries).get? (id numbers entries entry)).getD entry

private theorem placeNode_eq (tree : Tree entries) (entry : Entry entries) : placeNode numbers entries tree entry =
    match treeParent numbers entries entry with
    | none => { tree with roots := tree.roots ++ [nodeOf numbers entries entry] }
    | some parent =>
      { tree with
        children := Function.update tree.children parent (tree.children parent ++ [nodeOf numbers entries entry]) } := by
  rw [placeNode, treeParent]
  split
  · rfl
  · cases (byId numbers entries).get? (parentId numbers entries entry) <;> rfl

/-- The nodes of the roots and of the children. -/
private theorem foldl_placeNode (places : List (Entry entries)) (tree : Tree entries) :
    (places.foldl (placeNode numbers entries) tree).roots =
        tree.roots ++ (rootsOf places (treeParent numbers entries)).map (nodeOf numbers entries) ∧
      ∀ node, (places.foldl (placeNode numbers entries) tree).children node =
        tree.children node ++ (childrenOf places (treeParent numbers entries) node).map (nodeOf numbers entries) := by
  induction places generalizing tree with
  | nil => simp [rootsOf, childrenOf]
  | cons place places ih =>
    obtain ⟨roots, children⟩ := ih (placeNode numbers entries tree place)
    rw [List.foldl_cons, roots]
    refine ⟨?_, fun node => (children node).trans ?_⟩
    · rw [placeNode_eq]
      cases parent : treeParent numbers entries place with
      | none => simp [rootsOf, parent]
      | some above => simp [rootsOf, parent]
    · rw [placeNode_eq]
      cases parent : treeParent numbers entries place with
      | none => simp [childrenOf, parent]
      | some above =>
        by_cases here : node = above
        · subst here
          simp [childrenOf, parent]
        · simp [childrenOf, parent, here, Ne.symm here]

private theorem roots_placeNodes : (placeNodes numbers entries).roots =
    (rootsOf (List.finRange entries.length) (treeParent numbers entries)).map (nodeOf numbers entries) := by
  rw [placeNodes, (foldl_placeNode _ _).1, List.nil_append]

private theorem children_placeNodes (node : Entry entries) : (placeNodes numbers entries).children node =
    (childrenOf (List.finRange entries.length) (treeParent numbers entries) node).map (nodeOf numbers entries) := by
  rw [placeNodes, (foldl_placeNode _ _).2, List.nil_append]

private theorem mem_of_lists {children : Entry entries → List (Entry entries)} {first nodes : List (Entry entries)}
    (listed : Lists children first nodes) : ∀ node ∈ nodes, node ∈ first ∨ ∃ above, node ∈ children above := by
  induction listed with
  | nil => exact fun _ inside => absurd inside List.not_mem_nil
  | @cons node rest below more _ _ inner outer =>
    intro other inside
    rcases List.mem_append.mp inside with front | behind
    · rcases List.mem_cons.mp front with rfl | lower
      · exact .inl List.mem_cons_self
      · exact .inr ((inner other lower).elim (fun child => ⟨node, child⟩) fun below => below)
    · exact (outer other behind).imp_left (List.mem_cons_of_mem _)

/-- A tree of all entries has no two entries with one id. -/
private theorem distinct_of_lists {nodes : List (Entry entries)}
    (listed : Lists (placeNodes numbers entries).children (placeNodes numbers entries).roots nodes)
    (whole : ∀ entry, entry ∈ nodes) : Function.Injective (id numbers entries) := by
  have own (entry : Entry entries) : ∃ place, nodeOf numbers entries place = entry := by
    rcases mem_of_lists listed entry (whole entry) with root | ⟨above, child⟩
    · rw [roots_placeNodes] at root
      obtain ⟨place, -, same⟩ := List.mem_map.mp root
      exact ⟨place, same⟩
    · rw [children_placeNodes] at child
      obtain ⟨place, -, same⟩ := List.mem_map.mp child
      exact ⟨place, same⟩
  have known (entry : Entry entries) : (byId numbers entries).get? (id numbers entries entry) = some entry := by
    obtain ⟨place, same⟩ := own entry
    obtain ⟨node, found⟩ := byId_id numbers place
    rw [nodeOf, found, Option.getD_some] at same
    subst same
    rw [id_of_byId found, found]
  intro entry other same
  have first := known entry
  rw [same, known other] at first
  exact (Option.some.inj first).symm

private theorem map_nodeOf (distinct : Function.Injective (id numbers entries)) (places : List (Entry entries)) :
    places.map (nodeOf numbers entries) = places := by
  refine List.map_id'' (fun place => ?_) places
  rw [nodeOf, byId_of_distinct distinct, Option.getD_some]

private theorem children_of_distinct (distinct : Function.Injective (id numbers entries)) :
    (placeNodes numbers entries).children =
      childrenOf (List.finRange entries.length) (treeParent numbers entries) :=
  funext fun node => (children_placeNodes node).trans (map_nodeOf distinct _)

/-- The tree of a file holds every entry once exactly when ids differ and no entry is above itself in the tree. -/
private theorem getTree_holdsAll_iff :
    (∀ order, ∃ rounds tree, getTree numbers entries order rounds = some tree ∧ HoldsAll tree) ↔
      Function.Injective (id numbers entries) ∧ Acyclic (treeParent numbers entries) := by
  have whole := @lists_all_iff _ (treeParent numbers entries) _ _ _ (fun entry => List.mem_finRange entry)
    (List.nodup_finRange entries.length)
  constructor
  · intro built
    obtain ⟨rounds, tree, done, nodes, listed, perm⟩ := built ⟨fun below => below, fun _ => .refl _⟩
    obtain ⟨children, sorted, rfl⟩ := Option.map_eq_some_iff.mp done
    obtain ⟨-, kept⟩ := lists_of_sortAll (fun _ => .refl _) sorted
    obtain ⟨more, listed', perm'⟩ := listed.reorder (fun node => (kept node).symm) (.refl _)
    have distinct := distinct_of_lists listed' fun entry => perm'.mem_iff.mp (perm.mem_iff.mpr (List.mem_finRange entry))
    refine ⟨distinct, whole.mp ⟨more, ?_, perm'.symm.trans perm⟩⟩
    rw [roots_placeNodes, map_nodeOf distinct, children_of_distinct distinct] at listed'
    exact listed'
  · rintro ⟨distinct, acyclic⟩ order
    obtain ⟨nodes, listed, perm⟩ := whole.mpr acyclic
    have listed' : Lists (placeNodes numbers entries).children (placeNodes numbers entries).roots nodes := by
      rw [roots_placeNodes, map_nodeOf distinct, children_of_distinct distinct]
      exact listed
    obtain ⟨stacked, onStack, -⟩ := listed'.reorder (fun _ => .refl _) (List.reverse_perm _).symm
    obtain ⟨children, sorted⟩ := sortAll_of_lists order.2 onStack
    obtain ⟨-, kept⟩ := lists_of_sortAll order.2 sorted
    obtain ⟨more, listed'', perm''⟩ := listed'.reorder kept (.refl _)
    exact ⟨_, _, by rw [getTree, sorted]; rfl, more, listed'', perm''.symm.trans perm⟩

private theorem linked_eq_some : linked numbers entries entry = some other ↔
    parentId numbers entries entry ≠ .null ∧ (byId numbers entries).get? (parentId numbers entries entry) = some other ∧
      (other ≠ entry ∨ (parentId numbers entries entry).truthy = true) := by
  rw [linked]
  split
  · next null => simp [null]
  · next other_ => simp [Option.filter_eq_some_iff, other_]

private theorem linked_of_above (step : above numbers entries entry = some other) :
    linked numbers entries entry = some other := by
  obtain ⟨true_, found⟩ := above_eq_some step
  exact (linked_eq_some).mpr ⟨ne_null_of_truthy true_, found, .inr true_⟩

private theorem linked_of_treeParent (step : treeParent numbers entries entry = some other) :
    linked numbers entries entry = some other := by
  rw [treeParent] at step
  split at step
  · cases step
  · next apart =>
    obtain ⟨null, self⟩ := not_or.mp apart
    refine (linked_eq_some).mpr ⟨null, step, .inl ?_⟩
    rintro rfl
    exact self (id_of_byId step).symm

/-- An entry is linked to itself by a walk, or to where the tree puts it. -/
private theorem of_linked (distinct : Function.Injective (id numbers entries))
    (step : linked numbers entries entry = some other) :
    above numbers entries entry = some entry ∨ treeParent numbers entries entry = some other := by
  obtain ⟨null, found, kept⟩ := (linked_eq_some).mp step
  by_cases same : other = entry
  · subst same
    have true_ := kept.resolve_left (fun differ => differ rfl)
    exact .inl (by rw [above, lookup, if_pos true_, found])
  · have self : parentId numbers entries entry ≠ id numbers entries entry := fun self =>
      same (distinct ((id_of_byId found).trans self))
    exact .inr (by rw [treeParent, if_neg (not_or.mpr ⟨null, self⟩), found])

private theorem acyclic_linked_iff (distinct : Function.Injective (id numbers entries)) :
    Acyclic (linked numbers entries) ↔ Acyclic (above numbers entries) ∧ Acyclic (treeParent numbers entries) := by
  constructor
  · intro acyclic
    exact ⟨fun entry cyclic => acyclic entry (Relation.TransGen.mono (fun _ _ => linked_of_above) _ _ cyclic),
      fun entry cyclic => acyclic entry (Relation.TransGen.mono (fun _ _ => linked_of_treeParent) _ _ cyclic)⟩
  · rintro ⟨walks, tree⟩ entry cyclic
    refine tree entry (Relation.TransGen.mono (fun child node step => ?_) _ _ cyclic)
    exact (of_linked distinct step).resolve_left fun self => walks child (.single self)

end Tree

/-- The walks end and the tree holds every entry once exactly when ids differ and no entry is above itself. -/
theorem walkable_iff (numbers : Numbers) (entries : List Json) : Walkable numbers entries ↔ Sound numbers entries := by
  constructor
  · intro walkable
    obtain ⟨distinct, tree⟩ := (getTree_holdsAll_iff).mp walkable.getTree
    exact ⟨distinct, (acyclic_linked_iff distinct).mpr ⟨getBranch_ends_iff.mp walkable.getBranch, tree⟩⟩
  · rintro ⟨distinct, acyclic⟩
    obtain ⟨walks, tree⟩ := (acyclic_linked_iff distinct).mp acyclic
    exact {
      getBranch := (getBranch_ends_iff).mpr walks
      buildSessionContext := contextPath_ends (climb_ends_iff.mpr walks)
      getTree := (getTree_holdsAll_iff).mpr ⟨distinct, tree⟩ }

section SelfParent

/-- Numbers are told by their literals. -/
private def literals : Numbers where
  Value := NumberLiteral
  read := fun literal => literal
  zero := ⟨['0'], rfl⟩

private def selfParent : Json :=
  .obj [(js "type", .str (js "message")), (js "id", .str (js "a")), (js "parentId", .str (js "a"))]

/-- The walks from an entry that is its own parent never end. -/
theorem self_parent_loops : ¬ Walkable literals (getEntries [selfParent]) := by
  intro walkable
  have linked : linked literals (getEntries [selfParent]) ⟨0, by decide⟩ = some ⟨0, by decide⟩ := by decide
  exact ((walkable_iff _ _).mp walkable).acyclic _ (.single linked)

end SelfParent

end PieAgent.Soundness.SessionTrees
