import Mathlib.Data.Fintype.Card
import Mathlib.Data.List.Perm.Basic
import Mathlib.Logic.Relation
import Mathlib.Order.WellFounded

/-! # Walking over the whole of a forest

Nodes are visited from a stack, and the list of children of each visited node is put into order. The visits end exactly
when the nodes below the stack can be listed. In a forest of parent pointers they can, each node once, when no node is
above itself.
-/

namespace Forest

variable {α : Type}

/-- The nodes below some nodes, these included, each before those below it. -/
inductive Lists (children : α → List α) : List α → List α → Prop
  | nil : Lists children [] []
  | cons {node : α} {rest below more : List α} : Lists children (children node) below → Lists children rest more →
      Lists children (node :: rest) (node :: below ++ more)

section Listings

variable {children others : α → List α} {first second nodes : List α}

theorem Lists.append {more : List α} (one : Lists children first nodes) (two : Lists children second more) :
    Lists children (first ++ second) (nodes ++ more) := by
  induction one with
  | nil => exact two
  | cons inside _ _ ih =>
    have whole := Lists.cons inside ih
    rwa [← List.append_assoc] at whole

theorem Lists.split (whole : Lists children (first ++ second) nodes) :
    ∃ front back, nodes = front ++ back ∧ Lists children first front ∧ Lists children second back := by
  induction first generalizing nodes with
  | nil => exact ⟨[], nodes, rfl, .nil, whole⟩
  | cons node rest ih =>
    cases whole with
    | @cons _ _ below more inside others =>
      obtain ⟨front, back, rfl, one, two⟩ := ih others
      exact ⟨node :: below ++ front, back, by simp, .cons inside one, two⟩

/-- Listings differ in order when the lists of children do. -/
theorem Lists.reorder (same : ∀ node, (children node).Perm (others node)) (listed : Lists children first nodes)
    (perm : first.Perm second) : ∃ more, Lists others second more ∧ nodes.Perm more := by
  induction listed generalizing second with
  | nil =>
    obtain rfl := List.nil_perm.mp perm
    exact ⟨[], .nil, .refl _⟩
  | @cons node rest below more _ _ inner outer =>
    obtain ⟨front, back, rfl⟩ := List.append_of_mem (perm.mem_iff.mp List.mem_cons_self)
    obtain ⟨below', inside, perm'⟩ := inner (same node)
    have rest' : rest.Perm (front ++ back) := (perm.trans List.perm_middle).cons_inv
    obtain ⟨more', listed', perm''⟩ := outer rest'
    obtain ⟨before, after, rfl, one, two⟩ := listed'.split
    refine ⟨before ++ (node :: below' ++ after), one.append (.cons inside two), ?_⟩
    have moved : (before ++ (node :: below' ++ after)).Perm (node :: below' ++ (before ++ after)) := by
      rw [← List.append_assoc, ← List.append_assoc]
      exact (@List.perm_append_comm _ before (node :: below')).append_right after
    exact ((perm'.cons node).append perm'').trans moved.symm

end Listings

section Visits

variable [DecidableEq α] {children result : α → List α} {stack nodes : List α}

/-- Visit the nodes below a stack and put their lists of children into order. It yields nothing when the rounds do not
suffice. -/
def sortAll (sort : List α → List α) : ℕ → (α → List α) → List α → Option (α → List α)
  | _, children, [] => some children
  | 0, _, _ :: _ => none
  | rounds + 1, children, node :: stack =>
    let sorted := sort (children node)
    sortAll sort rounds (Function.update children node sorted) (sorted.reverse ++ stack)

variable {sort : List α → List α} (perm : ∀ nodes, (sort nodes).Perm nodes)
include perm

private theorem update_perm (children : α → List α) (node other : α) :
    (children other).Perm (Function.update children node (sort (children node)) other) := by
  by_cases same : other = node
  · rw [same, Function.update_self]
    exact (perm _).symm
  · rw [Function.update_of_ne same]

/-- The visits end after as many rounds as there are nodes. -/
theorem sortAll_of_lists (listed : Lists children stack nodes) :
    ∃ result, sortAll sort nodes.length children stack = some result := by
  generalize size : nodes.length = rounds
  induction rounds generalizing children stack nodes with
  | zero =>
    obtain rfl := List.length_eq_zero_iff.mp size
    cases listed
    exact ⟨children, rfl⟩
  | succ rounds ih =>
    cases listed with
    | nil => cases size
    | @cons node rest below more inside outside =>
      obtain ⟨more', listed', perm'⟩ := (inside.append outside).reorder (update_perm perm children node)
        (((perm (children node)).symm.trans (List.reverse_perm _).symm).append_right rest)
      have length := perm'.length_eq
      exact ih listed' (by simp only [List.length_cons, List.length_append] at size length ⊢; omega)

/-- When the visits end, the nodes can be listed, and the lists of children are in another order only. -/
theorem lists_of_sortAll {rounds : ℕ} (done : sortAll sort rounds children stack = some result) :
    (∃ nodes, Lists children stack nodes) ∧ ∀ node, (children node).Perm (result node) := by
  induction rounds generalizing children stack with
  | zero =>
    cases stack with
    | nil =>
      cases done
      exact ⟨⟨[], .nil⟩, fun _ => .refl _⟩
    | cons => cases done
  | succ rounds ih =>
    cases stack with
    | nil =>
      cases done
      exact ⟨⟨[], .nil⟩, fun _ => .refl _⟩
    | cons node stack =>
      obtain ⟨⟨nodes, listed⟩, kept⟩ := ih done
      have same := update_perm perm children node
      have back : ((sort (children node)).reverse ++ stack).Perm (children node ++ stack) :=
        ((List.reverse_perm _).trans (perm _)).append_right stack
      obtain ⟨more, listed', -⟩ := listed.reorder (fun other => (same other).symm) back
      obtain ⟨below, rest, -, inside, outside⟩ := listed'.split
      exact ⟨⟨_, .cons inside outside⟩, fun other => (same other).trans (kept other)⟩

end Visits

section Parents

variable {parent : α → Option α} {nodes : List α} {a b : α}

/-- A node is directly below another one. -/
def IsBelow (parent : α → Option α) (child node : α) : Prop := parent child = some node

/-- No node is above itself. -/
def Acyclic (parent : α → Option α) : Prop := ∀ node, ¬Relation.TransGen (IsBelow parent) node node

private theorem isBelow_unique : Relator.RightUnique (IsBelow parent) := fun _ _ _ one two =>
  Option.some.inj ((Eq.symm one).trans two)

/-- What is above a node on a cycle is on a cycle. -/
private theorem cyclic_above (cyclic : Relation.TransGen (IsBelow parent) a a)
    (above : Relation.ReflTransGen (IsBelow parent) a b) : Relation.TransGen (IsBelow parent) b b := by
  induction above with
  | refl => exact cyclic
  | tail _ step ih =>
    obtain ⟨next, first, rest⟩ := Relation.TransGen.head'_iff.mp ih
    obtain rfl := isBelow_unique first step
    exact Relation.TransGen.tail' rest first

/-- The nodes directly below a node. -/
def childrenOf [DecidableEq α] (all : List α) (parent : α → Option α) (node : α) : List α :=
  all.filter (parent · = some node)

def rootsOf [DecidableEq α] (all : List α) (parent : α → Option α) : List α := all.filter (parent · = none)

variable {all siblings : List α}

theorem mem_childrenOf [DecidableEq α] : a ∈ childrenOf all parent b ↔ a ∈ all ∧ IsBelow parent a b := by
  rw [childrenOf, List.mem_filter, decide_eq_true_iff]
  rfl

theorem mem_rootsOf [DecidableEq α] : a ∈ rootsOf all parent ↔ a ∈ all ∧ parent a = none := by
  rw [rootsOf, List.mem_filter, decide_eq_true_iff]

private theorem apart_of_parent (acyclic : Acyclic parent) (differ : a ≠ b) (same : parent a = parent b) :
    ¬Relation.ReflTransGen (IsBelow parent) a b := by
  intro path
  obtain equal | ⟨next, first, rest⟩ := Relation.ReflTransGen.cases_head path
  · exact differ equal
  · exact acyclic next (.tail' rest (same.symm.trans first))

/-- Neither of two nodes is below the other one. -/
private def Apart (parent : α → Option α) (a b : α) : Prop :=
  ¬Relation.ReflTransGen (IsBelow parent) a b ∧ ¬Relation.ReflTransGen (IsBelow parent) b a

private theorem apart_of_sameParent [DecidableEq α] (acyclic : Acyclic parent) (distinct : all.Nodup) (above : Option α) :
    (all.filter (parent · = above)).Pairwise (Apart parent) := by
  refine (distinct.filter _).imp_of_mem fun inside inside' differ => ?_
  have one := of_decide_eq_true (List.mem_filter.mp inside).2
  have two := of_decide_eq_true (List.mem_filter.mp inside').2
  have same := one.trans two.symm
  exact ⟨apart_of_parent acyclic differ same, apart_of_parent acyclic differ.symm same.symm⟩

/-- The nodes below some nodes, each once. -/
private structure ListsOnce [DecidableEq α] (all : List α) (parent : α → Option α) (first nodes : List α) : Prop where
  listed : Lists (childrenOf all parent) first nodes
  nodup : nodes.Nodup
  mem_iff : ∀ node, node ∈ nodes ↔ ∃ top ∈ first, Relation.ReflTransGen (IsBelow parent) node top

private theorem listsOnce_siblings [DecidableEq α] (apart : siblings.Pairwise (Apart parent))
    (each : ∀ node ∈ siblings, ∃ nodes, ListsOnce all parent [node] nodes) :
    ∃ nodes, ListsOnce all parent siblings nodes := by
  induction siblings with
  | nil => exact ⟨[], .nil, List.nodup_nil, by simp⟩
  | cons node rest ih =>
    obtain ⟨others, apart⟩ := List.pairwise_cons.mp apart
    obtain ⟨nodes, once⟩ := each node List.mem_cons_self
    obtain ⟨more, more_⟩ := ih apart fun node inside => each node (List.mem_cons_of_mem _ inside)
    refine ⟨nodes ++ more, once.listed.append more_.listed, once.nodup.append more_.nodup ?_, fun other => ?_⟩
    · intro other inside inside'
      obtain ⟨top, isNode, path⟩ := (once.mem_iff other).mp inside
      obtain rfl := List.mem_singleton.mp isNode
      obtain ⟨top', isRest, path'⟩ := (more_.mem_iff other).mp inside'
      rcases Relation.ReflTransGen.total_of_right_unique isBelow_unique path path' with below | below
      · exact (others top' isRest).1 below
      · exact (others top' isRest).2 below
    · rw [List.mem_append, once.mem_iff, more_.mem_iff]
      simp

/-- What is listed below some nodes is at or below one of them. -/
private theorem Lists.reaches [DecidableEq α] {first nodes : List α} (listed : Lists (childrenOf all parent) first nodes) :
    ∀ node ∈ nodes, ∃ top ∈ first, Relation.ReflTransGen (IsBelow parent) node top := by
  induction listed with
  | nil => exact fun _ inside => absurd inside List.not_mem_nil
  | @cons node rest below more _ _ inner outer =>
    intro other inside
    rcases List.mem_append.mp inside with front | behind
    · rcases List.mem_cons.mp front with rfl | lower
      · exact ⟨other, List.mem_cons_self, .refl⟩
      · obtain ⟨child, isChild, path⟩ := inner other lower
        exact ⟨node, List.mem_cons_self, path.tail ((mem_childrenOf).mp isChild).2⟩
    · obtain ⟨top, isTop, path⟩ := outer other behind
      exact ⟨top, List.mem_cons_of_mem _ isTop, path⟩

variable [Finite α]

private theorem wellFounded_below (acyclic : Acyclic parent) : WellFounded (IsBelow parent) := by
  have : Std.Irrefl (Relation.TransGen (IsBelow parent)) := ⟨acyclic⟩
  exact (Finite.wellFounded_of_trans_of_irrefl (Relation.TransGen (IsBelow parent))).mono
    fun _ _ step => .single step

private theorem wellFounded_above (acyclic : Acyclic parent) : WellFounded (flip (IsBelow parent)) := by
  have : Std.Irrefl (flip (Relation.TransGen (IsBelow parent))) := ⟨acyclic⟩
  have : IsTrans α (flip (Relation.TransGen (IsBelow parent))) := ⟨fun _ _ _ one two => two.trans one⟩
  exact (Finite.wellFounded_of_trans_of_irrefl (flip (Relation.TransGen (IsBelow parent)))).mono
    fun _ _ step => .single step

/-- The walk from a node to a root. It yields nothing when the rounds do not suffice. -/
def climb (parent : α → Option α) : ℕ → Option α → Option (List α)
  | _, none => some []
  | 0, some _ => none
  | rounds + 1, some node => (climb parent rounds (parent node)).map (· ++ [node])

/-- Every walk ends exactly when no node is above itself. -/
theorem climb_ends_iff : (∀ node, ∃ rounds path, climb parent rounds (some node) = some path) ↔ Acyclic parent := by
  constructor
  · intro ends node cyclic
    have never (rounds : ℕ) : climb parent rounds (some node) = none := by
      induction rounds generalizing node with
      | zero => rfl
      | succ rounds ih =>
        obtain ⟨next, first, -⟩ := Relation.TransGen.head'_iff.mp cyclic
        have above := ih next (cyclic_above cyclic (.single first))
        rw [climb, show parent node = some next from first, above]
        rfl
    obtain ⟨rounds, path, ended⟩ := ends node
    cases (never rounds).symm.trans ended
  · intro acyclic node
    induction node using (wellFounded_above acyclic).induction with
    | _ node ih =>
      cases above : parent node with
      | none => exact ⟨1, [node], by rw [climb, above, climb]; rfl⟩
      | some next =>
        obtain ⟨rounds, path, ended⟩ := ih next above
        exact ⟨rounds + 1, path ++ [node], by rw [climb, above, ended]; rfl⟩

/-- Every node is at or below a root. -/
private theorem exists_root (acyclic : Acyclic parent) (node : α) :
    ∃ root, parent root = none ∧ Relation.ReflTransGen (IsBelow parent) node root := by
  induction node using (wellFounded_above acyclic).induction with
  | _ node ih =>
    cases above : parent node with
    | none => exact ⟨node, above, .refl⟩
    | some next =>
      obtain ⟨root, isRoot, path⟩ := ih next above
      exact ⟨root, isRoot, .head above path⟩

private theorem exists_listsOnce [DecidableEq α] (acyclic : Acyclic parent) (whole : ∀ node, node ∈ all)
    (distinct : all.Nodup) (node : α) : ∃ nodes, ListsOnce all parent [node] nodes := by
  induction node using (wellFounded_below acyclic).induction with
  | _ node ih =>
    have children : ∀ child ∈ childrenOf all parent node, ∃ nodes, ListsOnce all parent [child] nodes :=
      fun child inside => ih child ((mem_childrenOf).mp inside).2
    obtain ⟨below, once⟩ := listsOnce_siblings (apart_of_sameParent acyclic distinct (some node)) children
    have strictly (other : α) : other ∈ below ↔ Relation.TransGen (IsBelow parent) other node := by
      rw [once.mem_iff, Relation.TransGen.tail'_iff]
      constructor
      · rintro ⟨child, inside, path⟩
        exact ⟨child, path, ((mem_childrenOf).mp inside).2⟩
      · rintro ⟨child, path, step⟩
        exact ⟨child, (mem_childrenOf).mpr ⟨whole child, step⟩, path⟩
    refine ⟨node :: below ++ [], .cons once.listed .nil, ?_, fun other => ?_⟩
    · rw [List.append_nil]
      exact List.nodup_cons.mpr ⟨fun inside => acyclic node ((strictly node).mp inside), once.nodup⟩
    · rw [List.append_nil, List.mem_cons, strictly]
      simp [Relation.reflTransGen_iff_eq_or_transGen, eq_comm]

/-- The nodes below the roots are all nodes, each once, exactly when no node is above itself. -/
theorem lists_all_iff [DecidableEq α] (whole : ∀ node, node ∈ all) (distinct : all.Nodup) :
    (∃ nodes, Lists (childrenOf all parent) (rootsOf all parent) nodes ∧ nodes.Perm all) ↔ Acyclic parent := by
  constructor
  · rintro ⟨nodes, listed, perm⟩ node cyclic
    obtain ⟨root, isRoot, path⟩ := listed.reaches node (perm.mem_iff.mpr (whole node))
    obtain ⟨next, first, -⟩ := Relation.TransGen.head'_iff.mp (cyclic_above cyclic path)
    have none_ : parent root = none := ((mem_rootsOf).mp isRoot).2
    cases none_.symm.trans first
  · intro acyclic
    obtain ⟨nodes, once⟩ := listsOnce_siblings (apart_of_sameParent acyclic distinct none) fun node _ =>
      exists_listsOnce acyclic whole distinct node
    refine ⟨nodes, once.listed, (List.perm_ext_iff_of_nodup once.nodup distinct).mpr fun node => ?_⟩
    refine iff_of_true ((once.mem_iff node).mpr ?_) (whole node)
    obtain ⟨root, isRoot, path⟩ := exists_root acyclic node
    exact ⟨root, (mem_rootsOf).mpr ⟨whole root, isRoot⟩, path⟩

end Parents

end Forest
