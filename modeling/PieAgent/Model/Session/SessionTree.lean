import PieAgent.Forest.Core.Traversal
import PieAgent.JavaScript.Core.Maps
import PieAgent.Model.Session.Transcript

/-! # The tree of the entries of a session file

The entries of a file are taken as they are: their ids and the ids of their parents may be any values, or be missing.
The maps of the manager compare them as JavaScript does. A branch is walked from an entry to the root; the tree is built
in two passes over the entries and then visited from a stack, to put the children of each node into order.
-/

namespace PieAgent.Model.SessionTree

open JavaScript Forest Transcript

/-- A value as a key of a `Map`. Every object is a key of its own, told by where it stands. -/
inductive Key (ν : Type) where
  | undefined
  | null
  | bool (value : Bool)
  | num (value : ν)
  | str (value : JsString)
  | object (place : ℕ)
deriving DecidableEq

/-- The numbers that literals stand for. -/
structure Numbers where
  Value : Type
  [decEq : DecidableEq Value]
  read : NumberLiteral → Value
  zero : Value

instance (numbers : Numbers) : DecidableEq numbers.Value := numbers.decEq

variable (numbers : Numbers)

def Key.ofField (place : ℕ) : Option Json → Key numbers.Value
  | none => .undefined
  | some .null => .null
  | some (.bool value) => .bool value
  | some (.num literal) => .num (numbers.read literal)
  | some (.str value) => .str value
  | some (.arr _) | some (.obj _) => .object place

variable {numbers} in
def Key.truthy : Key numbers.Value → Bool
  | .undefined | .null => false
  | .bool value => value
  | .num value => value ≠ numbers.zero
  | .str value => value ≠ []
  | .object _ => true

/-- `getEntries`. -/
def getEntries (fileEntries : List Json) : List Json := fileEntries.filter fun entry => entryType entry ≠ js "session"

variable (entries : List Json)

/-- An entry, told by its place. -/
abbrev Entry := Fin entries.length

/-- `entry.id`. -/
def id (entry : Entry entries) : Key numbers.Value := Key.ofField numbers (2 * entry) (entries[entry].get? (js "id"))

/-- `entry.parentId`. -/
def parentId (entry : Entry entries) : Key numbers.Value :=
  Key.ofField numbers (2 * entry + 1) (entries[entry].get? (js "parentId"))

/-- The map by id: of `byId`, and of the nodes of a tree, which are told by their entries. -/
def byId : JsMap (Key numbers.Value) (Entry entries) :=
  (List.finRange entries.length).foldl (fun map entry => map.set (id numbers entries entry) entry) .empty

/-- `key ? byId.get(key) : undefined`. -/
def lookup (key : Key numbers.Value) : Option (Entry entries) :=
  if key.truthy then (byId numbers entries).get? key else none

/-- Where a walk goes on. -/
def above (entry : Entry entries) : Option (Entry entries) := lookup numbers entries (parentId numbers entries entry)

/-- `getBranch`; it yields nothing when the rounds do not suffice. -/
def getBranch (rounds : ℕ) (fromId leafId : Key numbers.Value) : Option (List (Entry entries)) :=
  let startId := if fromId = .undefined ∨ fromId = .null then leafId else fromId
  climb (above numbers entries) rounds (lookup numbers entries startId)

/-- The path that `buildSessionContext` collects. -/
def contextPath (rounds : ℕ) (leafId : Key numbers.Value) : Option (List (Entry entries)) :=
  if leafId = .null then some []
  else climb (above numbers entries) rounds (lookup numbers entries leafId <|> (List.finRange entries.length).getLast?)

/-- The nodes of a tree that have no parent, and the children of each node. -/
structure Tree where
  roots : List (Entry entries)
  children : Entry entries → List (Entry entries)

/-- One round of the second pass: the node of an entry is put below its parent. -/
def placeNode (tree : Tree entries) (entry : Entry entries) : Tree entries :=
  let node := ((byId numbers entries).get? (id numbers entries entry)).getD entry
  if parentId numbers entries entry = .null ∨ parentId numbers entries entry = id numbers entries entry then
    { tree with roots := tree.roots ++ [node] }
  else
    match (byId numbers entries).get? (parentId numbers entries entry) with
    | some parent =>
      { tree with children := Function.update tree.children parent (tree.children parent ++ [node]) }
    | none => { tree with roots := tree.roots ++ [node] }

/-- The tree before it is put into order. -/
def placeNodes : Tree entries := (List.finRange entries.length).foldl (placeNode numbers entries) ⟨[], fun _ => []⟩

/-- How children are put into order: by their times, where times that cannot be read may come anywhere. -/
abbrev Order := { sort : List (Entry entries) → List (Entry entries) // ∀ nodes, (sort nodes).Perm nodes }

/-- `getTree`; it yields nothing when the rounds do not suffice. -/
def getTree (order : Order entries) (rounds : ℕ) : Option (Tree entries) :=
  let tree := placeNodes numbers entries
  (sortAll order.1 rounds tree.children tree.roots.reverse).map fun children => { tree with children }

end PieAgent.Model.SessionTree
