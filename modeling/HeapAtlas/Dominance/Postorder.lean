import HeapAtlas.BitSet.Dense
import HeapAtlas.Graph.Access

/-! Depth-first numbering of the objects that the roots reach, children before parents. -/

namespace HeapAtlas

/-- Objects in the order in which they were left, and for each object its number in that order. -/
structure Postorder where
  slots : Array Slot
  numbers : Array (Option Nat)
  deriving DecidableEq, Inhabited

namespace Postorder

/-- An object that was entered, with the references still to be followed; the roots have none. -/
structure Frame where
  slot : Option Slot
  targets : List Slot
  deriving DecidableEq, Inhabited

/-- A walk under way: the objects entered and not left, the marks of all entered, and the order. -/
structure Walk where
  stack : List Frame
  visited : DenseBitSet
  order : Postorder
  deriving DecidableEq, Inhabited

/-- Gives an object the next number. -/
def add : Postorder → Slot → Postorder
  | ⟨slots, numbers⟩, slot =>
    -- Numbers are given from zero on, as objects are left.
    let number := slots.size
    ⟨slots.push slot, numbers.setIfInBounds slot (some number)⟩

/-- Follows the next reference of the object entered last, or leaves that object. -/
def Walk.step (graph : HeapGraph) : Walk → Walk
  | ⟨[], visited, order⟩ => ⟨[], visited, order⟩
  -- The roots are no object, so their frame goes without a number.
  | ⟨⟨none, []⟩ :: rest, visited, order⟩ => ⟨rest, visited, order⟩
  | ⟨⟨some slot, []⟩ :: rest, visited, order⟩ => ⟨rest, visited, order.add slot⟩
  | ⟨⟨slot, target :: targets⟩ :: rest, visited, order⟩ =>
    let (new, visited) := visited.insert target
    -- The target leaves its frame whether it is entered or not.
    let stack := ⟨slot, targets⟩ :: rest
    ⟨if new then ⟨some target, graph.referents target⟩ :: stack else stack, visited, order⟩

/-- Walks until nothing is entered, for at most `steps` steps. -/
def Walk.run (graph : HeapGraph) : (steps : Nat) → Walk → Walk
  | 0, walk => walk
  | steps + 1, walk => if walk.stack.isEmpty then walk else run graph steps (walk.step graph)

/-- A walk that is about to follow the roots in their order. -/
def Walk.start (graph : HeapGraph) : Walk :=
  { stack := [⟨none, graph.roots.toList.map (·.1)⟩]
    visited := .ofCount graph.objectCount
    order := ⟨#[], Array.replicate graph.objectCount none⟩ }

/-- Every root and every reference is followed once, and every object is left once. -/
def stepBound (graph : HeapGraph) : Nat :=
  graph.roots.size + graph.edgeCount + graph.objectCount + 1

/-- The order of a heap. -/
def ofGraph (graph : HeapGraph) : Postorder :=
  (Walk.run graph (stepBound graph) (Walk.start graph)).order

/-- Number of objects that were reached. -/
def size (order : Postorder) : Nat := order.slots.size

/-- The number of an object that was reached. -/
def number? (order : Postorder) (slot : Slot) : Option Nat := (order.numbers[slot]?).join

/-- The object with a number. -/
def slotAt (order : Postorder) (number : Nat) : Slot := order.slots.getD number 0

end Postorder

end HeapAtlas
