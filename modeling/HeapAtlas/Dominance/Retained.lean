import HeapAtlas.Dominance.Marking
import HeapAtlas.Dominance.Tree

/-! Retained sizes: what would be freed if an object went, by the dominator tree. -/

namespace HeapAtlas

/-- What immediately dominates an object that the roots reach. -/
inductive Dominator where
  /-- Only the super-root, which refers to every root. -/
  | superRoot
  /-- An object. -/
  | object (slot : Slot)
  deriving DecidableEq, Repr, Inhabited

/-- Retained sizes and immediate dominators of all objects. -/
structure RetainedSizes where
  retained : Array Nat
  dominators : Array (Option Dominator)
  reachable : DenseBitSet
  reachableCount : Nat
  reachableTotal : Nat
  deriving DecidableEq, Inhabited

namespace RetainedSizes

/-- Adds an object's retained size to its dominator's, once all that it dominates is added to it. -/
def absorb (order : Postorder) (candidates : Dominance.Candidates) (sizes : RetainedSizes)
    (number : Nat) : RetainedSizes :=
  -- Whatever it dominates has a smaller number and is in `size` by now.
  let slot := order.slotAt number
  let size := sizes.retained.getD slot 0
  match (candidates[number]?).join with
  | some dominator =>
    if dominator < order.size then
      let parent := order.slotAt dominator
      { sizes with
        retained := sizes.retained.modify parent (Capped.add · size)
        dominators := sizes.dominators.setIfInBounds slot (some (.object parent)) }
    else
      { sizes with
        dominators := sizes.dominators.setIfInBounds slot (some .superRoot)
        reachableTotal := Capped.add sizes.reachableTotal size }
  | none =>
    { sizes with
      dominators := sizes.dominators.setIfInBounds slot (some .superRoot)
      reachableTotal := Capped.add sizes.reachableTotal size }

/-- The retained sizes of a heap, marked on a schedule. -/
def compute (graph : HeapGraph) (schedule : Schedule) : RetainedSizes :=
  let order := Postorder.ofGraph graph
  let candidates := Dominance.candidatesOf graph order
  let start : RetainedSizes :=
    { retained := graph.objects.map (·.size.toNat)
      dominators := Array.replicate graph.objectCount none
      reachable := Marking.reachable graph schedule
      reachableCount := order.size
      reachableTotal := 0 }
  -- A dominator has a larger number than what it dominates, so one pass upwards is enough.
  (List.range order.size).foldl (absorb order candidates) start

variable (sizes : RetainedSizes)

/-- The bytes that would be freed if an object went, for one that is not reached its own. -/
def retainedSize (slot : Slot) : Nat := sizes.retained.getD slot 0

/-- What immediately dominates an object, if it is reached. -/
def dominator? (slot : Slot) : Option Dominator := (sizes.dominators[slot]?).join

/-- The objects that something immediately dominates, ascending. -/
def dominatedBy (dominator : Dominator) : List Slot :=
  (List.range sizes.dominators.size).filter fun slot => sizes.dominator? slot = some dominator

/-- Whether the roots reach an object. -/
def isReachable (slot : Slot) : Bool := sizes.reachable.test slot

/-- Number of objects that the roots do not reach. -/
def unreachableCount : Nat := sizes.retained.size - sizes.reachableCount

end RetainedSizes

end HeapAtlas
