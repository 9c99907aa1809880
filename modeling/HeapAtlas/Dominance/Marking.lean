import HeapAtlas.BitSet.Shared
import HeapAtlas.Graph.Access
import HeapAtlas.Scan.Chunks

/-! Which objects the roots reach, marked level by level by workers that share the marks. -/

namespace HeapAtlas

/-- The order in which the objects of each level come to be worked on. -/
abbrev Schedule := (level : Nat) → List Slot → List Slot

namespace Schedule

/-- Objects in the order in which they were found. -/
def inOrder : Schedule := fun _ frontier => frontier

/-- Objects of a level that a worker takes at a time. -/
def frontierChunk : Nat := 4096

/-- One order for a crew of workers, each of whom does its chunks of a level without a break. -/
def ofWorkers (workers : Nat) : Schedule := fun _ frontier =>
  let chunks := (Scan.chunks frontier.length frontierChunk).map fun (index, chunk) =>
    (index, (frontier.drop chunk.start).take (chunk.stop - chunk.start))
  (Scan.dealt (Scan.crew workers chunks.length) chunks).flatMap (·.2)

/-- A schedule is fair when every object of a level is worked on once. -/
def Fair (schedule : Schedule) : Prop :=
  ∀ level frontier, (schedule level frontier).Perm frontier

end Schedule

namespace Marking

/-- The shared marks, and the objects found so far for the next level, the latest first. -/
structure Level where
  marks : SharedBitSet
  found : List Slot
  deriving DecidableEq, Inhabited

/-- Marks an object, which belongs to the next level if it was not marked before. -/
def Level.offer : Level → Slot → Level
  | ⟨marks, found⟩, slot =>
    -- One step marks and tells, so of workers that offer the same object only one keeps it.
    let (known, marks) := marks.testAndMark slot
    ⟨marks, if known then found else slot :: found⟩

/-- Offers objects one after another. -/
def Level.offerAll (state : Level) (slots : List Slot) : Level := slots.foldl Level.offer state

/-- Works on objects: offers whatever they refer to. -/
def expand (graph : HeapGraph) (marks : SharedBitSet) (frontier : List Slot) : Level :=
  frontier.foldl (fun state slot => state.offerAll (graph.referents slot)) ⟨marks, []⟩

/-- Works on level after level until one is empty, for at most `levels` levels. -/
def advance (graph : HeapGraph) (schedule : Schedule) :
    (levels : Nat) → (level : Nat) → Level → SharedBitSet
  | 0, _, state => state.marks
  | levels + 1, level, state =>
    if state.found.isEmpty then state.marks
    -- What was found last stands first, so it is turned around.
    else advance graph schedule levels (level + 1)
      (expand graph state.marks (schedule level state.found.reverse))

/-- The objects that the roots reach; every level but the last marks an object more. -/
def reachable (graph : HeapGraph) (schedule : Schedule) : DenseBitSet :=
  -- The roots are offered like the references of an object above them.
  let start : Level := ⟨.ofCount graph.objectCount, []⟩
  (advance graph schedule (graph.objectCount + 1) 0
    (start.offerAll (graph.roots.toList.map (·.1)))).toDense

end Marking

end HeapAtlas
