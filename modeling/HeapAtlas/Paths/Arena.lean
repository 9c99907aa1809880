import HeapAtlas.Paths

/-! The search for paths as it lies in memory: an arena of steps, and a queue of places in it. -/

namespace HeapAtlas

namespace PathArena

/-- An object that was reached, the reference over which, and the place it was reached from. -/
structure Step where
  slot : Slot
  parent : UInt32
  edge : Nat
  depth : UInt32
  deriving DecidableEq, Inhabited

/-- The parent of the first step, which was reached from nowhere. -/
def noParent : UInt32 := 0xFFFFFFFF

/-- The first step, at the object asked for. -/
def Step.ofTarget (target : Slot) : Step := ⟨target, noParent, 0, 0⟩

/-- The step back over a reference, from a place to an object at a given depth. -/
def Step.back (position : Nat) (depth : UInt32) (arrival : InEdge) : Step :=
  ⟨arrival.source, .ofNat position, arrival.edge, depth⟩

/-- The objects and references from a place back to the first step, if it is `room` steps away. -/
def trace? (arena : Array Step) : (room position : Nat) → Option (List Slot × List Nat)
  | 0, _ => none
  | room + 1, position => do
    let step ← arena[position]?
    -- The first step alone holds no link.
    if step.parent = noParent then
      return ([step.slot], [])
    else
      let (nodes, edges) ← trace? arena room step.parent.toNat
      return (step.slot :: nodes, step.edge :: edges)

/-- The path to a place, if its links come to an end. -/
def materialise? (arena : Array Step) (position : Nat) : Option RootPath := do
  -- There are as many different steps as the arena holds.
  let (nodes, edges) ← trace? arena arena.size position
  return ⟨nodes.reverse, edges.reverse⟩

/-- A search under way; the places that are waiting stand first in first out. -/
structure State where
  visited : VersionedBitSet
  arena : Array Step
  queue : List Nat
  /-- The paths found so far, the latest in front. -/
  paths : List RootPath
  popped : Nat
  status : PathSearch.Status

/--
Follows one reference back from a place to an object at a given depth.

There is no state behind it if the arena's links do not come to an end.
-/
def follow (graph : HeapGraph) (limits : PathLimits) (position : Nat) (depth : UInt32)
    (state : State) (arrival : InEdge) : Option State :=
  let child := state.arena.size
  let arena := state.arena.push (.back position depth arrival)
  if state.status ≠ .searching then return state
  else if graph.isRoot arrival.source then do
    let path ← materialise? arena child
    return { state with
      arena := arena
      paths := path :: state.paths
      status := if limits.maxPaths ≤ state.paths.length + 1 then .enough else .searching }
  else
    -- Roots are never marked, so that each reference from a root makes a path of its own.
    let (new, visited) := state.visited.insert arrival.source
    if new ∧ depth.toNat < limits.maxDepth then
      return { state with visited := visited, arena := arena, queue := state.queue ++ [child] }
    else return { state with visited := visited }

/-- Follows the references back from a place that was taken from the queue. -/
def pop (graph : HeapGraph) (limits : PathLimits) (deadline : Deadline) (now : Instant)
    (position : Nat) (state : State) : Option State := do
  let state := { state with popped := state.popped + 1 }
  -- The clock is looked at once in a stride.
  if state.popped % PathSearch.stride = 0 ∧ deadline.expired now then
    return { state with status := .expired }
  else
    let step ← state.arena[position]?
    if limits.maxDepth ≤ step.depth.toNat then return state
    else
      (graph.inEdges step.slot).foldlM (follow graph limits position (step.depth + 1)) state

/-- Takes place after place from the queue until it is empty, for at most `room` places. -/
def run (graph : HeapGraph) (limits : PathLimits) (deadline : Deadline) (now : Instant) :
    (room : Nat) → State → Option State
  -- Places left in the queue would mean that the room was too small: no answer is given then.
  | 0, state => if state.status = .searching ∧ state.queue ≠ [] then none else some state
  | room + 1, state =>
    if state.status ≠ .searching then some state
    else
      match state.queue with
      | [] => some state
      | position :: queue => do
        let state ← pop graph limits deadline now position { state with queue := queue }
        run graph limits deadline now room state

/-- A search from an object that is no root, which takes no object twice from the queue. -/
def search (graph : HeapGraph) (target : Slot) (limits : PathLimits) (deadline : Deadline)
    (now : Instant) (visited : VersionedBitSet) : Option State :=
  -- The target counts as visited, so no path comes back to it.
  let visited := ((visited.reset).ensureCount graph.objectCount).mark target
  run graph limits deadline now graph.objectCount
    ⟨visited, #[.ofTarget target], [0], [], 0, .searching⟩

end PathArena

/-- The shortest paths as the arena gives them, if its search comes to an end. -/
def arenaPaths (graph : HeapGraph) (target : Slot) (limits : PathLimits) (deadline : Deadline)
    (now : Instant) (visited : VersionedBitSet) :
    Option (Outcome (List RootPath) × VersionedBitSet) :=
  -- Neither of these two answers looks at the clock or touches the marks.
  if limits.maxPaths = 0 then return (⟨[], true⟩, visited)
  else if graph.isRoot target then return (⟨[⟨[target], []⟩], true⟩, visited)
  else do
    let state ← PathArena.search graph target limits deadline now visited
    return (⟨state.paths.reverse, state.status ≠ .expired⟩, state.visited)

end HeapAtlas
