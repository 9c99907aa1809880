import HeapAtlas.BitSet.Versioned
import HeapAtlas.Graph.Access
import HeapAtlas.Scan.Deadline

/-! Shortest ways from an object back to the roots that keep it alive. -/

namespace HeapAtlas

/-- A value, and whether the work behind it was done to the end. -/
structure Outcome (α : Type) where
  value : α
  complete : Bool
  deriving DecidableEq, Repr

/-- Bounds of a search: the number of paths and the hops of the longest one. -/
structure PathLimits where
  maxPaths : Nat
  maxDepth : Nat
  deriving DecidableEq, Repr

/-- A chain of references; edge `i` leads from node `i + 1` to node `i`, and the last is a root. -/
structure RootPath where
  nodes : List Slot
  edges : List Nat
  deriving DecidableEq, Repr, Inhabited

namespace RootPath

/-- Number of references. -/
def hops (path : RootPath) : Nat := path.edges.length

/-- The root at the end. -/
def root (path : RootPath) : Slot := path.nodes.getLastD 0

end RootPath

namespace PathSearch

/-- A way from the object asked for, the node reached last in front. -/
structure Trail where
  head : Slot
  nodes : List Slot
  edges : List Nat
  deriving DecidableEq, Inhabited

/-- The trail of the object asked for. -/
def Trail.ofTarget (target : Slot) : Trail := ⟨target, [target], []⟩

/-- The trail one reference further back. -/
def Trail.extend (trail : Trail) (arrival : InEdge) : Trail :=
  ⟨arrival.source, arrival.source :: trail.nodes, arrival.edge :: trail.edges⟩

/-- The path that a trail to a root makes. -/
def Trail.toPath (trail : Trail) : RootPath := ⟨trail.nodes.reverse, trail.edges.reverse⟩

/-- Why a search goes on or has ended. -/
inductive Status where
  | searching
  /-- As many paths as asked for. -/
  | enough
  /-- The deadline has come. -/
  | expired
  deriving DecidableEq, Repr

/-- A search under way; the trails of the next level and the paths are held latest first. -/
structure Search where
  visited : VersionedBitSet
  next : List Trail
  paths : List RootPath
  /-- The number of paths still asked for. -/
  wanted : Nat
  expanded : Nat
  status : Status
  deriving DecidableEq

/-- Trails are expanded in strides of this many, between which the clock is not looked at. -/
def stride : Nat := 1024

/--
Follows one reference back from a trail of `depth` hops.

A root ends a path at once. Any other object is visited once, and its trail is kept only if a root
behind it would still be near enough.
-/
def follow (graph : HeapGraph) (limits : PathLimits) (depth : Nat) (trail : Trail)
    (search : Search) (arrival : InEdge) : Search :=
  if search.status ≠ .searching then search
  else if graph.isRoot arrival.source then
    { search with
      paths := (trail.extend arrival).toPath :: search.paths
      wanted := search.wanted - 1
      status := if search.wanted ≤ 1 then .enough else .searching }
  else
    -- Roots are never marked, so that each reference from a root makes a path of its own.
    let (new, visited) := search.visited.insert arrival.source
    { search with
      visited := visited
      next := if new ∧ depth + 1 < limits.maxDepth then trail.extend arrival :: search.next
        else search.next }

/-- Expands one trail of `depth` hops, unless it is long enough already. -/
def expand (graph : HeapGraph) (limits : PathLimits) (deadline : Deadline) (now : Instant)
    (depth : Nat) (search : Search) (trail : Trail) : Search :=
  if search.status ≠ .searching then search
  else
    let search := { search with expanded := search.expanded + 1 }
    -- The clock is looked at once in a stride.
    if search.expanded % stride = 0 ∧ deadline.expired now then { search with status := .expired }
    else if limits.maxDepth ≤ depth then search
    else (graph.inEdges trail.head).foldl (follow graph limits depth trail) search

/-- Expands level after level until one is empty, for at most `levels` levels. -/
def advance (graph : HeapGraph) (limits : PathLimits) (deadline : Deadline) (now : Instant) :
    (levels : Nat) → (depth : Nat) → List Trail → Search → Search
  | 0, _, _, search => search
  | levels + 1, depth, trails, search =>
    if trails.isEmpty ∨ search.status ≠ .searching then search
    else
      -- Trails that are found in a level are put aside for the next one.
      let search := trails.foldl (expand graph limits deadline now depth)
        { search with next := [] }
      advance graph limits deadline now levels (depth + 1) search.next.reverse search

end PathSearch

/--
The shortest paths from an object to roots, and the visited set for later searches.

Equally short paths follow the order of the arriving references. A root has one path without hops.
-/
def pathsToRoot (graph : HeapGraph) (target : Slot) (limits : PathLimits) (deadline : Deadline)
    (now : Instant) (visited : VersionedBitSet) : Outcome (List RootPath) × VersionedBitSet :=
  if limits.maxPaths = 0 then (⟨[], true⟩, visited)
  else if graph.isRoot target then (⟨[⟨[target], []⟩], true⟩, visited)
  else
    -- The target counts as visited, so no path comes back to it.
    let visited := ((visited.reset).ensureCount graph.objectCount).mark target
    let search := PathSearch.advance graph limits deadline now (graph.objectCount + 1) 0
      [.ofTarget target] ⟨visited, [], [], limits.maxPaths, 0, .searching⟩
    (⟨search.paths.reverse, search.status ≠ .expired⟩, search.visited)

/-- The first references that arrive at an object, and the number of all. -/
def directRetainers (graph : HeapGraph) (slot : Slot) (limit : Nat) : List InEdge × Nat :=
  ((graph.inEdges slot).take limit, graph.inDegree slot)

end HeapAtlas
