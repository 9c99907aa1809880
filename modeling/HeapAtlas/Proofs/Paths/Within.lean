import HeapAtlas.Paths
import HeapAtlas.Proofs.Graph.Reads

/-! A search for paths stays in the heap: whatever it holds are objects and references there. -/

namespace HeapAtlas

variable {graph : HeapGraph}

/-- A path through objects and references of the heap. -/
structure RootPath.Within (graph : HeapGraph) (path : RootPath) : Prop where
  nodes : ∀ node ∈ path.nodes, node < graph.objectCount
  edges : ∀ edge ∈ path.edges, edge < graph.edgeCount

namespace PathSearch

/-- A trail through objects and references of the heap. -/
structure Trail.Within (graph : HeapGraph) (trail : Trail) : Prop where
  head : trail.head < graph.objectCount
  nodes : ∀ node ∈ trail.nodes, node < graph.objectCount
  edges : ∀ edge ∈ trail.edges, edge < graph.edgeCount

/-- A search that has put aside only trails of the heap, and found only paths there. -/
structure Search.Within (graph : HeapGraph) (search : Search) : Prop where
  next : ∀ trail ∈ search.next, trail.Within graph
  paths : ∀ path ∈ search.paths, path.Within graph

/-- One reference further back a trail is still in the heap. -/
theorem Trail.Within.extend {trail : Trail} (inside : trail.Within graph) {arrival : InEdge}
    (source : arrival.source < graph.objectCount) (edge : arrival.edge < graph.edgeCount) :
    (trail.extend arrival).Within graph where
  head := source
  nodes := List.forall_mem_cons.mpr ⟨source, inside.nodes⟩
  edges := List.forall_mem_cons.mpr ⟨edge, inside.edges⟩

/-- A trail of the heap makes a path of the heap. -/
theorem Trail.Within.toPath {trail : Trail} (inside : trail.Within graph) :
    trail.toPath.Within graph where
  nodes := fun node member => inside.nodes node (List.mem_reverse.mp member)
  edges := fun edge member => inside.edges edge (List.mem_reverse.mp member)

namespace Search.Within

variable {limits : PathLimits} {deadline : Deadline} {now : Instant} {depth : Nat}
  {search : Search} {trail : Trail}

/-- Following a reference back leads to an object of the heap. -/
theorem follow (inside : search.Within graph) (behind : trail.Within graph) {arrival : InEdge}
    (source : arrival.source < graph.objectCount) (edge : arrival.edge < graph.edgeCount) :
    (PathSearch.follow graph limits depth trail search arrival).Within graph := by
  have longer := behind.extend source edge
  rw [PathSearch.follow]
  split
  · exact inside
  · split
    · -- Back to a root the trail makes a path.
      exact ⟨inside.next, List.forall_mem_cons.mpr ⟨longer.toPath, inside.paths⟩⟩
    · -- Any other object is put aside with its trail at most once.
      refine ⟨fun kept member => ?_, inside.paths⟩
      dsimp only at member
      split at member
      · rcases List.mem_cons.mp member with rfl | later
        · exact longer
        · exact inside.next kept later
      · exact inside.next kept member

/-- Expanding a trail reads what arrives at its head, and stays in the heap. -/
theorem expand (sound : graph.Sound) (inside : search.Within graph) (behind : trail.Within graph) :
    (PathSearch.expand graph limits deadline now depth search trail).Within graph := by
  -- What arrives at an object of the heap comes from one.
  have arrivals : ∀ (among : List InEdge), (∀ arrival ∈ among,
      arrival.source < graph.objectCount ∧ arrival.edge < graph.edgeCount) →
      ∀ {search : Search}, search.Within graph →
        (among.foldl (PathSearch.follow graph limits depth trail) search).Within graph := by
    intro among
    induction among with
    | nil => exact fun _ _ kept => kept
    | cons arrival rest ih =>
      intro bounds search kept
      obtain ⟨source, edge⟩ := bounds arrival List.mem_cons_self
      exact ih (fun later member => bounds later (List.mem_cons_of_mem _ member))
        (kept.follow behind source edge)
  have counted : Search.Within graph { search with expanded := search.expanded + 1 } :=
    ⟨inside.next, inside.paths⟩
  rw [PathSearch.expand]
  split
  · exact inside
  · dsimp only
    split
    · exact ⟨inside.next, inside.paths⟩
    · split
      · exact counted
      · exact arrivals _ (sound.readsObject behind.head).inEdges_lt counted

/-- Level after level a search stays in the heap. -/
theorem advance (sound : graph.Sound) (levels : Nat) :
    ∀ {depth : Nat} {trails : List Trail} {search : Search},
      (∀ trail ∈ trails, trail.Within graph) → search.Within graph →
        (PathSearch.advance graph limits deadline now levels depth trails search).Within graph := by
  -- A level starts from the trails that the one before has put aside.
  have level : ∀ (depth : Nat) (trails : List Trail), (∀ trail ∈ trails, trail.Within graph) →
      ∀ {search : Search}, search.Within graph →
        (trails.foldl (PathSearch.expand graph limits deadline now depth) search).Within graph := by
    intro depth trails
    induction trails with
    | nil => exact fun _ _ kept => kept
    | cons trail rest ih =>
      intro bounds search kept
      exact ih (fun later member => bounds later (List.mem_cons_of_mem _ member))
        (kept.expand sound (bounds trail List.mem_cons_self))
  -- The induction is on the levels that are left, whatever trails the next one starts from.
  induction levels with
  | zero => exact fun _ kept => kept
  | succ levels ih =>
    intro depth trails search bounds kept
    rw [PathSearch.advance]
    split
    · exact kept
    · have started : Search.Within graph { search with next := [] } := ⟨by simp, kept.paths⟩
      have passed := level depth trails bounds started
      exact ih (fun trail member => passed.next trail (List.mem_reverse.mp member)) passed

/-- A search from an object of the heap stays there, however many levels it goes through. -/
theorem ofTarget (sound : graph.Sound) {target : Slot} (within : target < graph.objectCount)
    (visited : VersionedBitSet) (levels wanted : Nat) :
    (PathSearch.advance graph limits deadline now levels 0 [.ofTarget target]
      ⟨visited, [], [], wanted, 0, .searching⟩).Within graph := by
  have start : (Trail.ofTarget target).Within graph :=
    ⟨within, List.forall_mem_singleton.mpr within, by simp [Trail.ofTarget]⟩
  exact advance sound levels (List.forall_mem_singleton.mpr start) ⟨by simp, by simp⟩

end Search.Within

end PathSearch

/-- The paths from an object of the heap go through objects and references of the heap. -/
theorem pathsToRoot_within (sound : graph.Sound) {target : Slot}
    (within : target < graph.objectCount) (limits : PathLimits) (deadline : Deadline)
    (now : Instant) (visited : VersionedBitSet) :
    ∀ path ∈ (pathsToRoot graph target limits deadline now visited).1.value,
      path.Within graph := by
  rw [pathsToRoot]
  split
  · simp
  · split
    · -- A root is a path of its own.
      exact List.forall_mem_singleton.mpr
        ⟨List.forall_mem_singleton.mpr within, by simp⟩
    · intro path member
      exact (PathSearch.Search.Within.ofTarget sound within _ _ _).paths path
        (List.mem_reverse.mp member)

end HeapAtlas
