import HeapAtlas.Proofs.Lists
import HeapAtlas.Proofs.Paths.Bounded
import HeapAtlas.Proofs.Paths.Levels

/-! The paths that a search without a deadline finds are the shortest ones, one for each way out. -/

namespace HeapAtlas

/-- A path hangs together: reference by reference it leads from a root to where it starts. -/
structure RootPath.Sound (graph : HeapGraph) (target : Slot) (path : RootPath) : Prop where
  start : path.nodes.head? = some target
  length : path.nodes.length = path.hops + 1
  nodup : path.nodes.Nodup
  /-- The last node is a root, and no other. -/
  isRoot_iff : ∀ index slot, path.nodes[index]? = some slot →
    (graph.isRoot slot = true ↔ index = path.hops)
  refers : ∀ index edge, path.edges[index]? = some edge → ∃ far near,
    path.nodes[index + 1]? = some far ∧ path.nodes[index]? = some near ∧
      graph.Refers edge far near

/-- One shortest path for every reference from a root to an object that is near enough. -/
structure ShortestPaths (graph : HeapGraph) (target : Slot) (maxDepth : Nat)
    (paths : List RootPath) : Prop where
  sound : ∀ path ∈ paths, path.Sound graph target
  ends : ∀ path ∈ paths, ∃ edge root node hops, hops < maxDepth ∧ path.hops = hops + 1 ∧
    path.EndsBy graph target edge root node hops
  exists_path : ∀ edge root node hops, graph.isRoot root = true → graph.Refers edge root node →
    graph.Distant target node hops → hops < maxDepth →
      ∃ path ∈ paths, path.EndsBy graph target edge root node hops
  once : ∀ edge root node hops, graph.isRoot root = true → graph.Refers edge root node →
    graph.Distant target node hops → hops < maxDepth →
      (paths.countP fun path => path.edges.getLast? = some edge) = 1
  ascends : paths.Pairwise fun earlier later => earlier.hops ≤ later.hops
  length_le : paths.length ≤ graph.edgeCount

variable {graph : HeapGraph} {target : Slot} {maxDepth : Nat}

namespace RootPath.EndsBy

variable {path : RootPath} {edge : Nat} {root node : Slot} {hops : Nat}

/-- Before its end a path runs along a chain, on which there are no roots. -/
theorem isRoot_iff (ends : path.EndsBy graph target edge root node hops) {index : Nat} {slot : Slot}
    (held : path.nodes[index]? = some slot) : graph.isRoot slot = true ↔ index = path.hops := by
  rw [ends.hops_eq]
  obtain ⟨nodes, edges, chain, length, rfl⟩ := ends.chain
  have size := chain.length_nodes
  dsimp only at held
  -- A node before the last one is on the chain, and the last one is the root.
  rcases getElem?_concat held with ⟨before, passed⟩ | ⟨rfl, rfl⟩
  · rw [chain.isRoot_of_mem (List.mem_of_getElem? passed)]
    refine iff_of_false (by simp) ?_
    omega
  · refine iff_of_true ends.isRoot ?_
    omega

/-- Each reference leads from the next node to the one where it stands. -/
theorem refers_of_getElem? (ends : path.EndsBy graph target edge root node hops) {index other : Nat}
    (held : path.edges[index]? = some other) :
    ∃ far near, path.nodes[index + 1]? = some far ∧ path.nodes[index]? = some near ∧
      graph.Refers other far near := by
  obtain ⟨nodes, edges, chain, _, rfl⟩ := ends.chain
  have size := chain.length_nodes
  dsimp only at held ⊢
  rcases getElem?_concat held with ⟨before, passed⟩ | ⟨rfl, rfl⟩
  · obtain ⟨far, near, atFar, atNear, leads⟩ := chain.refers_of_getElem? passed
    refine ⟨far, near, ?_, ?_, leads⟩
    · rw [List.getElem?_append_left (by omega), atFar]
    · rw [List.getElem?_append_left (by omega), atNear]
  · -- The last reference leads from the root to the end of the chain.
    refine ⟨root, node, ?_, ?_, ends.refers⟩
    · rw [← size, List.getElem?_concat_length]
    · have atEnd := chain.getLast?_nodes
      rw [List.getLast?_eq_getElem?, size, Nat.add_sub_cancel] at atEnd
      rw [List.getElem?_append_left (by omega), atEnd]

/-- A shortest chain passes no object twice, and it passes no root. -/
theorem nodup_nodes (ends : path.EndsBy graph target edge root node hops) : path.nodes.Nodup := by
  obtain ⟨nodes, edges, chain, length, rfl⟩ := ends.chain
  have least : ∀ other, graph.InHops target node other → edges.length ≤ other := by
    rw [length]
    exact ends.distant.2
  refine List.Nodup.append (chain.nodup_nodes least) (List.nodup_singleton _) ?_
  intro slot passed last
  cases List.mem_singleton.mp last
  -- The root at the end is no object of the chain, as none of those is a root.
  have notRoot := chain.isRoot_of_mem passed
  rw [ends.isRoot] at notRoot
  cases notRoot

/-- A path that ends by a reference from a root hangs together. -/
theorem sound (ends : path.EndsBy graph target edge root node hops) :
    path.Sound graph target where
  start := by
    obtain ⟨nodes, edges, chain, _, rfl⟩ := ends.chain
    simp [chain.head?_nodes]
  length := by
    obtain ⟨nodes, edges, chain, _, rfl⟩ := ends.chain
    simp [RootPath.hops, chain.length_nodes]
  nodup := ends.nodup_nodes
  isRoot_iff := fun _ _ => ends.isRoot_iff
  refers := fun _ _ => ends.refers_of_getElem?

end RootPath.EndsBy

namespace PathSearch

/-- Where an object lies at a distance, others lie at every smaller one. -/
theorem exists_distant_of_le {node : Slot} {hops less : Nat}
    (distant : graph.Distant target node hops) (few : less ≤ hops) :
    ∃ other, graph.Distant target other less := by
  -- The induction goes back hop by hop, as every object further away has a nearer one before it.
  induction hops generalizing node with
  | zero =>
    cases Nat.le_zero.mp few
    exact ⟨node, distant⟩
  | succ hops ih =>
    rcases Nat.lt_or_eq_of_le few with before | rfl
    · obtain ⟨_, nearer, _, _, nearby⟩ := distant.exists_nearer
      exact ih nearby (Nat.le_of_lt_succ before)
    · exact ⟨node, distant⟩

/-- Through enough levels the search comes to one that has no trails any more. -/
theorem Reached.advance (made : graph.Made) (within : target < graph.objectCount) (levels : Nat) :
    ∀ {depth : Nat} {trails : List Trail} {wave : Wave},
      Reached graph target maxDepth depth trails wave → graph.objectCount ≤ depth + levels →
      ∃ last, Reached graph target maxDepth last []
        (wave.advance graph maxDepth levels depth trails) := by
  induction levels with
  | zero =>
    intro depth trails wave reached enough
    -- No object lies as many hops away as there are objects.
    have none : trails = [] := by
      apply List.eq_nil_iff_forall_not_mem.mpr
      intro trail member
      have below := (reached.shortest trail member).distant.lt_objectCount made within
      omega
    subst none
    exact ⟨depth, reached⟩
  | succ levels ih =>
    intro depth trails wave reached enough
    rw [Wave.advance]
    cases trails with
    | nil => exact ⟨depth, reached⟩
    | cons trail rest =>
      rw [if_neg (by simp)]
      exact ih (reached.pass made within) (by omega)

/-- Once there are no trails any more, there is a path for every reference from a root. -/
theorem Reached.exists_path {last : Nat} {wave : Wave}
    (reached : Reached graph target maxDepth last [] wave) {edge : Nat} {root node : Slot}
    {hops : Nat} (isRoot : graph.isRoot root = true) (refers : graph.Refers edge root node)
    (distant : graph.Distant target node hops) (near : hops < maxDepth) :
    ∃ path ∈ wave.paths, path.EndsBy graph target edge root node hops := by
  refine reached.closed edge root node hops isRoot refers distant ?_ near
  -- An object beyond the last level would have one at that level before it.
  apply Nat.lt_of_not_le
  intro beyond
  obtain ⟨other, atLast⟩ := exists_distant_of_le distant beyond
  obtain ⟨trail, member, _⟩ := reached.all (Nat.lt_of_le_of_lt beyond near) other atLast
  cases member

/-- Different paths end by different references, so there are no more of them. -/
theorem Reached.length_paths_le (made : graph.Made) {depth : Nat} {trails : List Trail}
    {wave : Wave} (reached : Reached graph target maxDepth depth trails wave) :
    wave.paths.length ≤ graph.edgeCount := by
  -- Paths are told apart by their last references, which are all references of the heap.
  have listed : (wave.paths.map fun path => path.edges.getLast?) ⊆
      (List.range graph.edgeCount).map some := by
    intro last member
    obtain ⟨path, held, rfl⟩ := List.mem_map.mp member
    obtain ⟨edge, root, node, hops, _, _, ends⟩ := reached.ends path held
    rw [ends.getLast?_edges]
    have below := (made.lt_of_refers ends.refers).2.2
    exact List.mem_map.mpr ⟨edge, List.mem_range.mpr below, rfl⟩
  have count := (List.subperm_of_subset reached.once listed).length_le
  simpa using count

/-- Once there are no trails any more, all shortest paths are found. -/
theorem Reached.shortestPaths (made : graph.Made) {last : Nat} {wave : Wave}
    (reached : Reached graph target maxDepth last [] wave) :
    ShortestPaths graph target maxDepth wave.paths.reverse where
  sound := by
    intro path held
    obtain ⟨edge, root, node, hops, _, _, ends⟩ := reached.ends path (List.mem_reverse.mp held)
    exact ends.sound
  ends := by
    intro path held
    obtain ⟨edge, root, node, hops, _, near, ends⟩ := reached.ends path (List.mem_reverse.mp held)
    exact ⟨edge, root, node, hops, near, ends.hops_eq, ends⟩
  exists_path := by
    intro edge root node hops isRoot refers distant near
    obtain ⟨path, held, ends⟩ := reached.exists_path isRoot refers distant near
    exact ⟨path, List.mem_reverse.mpr held, ends⟩
  once := by
    -- The path that is there is the only one, as no two end by the same reference.
    intro edge root node hops isRoot refers distant near
    obtain ⟨path, held, ends⟩ := reached.exists_path isRoot refers distant near
    rw [List.countP_reverse]
    have counted := List.count_eq_one_of_mem reached.once (List.mem_map.mpr ⟨path, held, rfl⟩)
    rw [ends.getLast?_edges, List.count, List.countP_map] at counted
    rw [← counted]
    apply List.countP_congr
    intro other _
    simp
  ascends := by
    rw [List.pairwise_reverse]
    exact reached.ascends
  length_le := by
    rw [List.length_reverse]
    exact reached.length_paths_le made

/-- The paths that the search for all finds of an object that is no root, the first one in front. -/
def Wave.allPaths (graph : HeapGraph) (target : Slot) (maxDepth : Nat) : List RootPath :=
  ((Wave.mk [target] [] []).advance graph maxDepth (graph.objectCount + 1) 0
    [.ofTarget target]).paths.reverse

/-- The search for all finds the shortest paths. -/
theorem shortestPaths_allPaths (made : graph.Made) (within : target < graph.objectCount)
    (inner : graph.isRoot target = false) :
    ShortestPaths graph target maxDepth (Wave.allPaths graph target maxDepth) := by
  have start : Reached graph target maxDepth 0 [.ofTarget target] ⟨[target], [], []⟩ :=
    reached_start inner
  -- As many levels as there are objects, and one more, leave nothing unreached.
  obtain ⟨last, reached⟩ := start.advance made within (graph.objectCount + 1) (by omega)
  exact reached.shortestPaths made

/-- A search without a deadline ends with the first paths of the search for all. -/
theorem Keeps.answer {maxPaths : Nat} {search : Search} {wave : Wave}
    (keeps : Keeps maxPaths search wave) :
    search.paths.reverse = wave.paths.reverse.take maxPaths ∧ search.status ≠ .expired := by
  rcases keeps.stage with ⟨searching, _, _, paths, wanted, count⟩ | ⟨enough, suffix, length⟩
  · -- There are not even as many paths as were asked for.
    rw [paths, List.take_of_length_le (by rw [List.length_reverse]; omega), searching]
    exact ⟨rfl, by simp⟩
  · obtain ⟨others, split⟩ := suffix
    rw [← split, List.reverse_append, List.take_left' (by simpa using length), enough]
    exact ⟨rfl, by simp⟩

/-- A search for some paths finds the first ones of the search for all. -/
theorem pathsToRoot_eq_take (inner : graph.isRoot target = false) {limits : PathLimits}
    {now : Instant} {visited : VersionedBitSet} (usable : visited.Usable) :
    (pathsToRoot graph target limits .never now visited).1 =
        ⟨(Wave.allPaths graph target limits.maxDepth).take limits.maxPaths, true⟩ ∧
      (pathsToRoot graph target limits .never now visited).2.Usable := by
  unfold pathsToRoot
  by_cases none : limits.maxPaths = 0
  · simp [none, usable]
  · rw [if_neg none, if_neg (by simp [inner])]
    dsimp only
    -- At first only the target is marked, whatever was marked before.
    have cleared := usable.reset.ensureCount graph.objectCount
    have start : Keeps limits.maxPaths
        ⟨((visited.reset).ensureCount graph.objectCount).mark target, [], [], limits.maxPaths, 0,
          .searching⟩ ⟨[target], [], []⟩ := by
      refine ⟨cleared.mark target, .inl ⟨rfl, fun node => ?_, rfl, rfl, ?_, by simp⟩⟩
      case refine_2 => exact Nat.pos_of_ne_zero none
      rw [cleared.test_mark, usable.reset.test_ensureCount, usable.test_reset]
      simp
    have keeps : Keeps limits.maxPaths
        (PathSearch.advance graph limits .never now (graph.objectCount + 1) 0 [.ofTarget target]
          ⟨((visited.reset).ensureCount graph.objectCount).mark target, [], [], limits.maxPaths, 0,
            .searching⟩) _ := start.advance (graph.objectCount + 1)
    obtain ⟨paths, status⟩ := keeps.answer
    refine ⟨?_, keeps.usable⟩
    rw [paths, decide_eq_true status]
    rfl

end PathSearch

/-- A path that ends by a reference from a root is a way on which that root leads to its start. -/
theorem RootPath.EndsBy.leads {path : RootPath} {edge : Nat} {root node : Slot} {hops : Nat}
    (ends : path.EndsBy graph target edge root node hops) :
    graph.Leads target root (hops + 1) := by
  obtain ⟨nodes, edges, chain, rfl, _⟩ := ends.chain
  exact chain.leads.back ends.refers

namespace ShortestPaths

variable {paths : List RootPath}

/-- A root that leads to the start within the bound leaves a path that is no longer. -/
theorem exists_of_leads (shortest : ShortestPaths graph target maxDepth paths)
    (inner : graph.isRoot target = false) {root : Slot} {hops : Nat}
    (isRoot : graph.isRoot root = true) (leads : graph.Leads target root hops)
    (near : hops ≤ maxDepth) : ∃ path ∈ paths, path.hops ≤ hops := by
  rcases leads.exists_root inner with ⟨nodes, edges, chain, _⟩ |
    ⟨edge, last, node, least, isLast, refers, distant, few⟩
  · -- A root is not on any chain.
    have notRoot := chain.isRoot_of_mem (List.mem_of_getLast? chain.getLast?_nodes)
    rw [isRoot] at notRoot
    cases notRoot
  · obtain ⟨path, held, ends⟩ :=
      shortest.exists_path edge last node least isLast refers distant (by omega)
    exact ⟨path, held, by rw [ends.hops_eq]; exact few⟩

/-- There is no path when no root leads to the start within the bound. -/
theorem eq_nil_iff (shortest : ShortestPaths graph target maxDepth paths)
    (inner : graph.isRoot target = false) :
    paths = [] ↔ ¬ ∃ root hops, graph.isRoot root = true ∧ graph.Leads target root hops ∧
      hops ≤ maxDepth := by
  constructor
  · intro empty reached
    obtain ⟨root, hops, isRoot, leads, near⟩ := reached
    obtain ⟨path, held, _⟩ := shortest.exists_of_leads inner isRoot leads near
    rw [empty] at held
    cases held
  · -- Every path is itself a way on which a root leads to the start.
    intro unreached
    apply List.eq_nil_iff_forall_not_mem.mpr
    intro path held
    obtain ⟨edge, root, node, hops, near, _, ends⟩ := shortest.ends path held
    exact unreached ⟨root, hops + 1, ends.isRoot, ends.leads, near⟩

/-- No root leads to the start in fewer hops than the first path has. -/
theorem head?_hops_le (shortest : ShortestPaths graph target maxDepth paths)
    (inner : graph.isRoot target = false) {first : RootPath} (atHead : paths.head? = some first)
    {root : Slot} {hops : Nat} (isRoot : graph.isRoot root = true)
    (leads : graph.Leads target root hops) : first.hops ≤ hops := by
  cases paths with
  | nil => cases atHead
  | cons head rest =>
    cases atHead
    obtain ⟨_, _, _, far, bound, length, _⟩ := shortest.ends first List.mem_cons_self
    rcases Nat.lt_or_ge maxDepth hops with beyond | near
    · -- All paths are shorter than a way that is too long to count.
      omega
    · obtain ⟨path, held, few⟩ := shortest.exists_of_leads inner isRoot leads near
      rcases List.mem_cons.mp held with rfl | later
      · exact few
      · exact Nat.le_trans ((List.pairwise_cons.mp shortest.ascends).1 path later) few

end ShortestPaths

/-- The search from a root ends where it starts. -/
theorem pathsToRoot_of_isRoot (isRoot : graph.isRoot target = true) (limits : PathLimits)
    (deadline : Deadline) (now : Instant) (visited : VersionedBitSet) :
    (pathsToRoot graph target limits deadline now visited).1 =
        ⟨[⟨[target], []⟩].take limits.maxPaths, true⟩ ∧
      (pathsToRoot graph target limits deadline now visited).2 = visited := by
  obtain ⟨maxPaths, maxDepth⟩ := limits
  cases maxPaths with
  | zero => exact ⟨rfl, rfl⟩
  | succ more => simp [pathsToRoot, isRoot]

/--
Without a deadline a search gives as many paths as were asked for, and all if there are fewer.

A root has the one path without hops. Any other object has one shortest path for every reference
from a root that is near enough. There are none exactly if no root leads to the object within the
bound, and otherwise the first is as short as any way from a root.
-/
theorem pathsToRoot_shortest (made : graph.Made) (within : target < graph.objectCount)
    (maxDepth : Nat) :
    ∃ paths : List RootPath,
      (graph.isRoot target = true → paths = [⟨[target], []⟩]) ∧
      (graph.isRoot target = false → ShortestPaths graph target maxDepth paths) ∧
      (∀ (maxPaths : Nat) (now : Instant) (visited : VersionedBitSet), visited.Usable →
        (pathsToRoot graph target ⟨maxPaths, maxDepth⟩ .never now visited).1 =
            ⟨paths.take maxPaths, true⟩ ∧
          (pathsToRoot graph target ⟨maxPaths, maxDepth⟩ .never now visited).2.Usable ∧
          (paths.take maxPaths = [] ↔ maxPaths = 0 ∨ ¬ ∃ root hops, graph.isRoot root = true ∧
            graph.Leads target root hops ∧ hops ≤ maxDepth)) ∧
      ∀ first, paths.head? = some first → ∀ root hops, graph.isRoot root = true →
        graph.Leads target root hops → first.hops ≤ hops := by
  cases isRoot : graph.isRoot target with
  | true =>
    -- A root leads to itself without a hop.
    have reached : ∃ root hops, graph.isRoot root = true ∧ graph.Leads target root hops ∧
        hops ≤ maxDepth := ⟨target, 0, isRoot, .here, Nat.zero_le _⟩
    refine ⟨[⟨[target], []⟩], fun _ => rfl, by simp, ?_, ?_⟩
    · intro maxPaths now visited usable
      obtain ⟨answer, left⟩ := pathsToRoot_of_isRoot isRoot ⟨maxPaths, maxDepth⟩ .never now visited
      refine ⟨answer, ?_, ?_⟩
      · rw [left]
        exact usable
      · rw [List.take_eq_nil_iff]
        exact or_congr_right (iff_of_false (List.cons_ne_nil _ _) (not_not.mpr reached))
    · intro first atHead root hops _ _
      cases atHead
      exact Nat.zero_le _
  | false =>
    have shortest : ShortestPaths graph target maxDepth
        (PathSearch.Wave.allPaths graph target maxDepth) :=
      PathSearch.shortestPaths_allPaths made within isRoot
    refine ⟨_, by simp, fun _ => shortest, ?_, ?_⟩
    · intro maxPaths now visited usable
      obtain ⟨answer, left⟩ := PathSearch.pathsToRoot_eq_take isRoot usable
      refine ⟨answer, left, ?_⟩
      rw [List.take_eq_nil_iff, shortest.eq_nil_iff isRoot]
    · intro first atHead root hops isRootToo leads
      exact shortest.head?_hops_le isRoot atHead isRootToo leads

/-- In the ring, the third object is held by the second one, and that by the root. -/
theorem ring_pathsToRoot_shortest :
    Columns.ring.resolved.Made ∧ 2 < Columns.ring.resolved.objectCount ∧
      VersionedBitSet.empty.Usable ∧
      (pathsToRoot Columns.ring.resolved 2 ⟨5, 3⟩ .never 0 .empty).1 =
        ⟨[⟨[2, 1, 0], [1, 0]⟩], true⟩ ∧
      ∃ paths, ShortestPaths Columns.ring.resolved 2 3 paths ∧
        paths.take 5 = [⟨[2, 1, 0], [1, 0]⟩] := by
  have within : 2 < Columns.ring.resolved.objectCount := by decide +kernel
  have found : (pathsToRoot Columns.ring.resolved 2 ⟨5, 3⟩ .never 0 .empty).1
      = ⟨[⟨[2, 1, 0], [1, 0]⟩], true⟩ := by decide +kernel
  have inner : Columns.ring.resolved.isRoot 2 = false := by decide +kernel
  -- What the search gives for the ring is the beginning of the list that the theorem speaks of.
  obtain ⟨paths, _, shortest, answers, _⟩ :=
    pathsToRoot_shortest HeapGraph.made_ring within 3
  have answer := (answers 5 0 .empty VersionedBitSet.usable_empty).1
  rw [found] at answer
  exact ⟨HeapGraph.made_ring, within, VersionedBitSet.usable_empty, found, paths, shortest inner,
    (congrArg Outcome.value answer).symm⟩

end HeapAtlas
