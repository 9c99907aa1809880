import HeapAtlas.Proofs.Paths.Wave

/-! After each level of the search: which objects are visited and which paths are found. -/

namespace HeapAtlas

/--
A path goes back by a shortest chain to an object, and from there by a reference to a root.

The object is so many hops away from the start of the path.
-/
structure RootPath.EndsBy (graph : HeapGraph) (target : Slot) (path : RootPath)
    (edge : Nat) (root node : Slot) (hops : Nat) : Prop where
  isRoot : graph.isRoot root = true
  refers : graph.Refers edge root node
  distant : graph.Distant target node hops
  chain : ∃ nodes edges, graph.Chain target node nodes edges ∧ edges.length = hops ∧
    path = ⟨nodes ++ [root], edges ++ [edge]⟩

namespace RootPath.EndsBy

variable {graph : HeapGraph} {target root node : Slot} {path : RootPath} {edge hops : Nat}

/-- A path is one hop longer than the chain along which it goes back. -/
theorem hops_eq (ends : path.EndsBy graph target edge root node hops) :
    path.hops = hops + 1 := by
  obtain ⟨nodes, edges, _, length, rfl⟩ := ends.chain
  simp [RootPath.hops, length]

/-- Its last reference is the one from the root. -/
theorem getLast?_edges (ends : path.EndsBy graph target edge root node hops) :
    path.edges.getLast? = some edge := by
  obtain ⟨nodes, edges, _, _, rfl⟩ := ends.chain
  simp

end RootPath.EndsBy

namespace PathSearch

/-- A trail has come along a shortest chain of so many hops. -/
structure Trail.Shortest (graph : HeapGraph) (target : Slot) (depth : Nat) (trail : Trail) :
    Prop where
  chain : graph.Chain target trail.head trail.nodes.reverse trail.edges.reverse
  length : trail.edges.length = depth
  distant : graph.Distant target trail.head depth

variable {graph : HeapGraph} {target : Slot} {maxDepth depth : Nat} {trails : List Trail}
  {wave : Wave}

/-- A trail one reference further back is a shortest one if it leads that far away. -/
theorem Trail.Shortest.extend {trail : Trail} {arrival : InEdge}
    (shortest : trail.Shortest graph target depth)
    (refers : graph.Refers arrival.edge arrival.source trail.head)
    (distant : graph.Distant target arrival.source (depth + 1)) :
    (trail.extend arrival).Shortest graph target (depth + 1) where
  chain := by
    have chain := shortest.chain.back refers distant.isRoot
    simpa [Trail.extend] using chain
  length := by simp [Trail.extend, shortest.length]
  distant := distant

/-- A step from a trail to a root makes a path that ends by the reference from it. -/
theorem Trail.Shortest.endsBy {step : Trail × InEdge}
    (shortest : step.1.Shortest graph target depth)
    (refers : graph.Refers step.2.edge step.2.source step.1.head)
    (isRoot : graph.isRoot step.2.source = true) :
    (pathOf step).EndsBy graph target step.2.edge step.2.source step.1.head depth where
  isRoot := isRoot
  refers := refers
  distant := shortest.distant
  chain := by
    -- The chain is the trail turned round, with the root behind it.
    refine ⟨_, _, shortest.chain, ?_, ?_⟩
    · simp [shortest.length]
    · simp [pathOf, Trail.toPath, Trail.extend]

/-- What is known before a level, of the trails that it starts from and of what was found before. -/
structure Reached (graph : HeapGraph) (target : Slot) (maxDepth depth : Nat) (trails : List Trail)
    (wave : Wave) : Prop where
  /-- Up to the last level, just the objects up to this distance are visited. -/
  visited : depth ≤ maxDepth → ∀ node, node ∈ wave.visited ↔
    ∃ hops ≤ depth, graph.Distant target node hops
  shortest : ∀ trail ∈ trails, trail.Shortest graph target depth
  apart : (trails.map (·.head)).Nodup
  all : depth < maxDepth → ∀ node, graph.Distant target node depth →
    ∃ trail ∈ trails, trail.head = node
  ends : ∀ path ∈ wave.paths, ∃ edge root node hops, hops < depth ∧ hops < maxDepth ∧
    path.EndsBy graph target edge root node hops
  closed : ∀ edge root node hops, graph.isRoot root = true → graph.Refers edge root node →
    graph.Distant target node hops → hops < depth → hops < maxDepth →
      ∃ path ∈ wave.paths, path.EndsBy graph target edge root node hops
  /-- The latest path stands first, so that earlier ones are no longer. -/
  ascends : wave.paths.Pairwise fun later earlier => earlier.hops ≤ later.hops
  once : (wave.paths.map fun path => path.edges.getLast?).Nodup

/-- At first only the target is visited, and its trail is the only one. -/
theorem reached_start (inner : graph.isRoot target = false) :
    Reached graph target maxDepth 0 [.ofTarget target] ⟨[target], [], []⟩ where
  -- No hops away from the target there is only the target itself.
  visited := by
    intro _ node
    rw [List.mem_singleton]
    constructor
    · intro same
      rw [same]
      exact ⟨0, Nat.le_refl _, .atTarget inner⟩
    · intro near
      obtain ⟨hops, none, distant⟩ := near
      cases Nat.le_zero.mp none
      exact distant.eq_target
  shortest := by
    intro trail member
    cases List.mem_singleton.mp member
    exact ⟨.here inner, rfl, .atTarget inner⟩
  apart := by simp
  all := by
    intro _ node distant
    exact ⟨_, List.mem_singleton_self _, distant.eq_target.symm⟩
  ends := by simp
  closed := by
    intro edge root node hops _ _ _ below
    omega
  ascends := .nil
  once := by simp

namespace Reached

/-- Every step goes back over a reference to the head of a shortest trail. -/
theorem back (made : graph.Made) (within : target < graph.objectCount)
    (reached : Reached graph target maxDepth depth trails wave) {step : Trail × InEdge}
    (member : step ∈ stepsFrom graph maxDepth depth trails) :
    depth < maxDepth ∧ step.1.Shortest graph target depth ∧
      graph.Refers step.2.edge step.2.source step.1.head := by
  -- The step was read off the arriving references of the trail's head.
  obtain ⟨near, among, arrives⟩ := mem_stepsFrom.mp member
  have shortest := reached.shortest step.1 among
  exact ⟨near, shortest, (made.mem_inEdges (shortest.distant.lt made within)).mp arrives⟩

/-- Every reference to an object of the level is a step. -/
theorem exists_step (made : graph.Made) (within : target < graph.objectCount)
    (reached : Reached graph target maxDepth depth trails wave) (near : depth < maxDepth)
    {edge : Nat} {source node : Slot} (refers : graph.Refers edge source node)
    (distant : graph.Distant target node depth) :
    ∃ step ∈ stepsFrom graph maxDepth depth trails, step.2 = ⟨source, edge⟩ ∧
      step.1.head = node := by
  -- Every object of the level has a trail, and its arriving references are all followed.
  obtain ⟨trail, among, head⟩ := reached.all near node distant
  refine ⟨(trail, ⟨source, edge⟩), mem_stepsFrom.mpr ⟨near, among, ?_⟩, rfl, head⟩
  rw [head]
  exact (made.mem_inEdges (distant.lt made within)).mpr refers

/-- An object that a step leads to and that was not visited is one hop further away. -/
theorem distant_of_fresh (made : graph.Made) (within : target < graph.objectCount)
    (reached : Reached graph target maxDepth depth trails wave) {step : Trail × InEdge}
    (member : step ∈ stepsFrom graph maxDepth depth trails)
    (inner : graph.isRoot step.2.source = false) (fresh : step.2.source ∉ wave.visited) :
    graph.Distant target step.2.source (depth + 1) := by
  obtain ⟨near, shortest, refers⟩ := reached.back made within member
  obtain ⟨least, few, distant⟩ := shortest.distant.exists_back refers inner
  -- If it were nearer it would have been visited, and the step shows that it is no further.
  have unvisited : ¬ least ≤ depth := fun old =>
    fresh ((reached.visited (Nat.le_of_lt near) _).mpr ⟨least, old, distant⟩)
  have same : least = depth + 1 := by omega
  exact same ▸ distant

/-- After the level, the objects one hop further away are visited as well. -/
theorem visited_pass (made : graph.Made) (within : target < graph.objectCount)
    (reached : Reached graph target maxDepth depth trails wave) (near : depth + 1 ≤ maxDepth)
    (node : Slot) : node ∈ (wave.pass graph maxDepth depth trails).visited ↔
      ∃ hops ≤ depth + 1, graph.Distant target node hops := by
  rw [(Wave.took_pass trails wave).visited, reached.visited (by omega)]
  constructor
  · intro visited
    rcases visited with ⟨hops, few, distant⟩ | ⟨step, member, rfl, inner⟩
    · exact ⟨hops, by omega, distant⟩
    · obtain ⟨_, shortest, refers⟩ := reached.back made within member
      exact shortest.distant.exists_back refers inner
  · intro close
    obtain ⟨hops, few, distant⟩ := close
    rcases Nat.lt_or_eq_of_le few with less | rfl
    · exact .inl ⟨hops, by omega, distant⟩
    · -- An object one hop further away refers to one of this level.
      obtain ⟨edge, nearer, refers, inner, nearby⟩ := distant.exists_nearer
      obtain ⟨step, member, arrival, _⟩ :=
        reached.exists_step made within (by omega) refers nearby
      exact .inr ⟨step, member, by rw [arrival], inner⟩

/-- Every object one hop further away has a trail after the level, unless it is too far. -/
theorem exists_trail_pass (made : graph.Made) (within : target < graph.objectCount)
    (reached : Reached graph target maxDepth depth trails wave) (near : depth + 1 < maxDepth)
    {node : Slot} (distant : graph.Distant target node (depth + 1)) :
    ∃ trail ∈ (wave.pass graph maxDepth depth trails).next, trail.head = node := by
  -- The object refers to one of this level, so that a step leads to it.
  obtain ⟨edge, nearer, refers, inner, nearby⟩ := distant.exists_nearer
  obtain ⟨step, member, arrival, _⟩ := reached.exists_step made within (by omega) refers nearby
  have source : step.2.source = node := by rw [arrival]
  have fresh : step.2.source ∉ wave.visited := by
    intro known
    obtain ⟨hops, few, other⟩ := (reached.visited (by omega) _).mp known
    have same := distant.unique (source ▸ other)
    omega
  obtain ⟨trail, held, head⟩ :=
    (Wave.took_pass trails wave).reached near step member (source ▸ inner) fresh
  exact ⟨trail, held, head.trans source⟩

/-- Paths that are found in the level end by references to objects of the level. -/
theorem endsBy_of_mem (made : graph.Made) (within : target < graph.objectCount)
    (reached : Reached graph target maxDepth depth trails wave) {path : RootPath}
    (listed : path ∈ ((stepsFrom graph maxDepth depth trails).filter fun step =>
      graph.isRoot step.2.source).map pathOf) :
    depth < maxDepth ∧ ∃ edge root node, path.EndsBy graph target edge root node depth := by
  obtain ⟨step, member, rfl⟩ := List.mem_map.mp listed
  -- A path is listed for a step that leads to a root.
  obtain ⟨among, isRoot⟩ := List.mem_filter.mp member
  obtain ⟨near, shortest, refers⟩ := reached.back made within among
  exact ⟨near, _, _, _, shortest.endsBy refers isRoot⟩

/-- The steps of a level go over different references. -/
theorem nodup_steps (made : graph.Made) (within : target < graph.objectCount)
    (reached : Reached graph target maxDepth depth trails wave) :
    ((stepsFrom graph maxDepth depth trails).map (·.2.edge)).Nodup := by
  unfold stepsFrom
  split
  · rename_i near
    rw [List.nodup_iff_pairwise_ne, List.pairwise_map, List.pairwise_flatMap]
    constructor
    · -- The references that arrive at one object ascend.
      intro trail member
      have ascends := made.inEdges_ascend ((reached.shortest trail member).distant.lt made within)
      rw [List.pairwise_map] at ascends ⊢
      exact ascends.imp fun less => Nat.ne_of_lt less
    · -- Different trails have different heads, and a reference leads to one object only.
      have apart := reached.apart
      rw [List.nodup_iff_pairwise_ne, List.pairwise_map] at apart
      refine apart.imp_of_mem ?_
      intro first second inFirst inSecond differs one isOne two isTwo same
      obtain ⟨arrival, arrives, rfl⟩ := List.mem_map.mp isOne
      obtain ⟨other, comes, rfl⟩ := List.mem_map.mp isTwo
      have below := (reached.shortest first inFirst).distant.lt made within
      have belowToo := (reached.shortest second inSecond).distant.lt made within
      have leads := ((made.mem_inEdges below).mp arrives).2
      have equal : arrival.edge = other.edge := same
      rw [equal, ((made.mem_inEdges belowToo).mp comes).2] at leads
      exact differs (Option.some.inj leads).symm
  · simp

/-- No two paths end by the same reference, in this level as before it. -/
theorem once_pass (made : graph.Made) (within : target < graph.objectCount)
    (reached : Reached graph target maxDepth depth trails wave) :
    ((wave.pass graph maxDepth depth trails).paths.map fun path =>
      path.edges.getLast?).Nodup := by
  rw [Wave.paths_pass, List.map_append, List.map_reverse, List.map_map, List.nodup_append,
    List.nodup_reverse]
  refine ⟨?_, reached.once, ?_⟩
  · have roots : (((stepsFrom graph maxDepth depth trails).filter fun step =>
        graph.isRoot step.2.source).map (·.2.edge)).Nodup :=
      (reached.nodup_steps made within).sublist (List.filter_sublist.map _)
    have lasts := roots.map (Option.some_injective Nat)
    rw [List.map_map] at lasts
    simpa only [Function.comp_def, getLast?_edges_pathOf] using lasts
  · -- References that were met before lead to nearer objects.
    intro one isOne two isTwo same
    rw [List.mem_reverse, ← List.map_map] at isOne
    obtain ⟨new, isNew, rfl⟩ := List.mem_map.mp isOne
    obtain ⟨old, isOld, rfl⟩ := List.mem_map.mp isTwo
    obtain ⟨_, edge, root, node, ends⟩ := reached.endsBy_of_mem made within isNew
    obtain ⟨other, first, nearer, hops, less, _, before⟩ := reached.ends old isOld
    rw [ends.getLast?_edges, before.getLast?_edges] at same
    have leads := ends.refers.2
    rw [Option.some.inj same, before.refers.2] at leads
    have equal : nearer = node := Option.some.inj leads
    have distances := before.distant.unique (equal ▸ ends.distant)
    omega

/-- A reference from a root to an object of the level makes a path in it. -/
theorem exists_path_pass (made : graph.Made) (within : target < graph.objectCount)
    (reached : Reached graph target maxDepth depth trails wave) (near : depth < maxDepth)
    {edge : Nat} {root node : Slot} (isRoot : graph.isRoot root = true)
    (refers : graph.Refers edge root node) (distant : graph.Distant target node depth) :
    ∃ path ∈ (wave.pass graph maxDepth depth trails).paths,
      path.EndsBy graph target edge root node depth := by
  obtain ⟨step, member, arrival, rfl⟩ := reached.exists_step made within near refers distant
  have source : step.2.source = root := by rw [arrival]
  obtain ⟨_, shortest, leads⟩ := reached.back made within member
  have ends := shortest.endsBy leads (source ▸ isRoot)
  rw [arrival] at ends
  refine ⟨pathOf step, ?_, ends⟩
  -- The step back to the root is one of the level, which makes a path of it.
  rw [Wave.paths_pass, List.mem_append, List.mem_reverse]
  exact .inl (List.mem_map.mpr ⟨step, List.mem_filter.mpr ⟨member, source ▸ isRoot⟩, rfl⟩)

/-- All paths of a level have the same length, and earlier ones are shorter. -/
theorem ascends_pass (made : graph.Made) (within : target < graph.objectCount)
    (reached : Reached graph target maxDepth depth trails wave) :
    (wave.pass graph maxDepth depth trails).paths.Pairwise
      fun later earlier => earlier.hops ≤ later.hops := by
  rw [Wave.paths_pass, List.pairwise_append, List.pairwise_reverse]
  refine ⟨?_, reached.ascends, ?_⟩
  · -- Paths of one level are equally long, and those of earlier levels are shorter.
    apply List.pairwise_of_forall_mem_list
    intro one inOne two inTwo
    obtain ⟨_, _, _, _, ends⟩ := reached.endsBy_of_mem made within inOne
    obtain ⟨_, _, _, _, others⟩ := reached.endsBy_of_mem made within inTwo
    rw [ends.hops_eq, others.hops_eq]
  · intro new isNew old isOld
    obtain ⟨_, _, _, _, ends⟩ := reached.endsBy_of_mem made within (List.mem_reverse.mp isNew)
    obtain ⟨_, _, _, hops, less, _, before⟩ := reached.ends old isOld
    rw [ends.hops_eq, before.hops_eq]
    omega

/-- One level more is known after the search went through it. -/
theorem pass (made : graph.Made) (within : target < graph.objectCount)
    (reached : Reached graph target maxDepth depth trails wave) :
    Reached graph target maxDepth (depth + 1) (wave.pass graph maxDepth depth trails).next.reverse
      (wave.pass graph maxDepth depth trails) where
  visited := reached.visited_pass made within
  shortest := by
    intro trail held
    rcases (Wave.took_pass trails wave).kept trail (List.mem_reverse.mp held) with
      old | ⟨step, member, rfl, inner, fresh⟩
    · cases old
    · obtain ⟨_, shortest, refers⟩ := reached.back made within member
      exact shortest.extend refers (reached.distant_of_fresh made within member inner fresh)
  apart := by
    rw [List.map_reverse, List.nodup_reverse]
    exact (Wave.took_pass trails wave).apart
  all := by
    intro near node distant
    obtain ⟨trail, held, head⟩ := reached.exists_trail_pass made within near distant
    exact ⟨trail, List.mem_reverse.mpr held, head⟩
  ends := by
    intro path held
    rw [Wave.paths_pass, List.mem_append, List.mem_reverse] at held
    rcases held with new | old
    · obtain ⟨near, edge, root, node, ends⟩ := reached.endsBy_of_mem made within new
      exact ⟨edge, root, node, depth, Nat.lt_succ_self _, near, ends⟩
    · obtain ⟨edge, root, node, hops, less, near, ends⟩ := reached.ends path old
      exact ⟨edge, root, node, hops, by omega, near, ends⟩
  closed := by
    intro edge root node hops isRoot refers distant below near
    rcases Nat.lt_or_eq_of_le (Nat.le_of_lt_succ below) with before | rfl
    · -- A path that was found before is still there.
      obtain ⟨path, held, ends⟩ := reached.closed edge root node hops isRoot refers distant before
        near
      rw [Wave.paths_pass]
      exact ⟨path, List.mem_append_right _ held, ends⟩
    · exact reached.exists_path_pass made within near isRoot refers distant
  ascends := reached.ascends_pass made within
  once := reached.once_pass made within

end Reached

end PathSearch

end HeapAtlas
