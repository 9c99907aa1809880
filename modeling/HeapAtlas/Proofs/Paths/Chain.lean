import Mathlib.Data.List.Nodup
import Mathlib.Data.List.Perm.Subperm
import Mathlib.Data.Nat.Find
import HeapAtlas.Proofs.Graph.Made
import HeapAtlas.Proofs.Lists

/-! Chains of references back from an object, and how many hops away from it others lie. -/

namespace HeapAtlas.HeapGraph

/--
A chain of references that leads from an object to a target through objects that are no roots.

Nodes and edges are told from the target on, so that edge `i` leads from node `i + 1` to node `i`.
-/
inductive Chain (graph : HeapGraph) (target : Slot) : Slot → List Slot → List Nat → Prop where
  | here (inner : graph.isRoot target = false) : Chain graph target target [target] []
  | back {node source : Slot} {nodes : List Slot} {edges : List Nat} {edge : Nat}
      (chain : Chain graph target node nodes edges) (refers : graph.Refers edge source node)
      (inner : graph.isRoot source = false) :
      Chain graph target source (nodes ++ [source]) (edges ++ [edge])

/-- Some chain leads from an object to a target in so many hops. -/
def InHops (graph : HeapGraph) (target node : Slot) (hops : Nat) : Prop :=
  ∃ nodes edges, graph.Chain target node nodes edges ∧ edges.length = hops

/-- So many hops are the least in which a chain leads from an object to a target. -/
def Distant (graph : HeapGraph) (target node : Slot) (hops : Nat) : Prop :=
  graph.InHops target node hops ∧ ∀ other, graph.InHops target node other → hops ≤ other

/-- References lead from an object to a target in so many hops, past roots as well. -/
inductive Leads (graph : HeapGraph) (target : Slot) : Slot → Nat → Prop where
  | here : Leads graph target target 0
  | back {node source : Slot} {hops edge : Nat} (leads : Leads graph target node hops)
      (refers : graph.Refers edge source node) : Leads graph target source (hops + 1)

variable {graph : HeapGraph} {target node source : Slot} {nodes : List Slot} {edges : List Nat}

namespace Chain

/-- There is one more node than there are edges. -/
theorem length_nodes (chain : graph.Chain target node nodes edges) :
    nodes.length = edges.length + 1 := by
  induction chain with
  | here => rfl
  | back chain refers inner ih => simp [ih]

/-- The first node is the target. -/
theorem head?_nodes (chain : graph.Chain target node nodes edges) :
    nodes.head? = some target := by
  induction chain with
  | here => rfl
  | back chain refers inner ih => simp [ih]

/-- The object from which a chain leads to the target stands at its end. -/
theorem getLast?_nodes (chain : graph.Chain target node nodes edges) :
    nodes.getLast? = some node := by
  cases chain with
  | here => rfl
  | back chain refers inner => simp

/-- No object of a chain is a root. -/
theorem isRoot_of_mem (chain : graph.Chain target node nodes edges) {slot : Slot}
    (member : slot ∈ nodes) : graph.isRoot slot = false := by
  -- Each object came in with the proof that it is no root.
  induction chain with
  | here inner =>
    cases List.mem_singleton.mp member
    exact inner
  | back chain refers inner ih =>
    rcases List.mem_append.mp member with earlier | last
    · exact ih earlier
    · cases List.mem_singleton.mp last
      exact inner

/-- Every object of a chain has a chain of its own, which is no longer. -/
theorem inHops_of_mem (chain : graph.Chain target node nodes edges) {slot : Slot}
    (member : slot ∈ nodes) : ∃ hops ≤ edges.length, graph.InHops target slot hops := by
  -- The last object has the whole chain, any other the part that was there before.
  induction chain with
  | here inner =>
    cases List.mem_singleton.mp member
    exact ⟨0, Nat.le_refl _, [target], [], .here inner, rfl⟩
  | @back node source nodes edges edge chain refers inner ih =>
    rcases List.mem_append.mp member with earlier | last
    · obtain ⟨hops, fewer, reached⟩ := ih earlier
      refine ⟨hops, ?_, reached⟩
      simp only [List.length_append, List.length_singleton]
      omega
    · cases List.mem_singleton.mp last
      exact ⟨_, Nat.le_refl _, _, _, chain.back refers inner, rfl⟩

/-- Every object of a chain to an object of the heap is one itself. -/
theorem lt_of_mem (made : graph.Made) (within : target < graph.objectCount)
    (chain : graph.Chain target node nodes edges) {slot : Slot} (member : slot ∈ nodes) :
    slot < graph.objectCount := by
  -- The induction follows the chain, each reference of which comes from an object.
  induction chain with
  | here =>
    cases List.mem_singleton.mp member
    exact within
  | back chain refers inner ih =>
    rcases List.mem_append.mp member with earlier | last
    · exact ih earlier
    · cases List.mem_singleton.mp last
      exact (made.lt_of_refers refers).1

/-- Edge by edge, a chain leads from each node to the one before it. -/
theorem refers_of_getElem? (chain : graph.Chain target node nodes edges) {index edge : Nat}
    (held : edges[index]? = some edge) :
    ∃ far near, nodes[index + 1]? = some far ∧ nodes[index]? = some near ∧
      graph.Refers edge far near := by
  induction chain with
  | here => simp at held
  | @back node source nodes edges last chain refers inner ih =>
    have size := chain.length_nodes
    rcases getElem?_concat held with ⟨before, earlier⟩ | ⟨rfl, rfl⟩
    · -- The edges before the last one lie between the same nodes as before.
      obtain ⟨far, near, atFar, atNear, leads⟩ := ih earlier
      refine ⟨far, near, ?_, ?_, leads⟩
      · rw [List.getElem?_append_left (by omega), atFar]
      · rw [List.getElem?_append_left (by omega), atNear]
    · -- The last edge leads from the new node to the end of the chain before.
      refine ⟨source, node, ?_, ?_, refers⟩
      · rw [← size, List.getElem?_concat_length]
      · rw [List.getElem?_append_left (by omega)]
        have atEnd := chain.getLast?_nodes
        rw [List.getLast?_eq_getElem?, size, Nat.add_sub_cancel] at atEnd
        exact atEnd

end Chain

namespace Distant

variable {hops other edge : Nat}

/-- There is only one least number of hops. -/
theorem unique (distant : graph.Distant target node hops)
    (another : graph.Distant target node other) : hops = other :=
  Nat.le_antisymm (distant.2 _ another.1) (another.2 _ distant.1)

/-- Where there is a chain, there is a shortest one. -/
theorem exists_of_inHops (reached : graph.InHops target node hops) :
    ∃ least ≤ hops, graph.Distant target node least := by
  classical
  have some_ : ∃ count, graph.InHops target node count := ⟨hops, reached⟩
  exact ⟨Nat.find some_, Nat.find_le reached, Nat.find_spec some_,
    fun count chain => Nat.find_le chain⟩

/-- What refers to an object is at most one hop further away. -/
theorem exists_back (distant : graph.Distant target node hops)
    (refers : graph.Refers edge source node) (inner : graph.isRoot source = false) :
    ∃ least ≤ hops + 1, graph.Distant target source least := by
  obtain ⟨nodes, edges, chain, length⟩ := distant.1
  apply exists_of_inHops
  exact ⟨_, _, chain.back refers inner, by simp [length]⟩

/-- An object at a distance refers to one that is a hop nearer. -/
theorem exists_nearer (distant : graph.Distant target source (hops + 1)) :
    ∃ edge node, graph.Refers edge source node ∧ graph.isRoot source = false ∧
      graph.Distant target node hops := by
  obtain ⟨⟨nodes, edges, chain, length⟩, least⟩ := distant
  cases chain with
  | here => cases length
  | @back node source nodes edges edge chain refers inner =>
    have size : edges.length = hops := by simpa using length
    refine ⟨edge, node, refers, inner, ⟨nodes, edges, chain, size⟩, fun other shorter => ?_⟩
    -- A shorter chain to the nearer object would give a shorter one to this object.
    obtain ⟨_, others, way, count⟩ := shorter
    have further := least (other + 1) ⟨_, _, way.back refers inner, by simp [count]⟩
    omega

/-- Only the target itself is no hop away. -/
theorem eq_target (distant : graph.Distant target node 0) : node = target := by
  obtain ⟨⟨nodes, edges, chain, length⟩, _⟩ := distant
  cases chain with
  | here => rfl
  | back chain refers inner => simp at length

/-- The target is no hop away. -/
theorem atTarget (inner : graph.isRoot target = false) : graph.Distant target target 0 :=
  ⟨⟨[target], [], .here inner, rfl⟩, fun _ _ => Nat.zero_le _⟩

/-- What has a distance is no root. -/
theorem isRoot (distant : graph.Distant target node hops) : graph.isRoot node = false := by
  obtain ⟨⟨nodes, edges, chain, _⟩, _⟩ := distant
  exact chain.isRoot_of_mem (List.mem_of_getLast? chain.getLast?_nodes)

/-- An object at a distance from an object of the heap is one of the heap's. -/
theorem lt (made : graph.Made) (within : target < graph.objectCount)
    (distant : graph.Distant target node hops) : node < graph.objectCount := by
  obtain ⟨⟨nodes, edges, chain, _⟩, _⟩ := distant
  exact chain.lt_of_mem made within (List.mem_of_getLast? chain.getLast?_nodes)

end Distant

/-- A shortest chain passes no object twice. -/
theorem Chain.nodup_nodes (chain : graph.Chain target node nodes edges)
    (least : ∀ other, graph.InHops target node other → edges.length ≤ other) : nodes.Nodup := by
  induction chain with
  | here => exact List.nodup_singleton _
  | @back node source nodes edges edge chain refers inner ih =>
    simp only [List.length_append, List.length_singleton] at least
    have shorter : ∀ other, graph.InHops target node other → edges.length ≤ other := by
      intro other reached
      obtain ⟨_, others, way, count⟩ := reached
      have further := least (other + 1) ⟨_, _, way.back refers inner, by simp [count]⟩
      omega
    -- Had the object been passed before, the part up to there would be a shorter chain.
    have fresh : source ∉ nodes := by
      intro passed
      obtain ⟨hops, few, reached⟩ := chain.inHops_of_mem passed
      have further := least hops reached
      omega
    refine List.Nodup.append (ih shorter) (List.nodup_singleton _) ?_
    intro slot before last
    cases List.mem_singleton.mp last
    exact fresh before

/-- Distances are below the number of objects, as a shortest chain passes each at most once. -/
theorem Distant.lt_objectCount {hops : Nat} (made : graph.Made)
    (within : target < graph.objectCount) (distant : graph.Distant target node hops) :
    hops < graph.objectCount := by
  obtain ⟨⟨nodes, edges, chain, rfl⟩, least⟩ := distant
  -- A shortest chain has one object more than references, all of them distinct.
  have passed : nodes ⊆ List.range graph.objectCount := fun slot member =>
    List.mem_range.mpr (chain.lt_of_mem made within member)
  have count := (List.subperm_of_subset (chain.nodup_nodes least) passed).length_le
  rw [chain.length_nodes, List.length_range] at count
  omega

/-- Where a root leads to an object that is none, the last root on the way refers to a chain. -/
theorem Leads.exists_root {hops : Nat} (inner : graph.isRoot target = false)
    (leads : graph.Leads target source hops) :
    graph.InHops target source hops ∨
      ∃ edge root node least, graph.isRoot root = true ∧ graph.Refers edge root node ∧
        graph.Distant target node least ∧ least + 1 ≤ hops := by
  -- The induction follows the way from the target, until it meets the first root.
  induction leads with
  | here => exact .inl ⟨[target], [], .here inner, rfl⟩
  | @back node source hops edge leads refers ih =>
    rcases ih with reached | ⟨other, root, last, least, isRoot, ends, distant, few⟩
    · cases isRoot : graph.isRoot source with
      | true =>
        obtain ⟨least, few, distant⟩ := Distant.exists_of_inHops reached
        exact .inr ⟨edge, source, node, least, isRoot, refers, distant, by omega⟩
      | false =>
        obtain ⟨nodes, edges, chain, length⟩ := reached
        exact .inl ⟨_, _, chain.back refers isRoot, by simp [length]⟩
    · exact .inr ⟨other, root, last, least, isRoot, ends, distant, by omega⟩

/-- A chain leads to its target. -/
theorem Chain.leads (chain : graph.Chain target node nodes edges) :
    graph.Leads target node edges.length := by
  induction chain with
  | here => exact .here
  | back chain refers inner ih =>
    rw [List.length_append, List.length_singleton]
    exact ih.back refers

end HeapAtlas.HeapGraph
