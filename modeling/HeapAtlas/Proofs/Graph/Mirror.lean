import Mathlib.Algebra.Order.BigOperators.Group.Finset
import HeapAtlas.Paths
import HeapAtlas.Proofs.Graph.Made

/-! The index of incoming references mirrors the outgoing ones, edge by edge. -/

namespace HeapAtlas

/-- As many references are kept apart as there are rows whose target has no slot. -/
theorem size_danglingOf (slot? : ObjectId → Option Slot) (edges : Ragged EdgeRow) :
    (danglingOf slot? edges).size
      = edges.items.toList.countP fun row => (slot? row.target).isNone := by
  -- A row is kept for its target, whatever its position.
  have rows : edges.items.toList.zipIdx.map (·.1) = edges.items.toList := by simp
  rw [danglingOf, List.size_toArray, List.length_filterMap_eq_countP]
  conv_rhs => rw [← rows, List.countP_map]
  refine List.countP_congr fun row _ => ?_
  by_cases missing : (slot? row.1.target).isNone <;> simp [missing]

/-- Every arrival is at one of the objects, so the objects together have all of them. -/
theorem sum_length_meantFor {pairs : List (Slot × InEdge)} {count : Nat}
    (inside : ∀ pair ∈ pairs, pair.1 < count) :
    ∑ target ∈ Finset.range count, (meantFor pairs target).length = pairs.length := by
  have targets : ∀ target ∈ (pairs.map (·.1) : Multiset Slot), target ∈ Finset.range count := by
    intro target member
    obtain ⟨pair, held, rfl⟩ := List.mem_map.mp (Multiset.mem_coe.mp member)
    exact Finset.mem_range.mpr (inside pair held)
  -- Counted target by target, the targets are counted once each.
  have counted := Multiset.sum_count_eq_card targets
  simpa only [length_meantFor, Multiset.coe_count, Multiset.coe_card, List.length_map] using counted

namespace HeapGraph

variable {graph : HeapGraph}

/-- What is said of an object's arrivals when they mirror the references of the heap. -/
structure Mirrored (graph : HeapGraph) (target : Slot) : Prop where
  /-- They are the references that lead to the object, each once, as the edges ascend. -/
  edges : (graph.inEdges target).map (·.edge)
    = (List.range graph.edgeCount).filter fun edge => (graph.edgeAt edge).target = some target
  /-- Each has for a source the one object among whose references the edge is. -/
  source : ∀ arrival ∈ graph.inEdges target, arrival.source < graph.objectCount ∧
    ∀ source, arrival.edge ∈ graph.outEdges source ↔ source = arrival.source
  /-- They ascend by source, and those of one source by their positions there. -/
  ascends : (graph.inEdges target).Pairwise fun one other =>
    one.source < other.source ∨ one.source = other.source ∧ one.edge < other.edge
  inSources : graph.inSources target = (graph.inEdges target).map (·.source)
  inDegree : graph.inDegree target = (graph.inEdges target).length
  /-- The direct retainers are the first ones up to the limit, and the number of all. -/
  retainers : ∀ limit, directRetainers graph target limit
    = ((graph.inEdges target).take (min limit (graph.inDegree target)), graph.inDegree target)

namespace Made

/-- What stands at a position is what is read there. -/
theorem bind_target_eq {edge : Nat} (within : edge < graph.edgeCount) :
    (graph.edges.items[edge]?).bind (·.target) = (graph.edgeAt edge).target := by
  rw [getElem?_eq_some_getD within default]
  rfl

/-- An object has as many arrivals as its offsets say. -/
theorem inDegree_eq (made : graph.Made) {target : Slot} (within : target < graph.objectCount) :
    graph.inDegree target = (graph.inEdges target).length := by
  rw [inEdges, made.incoming_eq.1.length_group within]
  rfl

/-- Only one object has a reference. -/
theorem source_eq (made : graph.Made) {edge : Nat} {one other : Slot}
    (first : edge ∈ graph.outEdges one) (second : edge ∈ graph.outEdges other) : one = other :=
  Nat.le_antisymm (made.tiled_edges.index_le first second (Nat.le_refl edge))
    (made.tiled_edges.index_le second first (Nat.le_refl edge))

/-- The arrivals of every object mirror the references of the heap. -/
theorem mirrored (made : graph.Made) {target : Slot} (within : target < graph.objectCount) :
    graph.Mirrored target where
  edges := by
    rw [made.incoming_eq.2 target within, map_edge_arrivalsAt made.tiled_edges]
    refine List.filter_congr fun edge member => ?_
    rw [bind_target_eq (List.mem_range.mp member)]
  source := by
    intro arrival member
    have refers := (made.mem_inEdges within).mp member
    refine ⟨(made.lt_of_refers refers).1, fun source => ⟨fun among => ?_, fun same => ?_⟩⟩
    · exact made.source_eq among refers.1
    · exact same ▸ refers.1
  ascends := by
    -- Later edges are held by later objects, or by the same.
    refine (List.pairwise_map.mp (made.inEdges_ascend within)).imp_of_mem ?_
    intro one other first second less
    have held := ((made.mem_inEdges within).mp first).1
    have behind := ((made.mem_inEdges within).mp second).1
    have order := made.tiled_edges.index_le held behind (Nat.le_of_lt less)
    rcases Nat.lt_or_eq_of_le order with before | same
    · exact .inl before
    · exact .inr ⟨same, less⟩
  inSources := rfl
  inDegree := made.inDegree_eq within
  retainers := by
    intro limit
    -- Taking more than there are is taking all of them.
    rw [directRetainers, made.inDegree_eq within, ← List.take_eq_take_min]

/-- Together the objects have an arrival for every reference that does not dangle. -/
theorem sum_inDegree (made : graph.Made) :
    ∑ target ∈ Finset.range graph.objectCount, graph.inDegree target
      = (graph.edges.items.toList.filterMap (·.target)).length := by
  have inside : ∀ pair ∈ arrivals graph.edges, pair.1 < graph.objectCount := by
    obtain ⟨columns, _, faultless, rfl⟩ := made.exists_columns
    exact faultless.arrivals_lt
  -- What arrives at an object are the references that are meant for it.
  have degrees : ∀ target ∈ Finset.range graph.objectCount,
      graph.inDegree target = (meantFor (arrivals graph.edges) target).length := by
    intro target member
    have within := Finset.mem_range.mp member
    rw [made.inDegree_eq within, made.incoming_eq.2 target within, arrivalsAt]
  rw [Finset.sum_congr rfl degrees, sum_length_meantFor inside, ← map_arrivals made.tiled_edges,
    List.length_map]

/-- A reference that has no slot to lead to is kept apart, and only such a one is. -/
theorem resolved_add_dangling (made : graph.Made) :
    (graph.edges.items.toList.filterMap (·.target)).length + graph.danglingCount
      = graph.edgeCount := by
  obtain ⟨columns, _, _, rfl⟩ := made.exists_columns
  -- Both numbers are counted in the rows of the references.
  have dangling : columns.resolved.danglingCount = columns.edges.items.toList.countP fun row =>
      (columns.objectSlot? columns.slotIndex row.target).isNone := size_danglingOf _ _
  have resolved : (columns.resolved.edges.items.toList.filterMap (·.target)).length
      = columns.edges.items.toList.countP fun row =>
          (columns.objectSlot? columns.slotIndex row.target).isSome := by
    rw [List.length_filterMap_eq_countP]
    show (columns.edges.items.map _).toList.countP _ = _
    rw [Array.toList_map, List.countP_map]
    rfl
  rw [dangling, resolved, Columns.edgeCount_resolved, ← Array.length_toList,
    List.length_eq_countP_add_countP fun row =>
      (columns.objectSlot? columns.slotIndex row.target).isSome]
  refine congrArg _ (List.countP_congr fun row _ => ?_)
  simp

/-- The references that lead somewhere, counted by their positions. -/
theorem length_filter_isSome (graph : HeapGraph) :
    ((List.range graph.edgeCount).filter fun edge => (graph.edgeAt edge).target.isSome).length
      = (graph.edges.items.toList.filterMap (·.target)).length := by
  have read := filterMap_range_getElem? graph.edges.items.toList
  rw [Array.length_toList] at read
  rw [← read, List.filterMap_filterMap, ← List.countP_eq_length_filter,
    List.length_filterMap_eq_countP]
  -- At a position in the list the read never falls back to the default.
  refine List.countP_congr fun edge member => ?_
  rw [Array.getElem?_toList, bind_target_eq (List.mem_range.mp member)]

end Made

/--
The index of incoming references mirrors the outgoing ones.

It holds for every object what leads there, and for all objects together what does not dangle.
-/
theorem incoming_mirrors_outgoing (made : graph.Made) :
    (∀ target < graph.objectCount, graph.Mirrored target) ∧
      ∑ target ∈ Finset.range graph.objectCount, graph.inDegree target
        = ((List.range graph.edgeCount).filter fun edge =>
            (graph.edgeAt edge).target.isSome).length ∧
      (∑ target ∈ Finset.range graph.objectCount, graph.inDegree target) + graph.danglingCount
        = graph.edgeCount := by
  refine ⟨fun target within => made.mirrored within, ?_, ?_⟩
  · -- Both sums are those of the counting sort.
    rw [made.sum_inDegree, Made.length_filter_isSome]
  · rw [made.sum_inDegree, made.resolved_add_dangling]

/-- In the ring, two references lead to each of its two objects, and one of five dangles. -/
theorem ring_incoming_mirrors_outgoing :
    Columns.ring.resolved.Made ∧ Columns.ring.resolved.Mirrored 1 ∧
      Columns.ring.resolved.inEdges 1 = [⟨0, 0⟩, ⟨2, 2⟩] ∧
      (∑ target ∈ Finset.range 4, Columns.ring.resolved.inDegree target) + 1 = 5 := by
  obtain ⟨mirrored, _, sum⟩ := incoming_mirrors_outgoing made_ring
  have objects : Columns.ring.resolved.objectCount = 4 := by decide +kernel
  have dangling : Columns.ring.resolved.danglingCount = 1 := by decide +kernel
  have edges : Columns.ring.resolved.edgeCount = 5 := by decide +kernel
  rw [objects, dangling, edges] at sum
  exact ⟨made_ring, mirrored 1 (by decide +kernel), by decide +kernel, sum⟩

end HeapGraph

end HeapAtlas
