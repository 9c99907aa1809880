import HeapAtlas.Graph.Basic
import HeapAtlas.Proofs.Graph.Placing
import HeapAtlas.Proofs.Graph.Ragged
import HeapAtlas.Proofs.Lists

/-! The incoming references mirror the outgoing ones. -/

namespace HeapAtlas

/-- An arrival is a resolved reference, seen from its target. -/
theorem mem_arrivals {edges : Ragged EdgeEntry} {target : Slot} {arrival : InEdge} :
    (target, arrival) ∈ arrivals edges ↔
      arrival.source < edges.groupCount ∧ arrival.edge ∈ edges.positions arrival.source ∧
        (edges.items[arrival.edge]?).bind (·.target) = some target := by
  -- Arrivals are listed source by source, and among these edge by edge.
  simp only [arrivals, List.mem_flatMap, List.mem_range, List.mem_filterMap, Option.map_eq_some_iff,
    Prod.mk.injEq]
  constructor
  · intro listed
    obtain ⟨source, within, edge, among, other, leads, rfl, rfl⟩ := listed
    exact ⟨within, among, leads⟩
  · intro arrives
    obtain ⟨within, among, leads⟩ := arrives
    exact ⟨arrival.source, within, arrival.edge, among, target, leads, rfl, rfl⟩

/-- Of the references that arrive somewhere, those that arrive at one object. -/
def arrivalsAt (edges : Ragged EdgeEntry) (target : Slot) : List InEdge :=
  meantFor (arrivals edges) target

/-- Source by source, the arrivals have the targets that stand in the items. -/
theorem map_arrivals {groups : Nat} {edges : Ragged EdgeEntry} (tiled : edges.Tiled groups) :
    (arrivals edges).map (·.1) = edges.items.toList.filterMap (·.target) := by
  -- The positions of all groups together are the places of all items.
  have places : (arrivals edges).map (·.1)
      = (List.range edges.items.size).filterMap fun edge =>
          (edges.items[edge]?).bind (·.target) := by
    rw [arrivals, tiled.groupCount_eq, List.map_flatMap, ← tiled.flatMap_positions,
      List.filterMap_flatMap]
    simp only [List.map_filterMap, Option.map_map, Function.comp_def, Option.map_id']
  have read := filterMap_range_getElem? edges.items.toList
  rw [Array.length_toList] at read
  rw [places, ← read, List.filterMap_filterMap]
  simp only [Array.getElem?_toList]

/-- Counting adds, under each target, the entries that lead there. -/
theorem getElem?_foldl_countArrival (entries : List EdgeEntry) (counts : Array Nat)
    (target : Slot) :
    (entries.foldl countArrival counts)[target]?
      = (counts[target]?).map (· + (entries.filterMap (·.target)).count target) := by
  -- The induction is on the entries, with one more of them counted at each step.
  induction entries generalizing counts with
  | nil => simp
  | cons entry rest ih =>
    rw [List.foldl_cons, ih, countArrival]
    cases leads : entry.target with
    | none => simp [leads]
    | some other =>
      rw [Array.getElem?_modify, List.filterMap_cons_some leads, List.count_cons]
      -- An entry is counted once, at its own target.
      by_cases here : other = target
      · simp [here, Function.comp_def, Nat.add_assoc, Nat.add_comm 1]
      · simp [here]

/-- Counting adds no object. -/
theorem size_foldl_countArrival (entries : List EdgeEntry) (counts : Array Nat) :
    (entries.foldl countArrival counts).size = counts.size := by
  induction entries generalizing counts with
  | nil => rfl
  | cons entry rest ih =>
    rw [List.foldl_cons, ih, countArrival]
    -- A dangling reference counts nowhere.
    split
    · rw [Array.size_modify]
    · rfl

section Sorted

variable {count groups : Nat} {edges : Ragged EdgeEntry}

/-- Sorting by counting fills the group of every object with exactly what arrives there. -/
theorem filled_incomingOf (tiled : edges.Tiled groups)
    (inside : ∀ pair ∈ arrivals edges, pair.1 < count) :
    (incomingOf count edges).Tiled count ∧ ∀ target < count,
      (incomingOf count edges).group target = arrivalsAt edges target := by
  obtain ⟨sizes, sized⟩ : ∃ sizes, sizes = (arrivalCounts count edges).toList := ⟨_, rfl⟩
  have length : sizes.length = count := by
    rw [sized, Array.length_toList, arrivalCounts, ← Array.foldl_toList, size_foldl_countArrival,
      Array.size_replicate]
  -- A group is as large as the number of its arrivals.
  have size : ∀ target < count, sizes[target]? = some (arrivalsAt edges target).length := by
    intro target within
    rw [sized, Array.getElem?_toList, arrivalCounts, ← Array.foldl_toList,
      getElem?_foldl_countArrival, Array.getElem?_replicate, if_pos within, Option.map_some,
      Nat.zero_add, arrivalsAt, length_meantFor, map_arrivals tiled]
  have offset : ∀ index ≤ count, (Ragged.offsetsOf sizes)[index]? = some (sizes.take index).sum :=
    fun index upto => Ragged.getElem?_offsetsOf sizes (by omega)
  -- So each group ends right behind the last of its arrivals.
  have full : ∀ target < count, (Ragged.offsetsOf sizes).getD target 0
      + (arrivalsAt edges target).length = (Ragged.offsetsOf sizes).getD (target + 1) 0 := by
    intro target within
    rw [Array.getD_eq_getD_getElem?, Array.getD_eq_getD_getElem?, offset target (by omega),
      offset (target + 1) within, Option.getD_some, Option.getD_some, List.take_add_one,
      size target within, List.sum_append]
    simp
  have room : (Ragged.offsetsOf sizes).back?.getD 0 = sizes.sum := by
    rw [Array.back?_eq_getElem?, Ragged.size_offsetsOf, Nat.add_sub_cancel, length,
      offset count (Nat.le_refl _), ← length, List.take_length, Option.getD_some]
  -- Before any arrival is placed, every cursor stands at the start of its group.
  have empty : (⟨Ragged.offsetsOf sizes, Array.replicate sizes.sum ⟨0, 0⟩⟩ : Placing).Filled
      (Ragged.offsetsOf sizes) count [] := by
    refine ⟨length ▸ Ragged.tiled_offsetsOf Array.size_replicate, ?_, ?_⟩
    · intro target within
      rw [Array.getD_eq_getD_getElem?, offset target (by omega), Option.getD_some]
      rfl
    · intro target _ index less
      cases less
  have filled := empty.foldl_place inside fun target within => Nat.le_of_eq (full target within)
  rw [List.nil_append] at filled
  have made : incomingOf count edges = ⟨Ragged.offsetsOf sizes, ((arrivals edges).foldl
      Placing.place ⟨Ragged.offsetsOf sizes, Array.replicate sizes.sum ⟨0, 0⟩⟩).placed⟩ := by
    rw [incomingOf, ← sized, room]
  rw [made]
  exact ⟨filled.tiled, fun target within => filled.group_eq within (full target within)⟩

/-- The incoming group of an object holds exactly what arrives at it, in order. -/
theorem group_incomingOf (tiled : edges.Tiled groups)
    (inside : ∀ pair ∈ arrivals edges, pair.1 < count) {target : Slot} (within : target < count) :
    (incomingOf count edges).group target = arrivalsAt edges target :=
  (filled_incomingOf tiled inside).2 target within

end Sorted

/-- What arrives at an object, by its edges: all that lead there, counted through once. -/
theorem map_edge_arrivalsAt {groups : Nat} {edges : Ragged EdgeEntry} (tiled : edges.Tiled groups)
    (target : Slot) :
    (arrivalsAt edges target).map (·.edge) = (List.range edges.items.size).filter fun edge =>
      (edges.items[edge]?).bind (·.target) = some target := by
  -- An edge is kept when it leads to the target, whatever group it stands in.
  have kept : ∀ source edge : Nat,
      (((((edges.items[edge]?).bind (·.target)).map fun other =>
          (other, (⟨source, edge⟩ : InEdge))).bind fun pair =>
        if pair.1 = target then some pair.2 else none).map (·.edge))
      = if (edges.items[edge]?).bind (·.target) = some target then some edge else none := by
    intro source edge
    cases (edges.items[edge]?).bind (·.target) with
    | none => rfl
    | some other =>
      by_cases same : other = target
      · simp [same]
      · simp [same]
  rw [arrivalsAt, meantFor, arrivals, tiled.groupCount_eq, ← tiled.flatMap_positions,
    List.filterMap_flatMap, List.map_flatMap, List.filter_flatMap]
  refine List.flatMap_congr fun source _ => ?_
  rw [List.filterMap_filterMap, List.map_filterMap, ← List.filterMap_eq_filter]
  exact List.filterMap_congr fun edge _ => by simpa [Option.guard] using kept source edge

/-- The references that arrive at one object are listed in the order of the edges, each once. -/
theorem arrivalsAt_ascend {groups : Nat} {edges : Ragged EdgeEntry} (tiled : edges.Tiled groups)
    (target : Slot) : ((arrivalsAt edges target).map (·.edge)).Pairwise (· < ·) := by
  rw [map_edge_arrivalsAt tiled]
  exact List.pairwise_lt_range.filter _

/-- An object is among the sources of another exactly when it refers to it. -/
theorem mem_sources_incomingOf {count groups : Nat} {edges : Ragged EdgeEntry}
    (tiled : edges.Tiled groups) (inside : ∀ pair ∈ arrivals edges, pair.1 < count)
    {source target : Slot} (within : target < count) :
    source ∈ ((incomingOf count edges).group target).map (·.source) ↔
      target ∈ (edges.group source).filterMap (·.target) := by
  -- Both say that an edge at a position of the source leads to the target.
  rw [group_incomingOf tiled inside within]
  constructor
  · intro member
    -- An arrival is a position of its source, where a reference to the target stands.
    obtain ⟨arrival, arrives, rfl⟩ := List.mem_map.mp member
    obtain ⟨_, among, leads⟩ := mem_arrivals.mp (mem_meantFor.mp arrives)
    obtain ⟨edge, held, leads⟩ := Option.bind_eq_some_iff.mp leads
    exact List.mem_filterMap.mpr ⟨edge, Ragged.mem_group.mpr ⟨_, among, held⟩, leads⟩
  · intro member
    -- A reference in the group of a source stands at some position, where it arrives.
    obtain ⟨edge, inGroup, leads⟩ := List.mem_filterMap.mp member
    have isGroup := tiled.lt_of_mem_group inGroup
    obtain ⟨position, among, held⟩ := Ragged.mem_group.mp inGroup
    refine List.mem_map.mpr ⟨⟨source, position⟩,
      mem_meantFor.mpr (mem_arrivals.mpr ⟨?_, among, ?_⟩), rfl⟩
    · rw [tiled.groupCount_eq]
      exact isGroup
    · rw [held]
      exact leads

end HeapAtlas
