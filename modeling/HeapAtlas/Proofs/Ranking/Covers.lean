import HeapAtlas.Proofs.Ranking.Totals

/-! An index of some of the objects, which are all of them unless it was cut off. -/

namespace HeapAtlas.RankingIndex

variable (graph : HeapGraph) (sizes : RetainedSizes)

/-- The finds of a class in some chunks are the largest of its instances in each of them. -/
theorem map_toSorted_partsOf (topK : Nat) (classSlot : Slot) (key : SortKey)
    (slotLists : List (List Slot)) :
    ((slotLists.map (partsOf graph sizes topK)).filterMap (·[classSlot]?)).map
        (fun part => (part.top key).toSorted) =
      (((slotLists.map (instancesAmong graph classSlot)).filter (· ≠ [])).map
        (·.map (rank graph sizes key))).map fun keys => (ascending keys).take topK := by
  -- A chunk without an instance has no part of the class, and gives no list to merge.
  induction slotLists with
  | nil => rfl
  | cons slots slotLists ih =>
    rw [List.map_cons, List.filterMap_cons, getElem?_partsOf, List.map_cons]
    by_cases empty : instancesAmong graph classSlot slots = []
    · rw [if_pos empty, List.filter_cons_of_neg (by simpa using empty)]
      exact ih
    · rw [if_neg empty, List.filter_cons_of_pos (by simpa using empty), List.map_cons,
        List.map_cons, ih, top_foldl_addInstance]
      have start : (noPart topK).top key = .empty topK := by cases key <;> rfl
      rw [start, TopK.toSorted_ofKeys]
      rfl

/-- The largest instances of a class are merged from its parts, by either size. -/
theorem ranked_combine (topK : Nat) (key : SortKey) (parts : List ClassPart) :
    (combine topK parts).ranked key =
      mergeSorted topK (parts.map fun part => (part.top key).toSorted) := by
  cases key <;> rfl

/-- Dealing out the parts of chunks adds no class. -/
theorem size_gather (classCount : Nat) (chunks : List (Std.HashMap Slot ClassPart)) :
    (gather classCount chunks).size = classCount := by
  induction chunks with
  | nil => simp [gather]
  | cons found chunks ih =>
    -- Parts are put into the lists of their classes, which makes no list and drops none.
    have modified : ∀ (pairs : List (Slot × ClassPart)) (gathered : Array (List ClassPart)),
        (pairs.foldl (fun gathered pair => gathered.modify pair.1 (pair.2 :: ·)) gathered).size
          = gathered.size := by
      intro pairs
      induction pairs with
      | nil => exact fun _ => rfl
      | cons pair pairs more =>
        intro gathered
        rw [List.foldl_cons, more, Array.size_modify]
    have step : gather classCount (found :: chunks) = found.toList.foldl
        (fun gathered pair => gathered.modify pair.1 (pair.2 :: ·))
        (gather classCount chunks) := Std.HashMap.fold_eq_foldl_toList
    rw [step, modified, ih]

/--
An index has exactly some of the objects in it.

Every class has the totals of those that are its instances, and the largest of them by either size.
-/
structure Covers (index : RankingIndex) (slots : List Slot) : Prop where
  size_classes : index.classes.size = graph.classCount
  summary_eq : ∀ classSlot < graph.classCount,
    index.summary classSlot = totalsOf graph sizes (instancesAmong graph classSlot slots)
  ranked_eq : ∀ classSlot < graph.classCount, ∀ key,
    (index.classes[classSlot]?).map (·.ranked key) =
      some ((ascending ((instancesAmong graph classSlot slots).map (rank graph sizes key))).take
        index.topK)

/-- What was found in lists of objects makes an index of all objects in them. -/
theorem covers_ofParts (topK : Nat) (slotLists : List (List Slot)) :
    Covers graph sizes (ofParts graph topK (slotLists.map (partsOf graph sizes topK)))
      slotLists.flatten := by
  have entry : ∀ classSlot < graph.classCount,
      (ofParts graph topK (slotLists.map (partsOf graph sizes topK))).classes[classSlot]? =
        some (combine topK ((slotLists.map (partsOf graph sizes topK)).filterMap
          (·[classSlot]?))) := by
    intro classSlot within
    rw [ofParts, Array.getElem?_map, getElem?_gather within, Option.map_some]
  -- The instances of a class in all lists are those in each of them, one list behind the other.
  have among (classSlot : Slot) : (slotLists.map (instancesAmong graph classSlot)).flatten =
      instancesAmong graph classSlot slotLists.flatten := (List.filter_flatten ..).symm
  refine ⟨by rw [ofParts, Array.size_map, size_gather], fun classSlot within => ?_,
    fun classSlot within key => ?_⟩
  · have sums := foldl_summary_partsOf graph sizes topK classSlot slotLists []
    rw [summary, Array.getD_eq_getD_getElem?, entry classSlot within, Option.getD_some]
    rwa [List.nil_append, among] at sums
  · rw [entry classSlot within, Option.map_some, ranked_combine, map_toSorted_partsOf,
      mergeSorted_take (Nat.le_refl _), ← List.map_flatten, List.flatten_filter_ne_nil, among]
    rfl

variable {graph sizes} {index : RankingIndex} {slots : List Slot}

/-- What an index answers for a class name: the largest objects of all classes of the name. -/
theorem Covers.byClass (covers : Covers graph sizes index slots) (name : String) (topN : Nat)
    (key : SortKey) :
    index.byClass graph name topN key =
      if graph.classesNamed name = [] then none
      else some (((ascending ((graph.classesNamed name).flatMap fun classSlot =>
        (instancesAmong graph classSlot slots).map (rank graph sizes key))).take
          (min topN index.topK)).map (·.slot)) := by
  -- Every class of the name is ranked.
  have lists : ((graph.classesNamed name).filterMap (index.classes[·]?)).map (·.ranked key) =
      ((graph.classesNamed name).map fun classSlot =>
        (instancesAmong graph classSlot slots).map (rank graph sizes key)).map
          fun keys => (ascending keys).take index.topK := by
    rw [List.map_filterMap, List.map_map, ← List.filterMap_eq_map]
    refine List.filterMap_congr fun classSlot named => ?_
    exact covers.ranked_eq classSlot (List.mem_range.mp (List.mem_filter.mp named).1) key
  rw [RankingIndex.byClass]
  cases held : (graph.classesNamed name).filterMap (index.classes[·]?) with
  | nil =>
    rw [held, List.map_map] at lists
    rw [if_pos (List.map_eq_nil_iff.mp lists.symm)]
  | cons first rest =>
    rw [held] at lists
    have some_ : graph.classesNamed name ≠ [] := by
      intro empty
      rw [empty] at held
      cases held
    rw [if_neg some_]
    dsimp only
    rw [lists, mergeSorted_take (Nat.min_le_right _ _), ← List.flatMap_def]

/-- What an index answers for a class name are objects that it covers. -/
theorem Covers.mem_of_byClass (covers : Covers graph sizes index slots) {name : String}
    {topN : Nat} {key : SortKey} {listed : List Slot}
    (answer : index.byClass graph name topN key = some listed) : ∀ slot ∈ listed, slot ∈ slots := by
  intro slot member
  rw [covers.byClass] at answer
  split at answer
  · cases answer
  · cases answer
    -- What is ranked was counted through as an instance of some class.
    obtain ⟨ranked, taken, rfl⟩ := List.mem_map.mp member
    have among := (ascending_perm _).mem_iff.mp (List.mem_of_mem_take taken)
    obtain ⟨classSlot, _, held⟩ := List.mem_flatMap.mp among
    obtain ⟨instance_, counted, rfl⟩ := List.mem_map.mp held
    exact (List.mem_filter.mp counted).1

end HeapAtlas.RankingIndex
