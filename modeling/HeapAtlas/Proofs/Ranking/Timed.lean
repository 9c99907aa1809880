import HeapAtlas.Proofs.Ranking.ByClass

/-! An index under a deadline: before it the whole one, and behind it one without instances. -/

namespace HeapAtlas.RankingIndex

variable (graph : HeapGraph) (sizes : RetainedSizes)

/-- An index is complete when there is no object, or when it was built before its deadline. -/
theorem build_complete_iff (options : IndexOptions) (deadline : Deadline) (now : Instant) :
    (build graph sizes options deadline now).complete = true ↔
      graph.objectCount = 0 ∨ deadline.expired now = false := by
  cases expired : deadline.expired now with
  | false => simp [build_early graph sizes options expired]
  | true => simp [build_late graph sizes options expired]

/-- Without objects the whole index is bare. -/
theorem whole_of_no_objects (options : IndexOptions) (none_ : graph.objectCount = 0) :
    whole graph sizes options = bare graph options := by
  -- There is no chunk, so no deadline is needed to leave all of them out.
  have count : Scan.chunkCount 0 options.chunkSize = 0 :=
    (Scan.chunkCount_eq_zero_iff _ _).mpr rfl
  rw [whole, none_, Scan.chunks, count]
  rfl

/-- A complete index is the one that is built of all chunks. -/
theorem build_of_complete {options : IndexOptions} {deadline : Deadline} {now : Instant}
    (complete : (build graph sizes options deadline now).complete = true) :
    build graph sizes options deadline now = ⟨whole graph sizes options, true⟩ := by
  -- An expired deadline leaves an index complete only where there are no objects.
  cases expired : deadline.expired now with
  | false => exact build_early graph sizes options expired
  | true =>
    rcases (build_complete_iff graph sizes options deadline now).mp complete with none_ | early
    · rw [build_late graph sizes options expired, whole_of_no_objects graph sizes options none_,
        decide_eq_true none_]
    · rw [expired] at early
      cases early

/-- At one reading of the clock an index covers all objects or none. -/
theorem covers_build (options : IndexOptions) (deadline : Deadline) (now : Instant) :
    Covers graph sizes (build graph sizes options deadline now).value
      (if deadline.expired now then [] else List.range graph.objectCount) := by
  -- With one reading the workers all stop before their first chunk, or never.
  cases expired : deadline.expired now with
  | false =>
    rw [build_early graph sizes options expired]
    exact covers_whole graph sizes options
  | true =>
    rw [build_late graph sizes options expired]
    exact covers_bare graph sizes options

/-- Whatever the deadline, an index ranks objects of the heap. -/
theorem lt_of_mem_byClass {graph : HeapGraph} {sizes : RetainedSizes} {options : IndexOptions}
    {deadline : Deadline} {now : Instant} {name : String} {topN : Nat} {key : SortKey}
    {slots : List Slot}
    (answer : (build graph sizes options deadline now).value.byClass graph name topN key
      = some slots) : ∀ slot ∈ slots, slot < graph.objectCount := by
  intro slot member
  have covered := (covers_build graph sizes options deadline now).mem_of_byClass answer slot member
  -- An index that covers nothing ranks nothing.
  split at covered
  · cases covered
  · exact List.mem_range.mp covered

/-- An index without objects has no totals, so that no class is asked for its category. -/
theorem Covers.topClasses_nil {index : RankingIndex} {graph : HeapGraph} {sizes : RetainedSizes}
    (covers : Covers graph sizes index []) {κ : Type} [Categorizer κ] (categorizer : κ)
    (topN : Nat) (key : SortKey) (filter : CategoryFilter) :
    index.topClasses graph categorizer topN key filter = ([], categorizer) := by
  -- Without objects no class has instances, so none is listed.
  have nothing : ∀ classSlot, (index.summary classSlot).instances = 0 := by
    intro classSlot
    by_cases within : classSlot < graph.classCount
    · rw [covers.summary_eq classSlot within]
      rfl
    · rw [← covers.size_classes] at within
      rw [summary, Array.getD_eq_getD_getElem?, Array.getElem?_eq_none (Nat.le_of_not_lt within)]
      rfl
  have totals : index.totalsByName graph = [] := by
    rw [totalsByName, ← List.isEmpty_iff, Std.TreeMap.isEmpty_toList]
    simp [nothing]
  rw [topClasses, totals]
  simp [categorized]

end HeapAtlas.RankingIndex
