import HeapAtlas.Proofs.Graph.Made
import HeapAtlas.Proofs.Ranking.Scanned

/-! The largest instances of a class name, which no chunk, worker or class of the name loses. -/

namespace HeapAtlas

namespace RankingIndex

variable (graph : HeapGraph) (sizes : RetainedSizes)

/-- The instances of all classes of a name among some objects. -/
def instancesOfName (name : String) (slots : List Slot) : List Slot :=
  slots.filter fun slot => graph.className (graph.classOf slot) = name

/-- The instances of all classes of a name. -/
def instancesNamed (name : String) : List Slot :=
  instancesOfName graph name (List.range graph.objectCount)

/-- One object stands before another: it is larger, or as large with the smaller identifier. -/
def Outranks (key : SortKey) (one other : Slot) : Prop :=
  sizeBy graph sizes key other < sizeBy graph sizes key one ∨
    sizeBy graph sizes key one = sizeBy graph sizes key other ∧
      (graph.objectId one).raw < (graph.objectId other).raw

/-- The classes of a name together have all instances of the name among some objects. -/
theorem instances_perm {graph : HeapGraph} (made : graph.Made) {slots : List Slot}
    (within : ∀ slot ∈ slots, slot < graph.objectCount) (name : String) :
    ((graph.classesNamed name).flatMap fun classSlot => instancesAmong graph classSlot slots).Perm
      (instancesOfName graph name slots) := by
  have distinct : (graph.classesNamed name).Nodup := List.nodup_range.filter _
  refine (Scan.flatMap_filter_perm graph.classOf distinct _).trans (.of_eq ?_)
  refine List.filter_congr fun slot member => ?_
  -- The class of an object of the heap is one of its classes.
  have classWithin := made.classOf_lt (within slot member)
  rw [decide_eq_decide, HeapGraph.classesNamed, List.mem_filter]
  simp [classWithin]

/-- Of two objects the one that comes first in the order of ranked objects outranks the other. -/
theorem outranks_of_isLE {graph : HeapGraph} (made : graph.Made) {sizes : RetainedSizes}
    {key : SortKey} {one other : Slot} (oneWithin : one < graph.objectCount)
    (otherWithin : other < graph.objectCount) (differ : one ≠ other)
    (below : (compare (rank graph sizes key one) (rank graph sizes key other)).isLE) :
    Outranks graph sizes key one other := by
  rw [show compare (rank graph sizes key one) (rank graph sizes key other) =
    (compare (sizeBy graph sizes key other) (sizeBy graph sizes key one)).then
      ((compare (graph.objectId one).raw (graph.objectId other).raw).then
        (compare one other)) from rfl] at below
  rcases Nat.lt_trichotomy (sizeBy graph sizes key other) (sizeBy graph sizes key one) with
    less | same | more
  · exact .inl less
  · -- As large as each other, they stand in the order of their identifiers, which is their own.
    refine .inr ⟨same.symm, ?_⟩
    rcases Nat.lt_or_gt_of_ne differ with before | after
    · exact made.objectId_lt before otherWithin
    · have reversed : compare (graph.objectId one).raw (graph.objectId other).raw = .gt :=
        Std.compare_eq_gt.mpr (made.objectId_lt after oneWithin)
      rw [Nat.compare_eq_eq.mpr same, reversed] at below
      cases below
  · rw [Nat.compare_eq_gt.mpr more] at below
    cases below

/-- Ranked in ascending order, each instance stands before all later ones. -/
theorem ranking_pairwise {graph : HeapGraph} (made : graph.Made) (sizes : RetainedSizes)
    (name : String) (key : SortKey) :
    ((ascending ((instancesNamed graph name).map (rank graph sizes key))).map (·.slot)).Pairwise
      (Outranks graph sizes key) := by
  have perm := ascending_perm ((instancesNamed graph name).map (rank graph sizes key))
  -- Ranked objects differ, so that of two one compares less.
  have distinct : (ascending ((instancesNamed graph name).map (rank graph sizes key))).Nodup := by
    refine perm.nodup_iff.mpr (List.Nodup.map ?_ (List.nodup_range.filter _))
    exact fun one other same => congrArg Ranked.slot same
  rw [List.pairwise_map]
  refine ((ascends_ascending _).and distinct).imp_of_mem fun {one other} here there => ?_
  obtain ⟨first, firstHeld, rfl⟩ := List.mem_map.mp (perm.mem_iff.mp here)
  obtain ⟨second, secondHeld, rfl⟩ := List.mem_map.mp (perm.mem_iff.mp there)
  intro both
  obtain ⟨below, differ⟩ := both
  refine outranks_of_isLE made (List.mem_range.mp (List.mem_filter.mp firstHeld).1)
    (List.mem_range.mp (List.mem_filter.mp secondHeld).1) (fun same => differ ?_) below
  exact congrArg (rank graph sizes key) same

/-- No two objects outrank each other. -/
theorem Outranks.asymm {graph : HeapGraph} {sizes : RetainedSizes} {key : SortKey}
    {one other : Slot} (before : Outranks graph sizes key one other) :
    ¬ Outranks graph sizes key other one := by
  intro after
  -- Sizes decide first; among equal ones the identifiers, which are ordered strictly.
  rcases before with larger | ⟨same, less⟩
  · rcases after with smaller | ⟨same, _⟩
    · omega
    · omega
  · rcases after with smaller | ⟨_, more⟩
    · omega
    · exact UInt64.lt_asymm less more

/--
Of all instances of a class name there is one ranking, and an index that was built without a
deadline answers with its beginning, whatever the chunks and the workers were.
-/
theorem byClass_eq_ranking {graph : HeapGraph} (made : graph.Made) (sizes : RetainedSizes)
    (name : String) (key : SortKey) :
    ∃ ranking : List Slot, ranking.Perm (instancesNamed graph name) ∧
      ranking.Pairwise (Outranks graph sizes key) ∧
        ∀ (options : IndexOptions) (now : Instant) (topN : Nat),
          (build graph sizes options .never now).complete = true ∧
          ((build graph sizes options .never now).value.byClass graph name topN key = none ↔
            ∀ classSlot < graph.classCount, graph.className classSlot ≠ name) ∧
          ∀ classSlot < graph.classCount, graph.className classSlot = name →
            (build graph sizes options .never now).value.byClass graph name topN key =
              some (ranking.take (min topN options.topK)) := by
  have perm := (instances_perm made (fun slot => List.mem_range.mp) name).map (rank graph sizes key)
  rw [List.map_flatMap] at perm
  refine ⟨(ascending ((instancesNamed graph name).map (rank graph sizes key))).map (·.slot),
    ?_, ?_, ?_⟩
  · have slots := (ascending_perm ((instancesNamed graph name).map (rank graph sizes key))).map
      (·.slot)
    rw [List.map_map] at slots
    exact slots.trans (.of_eq (List.map_id _))
  · -- The ranking is read off the sorted keys, whatever the chunks were.
    exact ranking_pairwise made sizes name key
  · intro options now topN
    have empty_iff : graph.classesNamed name = [] ↔
        ∀ classSlot < graph.classCount, graph.className classSlot ≠ name := by
      rw [HeapGraph.classesNamed, List.filter_eq_nil_iff]
      simp
    rw [build_never]
    dsimp only
    rw [(covers_whole graph sizes options).byClass, ascending_congr perm, ← empty_iff]
    refine ⟨rfl, by simp, fun classSlot within named => ?_⟩
    rw [if_neg fun empty => empty_iff.mp empty classSlot within named, List.map_take]
    rfl

/-- In the ring, whose objects are of one class, the two largest are found by any scan. -/
theorem ring_byClass_eq_ranking :
    Columns.ring.resolved.Made ∧
      ∀ (sizes : RetainedSizes) (chunkSize workers : Nat) (now : Instant),
        (build Columns.ring.resolved sizes ⟨3, chunkSize, workers⟩ .never now).value.byClass
          Columns.ring.resolved "Node" 2 .shallow = some [3, 2] := by
  refine ⟨HeapGraph.made_ring, fun sizes chunkSize workers now => ?_⟩
  obtain ⟨ranking, perm, pairwise, answers⟩ :=
    byClass_eq_ranking HeapGraph.made_ring sizes "Node" .shallow
  have answer := (answers ⟨3, chunkSize, workers⟩ now 2).2.2 0 (by decide +kernel)
    (by decide +kernel)
  have instances : instancesNamed Columns.ring.resolved "Node" = [0, 1, 2, 3] := by decide +kernel
  have descends : [3, 2, 1, 0].Pairwise (Outranks Columns.ring.resolved sizes .shallow) := by
    have sizes : [3, 2, 1, 0].Pairwise fun one other =>
        Columns.ring.resolved.shallowSize other < Columns.ring.resolved.shallowSize one := by
      decide +kernel
    exact sizes.imp .inl
  rw [instances] at perm
  -- There is one way to put the four objects in this order.
  have same : ranking = [3, 2, 1, 0] :=
    List.Perm.eq_of_pairwise (fun _ _ _ _ before after => (before.asymm after).elim) pairwise
      descends (perm.trans (by decide))
  rw [answer, same]
  rfl

end RankingIndex

end HeapAtlas
