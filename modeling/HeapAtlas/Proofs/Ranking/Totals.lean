import Mathlib.Algebra.BigOperators.Group.List.Basic
import Mathlib.Algebra.Ring.Nat
import HeapAtlas.Proofs.Capped
import HeapAtlas.Proofs.Ranking.Parts

/-! Totals of classes: however instances are grouped, they add up to one capped sum. -/

namespace HeapAtlas.RankingIndex

variable (graph : HeapGraph) (sizes : RetainedSizes)

/-- The number of some objects and the sums of their sizes, each capped. -/
def totalsOf (slots : List Slot) : ClassSummary :=
  ⟨slots.length, min wordMax (slots.map graph.shallowSize).sum,
    min wordMax (slots.map sizes.retainedSize).sum⟩

/-- The totals of two groups of objects add up to those of all of them. -/
theorem add_totalsOf (first second : List Slot) :
    (totalsOf graph sizes first).add (totalsOf graph sizes second) =
      totalsOf graph sizes (first ++ second) := by
  simp only [totalsOf, ClassSummary.add, Capped.add_min_min, List.length_append, List.map_append,
    List.sum_append]

/-- Totals do not depend on the order of the objects. -/
theorem totalsOf_perm {first second : List Slot} (perm : first.Perm second) :
    totalsOf graph sizes first = totalsOf graph sizes second := by
  simp only [totalsOf, perm.length_eq, (perm.map graph.shallowSize).sum_eq,
    (perm.map sizes.retainedSize).sum_eq]

/-- Objects have an instance among them when there are any. -/
theorem instances_totalsOf_eq_zero_iff {slots : List Slot} :
    (totalsOf graph sizes slots).instances = 0 ↔ slots = [] := List.length_eq_zero_iff

/-- Taking instances into a part adds up their totals. -/
theorem summary_foldl_addInstance {part : ClassPart} {taken : List Slot}
    (before : part.summary = totalsOf graph sizes taken) (slots : List Slot) :
    (slots.foldl (addInstance graph sizes) part).summary =
      totalsOf graph sizes (taken ++ slots) := by
  induction slots generalizing part taken with
  | nil => rw [List.append_nil, List.foldl_nil, before]
  | cons slot slots ih =>
    -- One more instance counts by its own sizes, which are capped with the sums.
    have step : (addInstance graph sizes part slot).summary =
        totalsOf graph sizes (taken ++ [slot]) := by
      show part.summary.add ⟨1, graph.shallowSize slot, sizes.retainedSize slot⟩ = _
      rw [before]
      simp only [totalsOf, ClassSummary.add, Capped.add_min_left, List.length_append,
        List.length_singleton, List.map_append, List.map_singleton, List.sum_append,
        List.sum_singleton]
      rfl
    rw [List.foldl_cons, ih step, List.append_assoc, List.singleton_append]

/-- The finds of a class in some chunks add up to the totals of its instances in all of them. -/
theorem foldl_summary_partsOf (topK : Nat) (classSlot : Slot) (slotLists : List (List Slot))
    (taken : List Slot) :
    ((slotLists.map (partsOf graph sizes topK)).filterMap (·[classSlot]?)).foldl
        (fun summary part => summary.add part.summary) (totalsOf graph sizes taken) =
      totalsOf graph sizes (taken ++ (slotLists.map (instancesAmong graph classSlot)).flatten) := by
  induction slotLists generalizing taken with
  | nil => simp
  | cons slots slotLists ih =>
    rw [List.map_cons, List.filterMap_cons, getElem?_partsOf, List.map_cons, List.flatten_cons,
      ← List.append_assoc]
    by_cases empty : instancesAmong graph classSlot slots = []
    · -- A chunk without an instance has no part of the class.
      rw [if_pos empty, ih, empty, List.append_nil]
    · have start : (noPart topK).summary = totalsOf graph sizes [] := rfl
      rw [if_neg empty, List.foldl_cons, summary_foldl_addInstance graph sizes start,
        List.nil_append, add_totalsOf, ih]

end HeapAtlas.RankingIndex
