import HeapAtlas.Proofs.Dominance.Marking
import HeapAtlas.Proofs.Dominance.Retained

/-! Marking and numbering account for the same objects, and for every byte of them. -/

namespace HeapAtlas

open scoped Classical in
/-- The objects that the roots of a heap reach. -/
noncomputable def HeapGraph.reachedSlots (graph : HeapGraph) : Finset Slot :=
  (Finset.range graph.objectCount).filter graph.Reached

/-- Capping the parts of a total changes nothing once the total is capped. -/
theorem Capped.min_sum_min (parts : Finset Nat) (size : Nat → Nat) :
    min wordMax (∑ part ∈ parts, min wordMax (size part)) =
      min wordMax (∑ part ∈ parts, size part) := by
  classical
  induction parts using Finset.induction_on with
  | empty => rfl
  | insert part rest new ih =>
    rw [Finset.sum_insert new, Finset.sum_insert new]
    omega

namespace RetainedSizes

open Dominance

/-- What is told of a heap agrees: the marks, the dominators, the counts and the totals. -/
structure Accounts (graph : HeapGraph) (sizes : RetainedSizes) : Prop where
  marked : ∀ slot, sizes.isReachable slot = true ↔ graph.Reached slot
  dominated : ∀ slot, (sizes.dominator? slot).isSome = true ↔ sizes.isReachable slot = true
  reachableCount : sizes.reachableCount = graph.reachedSlots.card
  marks : sizes.reachable.count = sizes.reachableCount
  unreachableCount : sizes.unreachableCount =
    (Finset.range graph.objectCount \ graph.reachedSlots).card
  total : sizes.reachableTotal = min wordMax (∑ slot ∈ graph.reachedSlots, graph.shallowSize slot)
  children : sizes.reachableTotal =
    Capped.sum ((sizes.dominatedBy .superRoot).map sizes.retainedSize)

variable {graph : HeapGraph} {order : Postorder} {candidates : Candidates} {sizes : RetainedSizes}

/-- What the roots reach is among the objects of the heap. -/
theorem mem_reachedSlots_iff (made : graph.Made) (slot : Slot) :
    slot ∈ graph.reachedSlots ↔ graph.Reached slot := by
  classical
  have sound := Postorder.sound_ofGraph made
  refine Finset.mem_filter.trans ⟨And.right, fun reached => ⟨?_, reached⟩⟩
  -- What is reached has a number, and every number is that of an object.
  obtain ⟨number, below, rfl⟩ := (exists_number_iff sound).mpr reached
  exact Finset.mem_range.mpr (slotAt_lt made sound below)

/-- Numbers stand one by one for what is reached, so that sums may be taken over either. -/
theorem sum_reachedSlots (made : graph.Made) (sound : order.Sound graph) (size : Slot → Nat) :
    ∑ slot ∈ graph.reachedSlots, size slot =
      ∑ number ∈ Finset.range order.size, size (order.slotAt number) := by
  -- Numbers and reached objects stand for each other, one to one.
  refine (Finset.sum_nbij order.slotAt ?_ ?_ ?_ fun number _ => rfl).symm
  · intro number within
    exact (mem_reachedSlots_iff made _).mpr
      ((exists_number_iff sound).mp ⟨number, Finset.mem_range.mp within, rfl⟩)
  · intro first here second there
    exact slotAt_injective sound (Finset.mem_range.mp here) (Finset.mem_range.mp there)
  · intro slot reached
    obtain ⟨number, within, same⟩ :=
      (exists_number_iff sound).mpr ((mem_reachedSlots_iff made slot).mp reached)
    exact ⟨number, Finset.mem_coe.mpr (Finset.mem_range.mpr within), same⟩

/-- The super-root holds the sizes of all that is reached. -/
theorem held_superRoot (made : graph.Made) (sound : order.Sound graph)
    (settled : Settled (Arrives graph order) order.size candidates) :
    Dominance.absorbed candidates order.size (weight graph order) order.size order.size =
      ∑ slot ∈ graph.reachedSlots, graph.shallowSize slot := by
  have heldEq := settled.rising.held_eq (weight graph order) order.size
  rw [if_neg (Nat.lt_irrefl _), Nat.zero_add] at heldEq
  rw [sum_reachedSlots made sound, ← heldEq, held]
  refine Finset.sum_congr rfl fun number within => ?_
  -- The super-root stands on every way, and so on the way up from every number.
  have passes := (settled.onWay_iff number (Nat.le_of_lt (Finset.mem_range.mp within)) _).mpr
    Flow.dominates_root
  rw [if_pos passes]
  rfl

/-- A number that was absorbed is dominated by the super-root when that is its entry. -/
theorem Absorbed.mem_dominatedBy_iff (made : graph.Made) (sound : order.Sound graph)
    (settled : Settled (Arrives graph order) order.size candidates)
    (absorbed : Absorbed graph order candidates order.size sizes) {number : Nat}
    (below : number < order.size) : order.slotAt number ∈ sizes.dominatedBy .superRoot ↔
      candidates[number]? = some (some order.size) := by
  obtain ⟨above, entry, _⟩ := settled.immediate number below
  have least := settled.rising.le_last (settled.rising.known_above entry)
  -- The table of dominators was filled from the candidates, so both say the same.
  rw [dominatedBy, List.mem_filter, List.mem_range, decide_eq_true_eq, absorbed.size_dominators,
    absorbed.dominator number above below entry, entry]
  constructor
  · intro told
    rw [nodeOf_injective sound least (Nat.le_refl _)
      ((Option.some.inj told.2).trans nodeOf_size.symm)]
  · intro same
    rw [Option.some.inj (Option.some.inj same), nodeOf_size]
    exact ⟨slotAt_lt made sound below, rfl⟩

/-- What the super-root dominates are the objects of the numbers that have it for their entry. -/
theorem Absorbed.sum_superRoot (made : graph.Made) (sound : order.Sound graph)
    (settled : Settled (Arrives graph order) order.size candidates)
    (absorbed : Absorbed graph order candidates order.size sizes) :
    ((sizes.dominatedBy .superRoot).map sizes.retainedSize).sum =
      ∑ number ∈ (Finset.range order.size).filter (candidates[·]? = some (some order.size)),
        min wordMax (held candidates order.size (weight graph order) number) := by
  have once : (sizes.dominatedBy .superRoot).Nodup := List.nodup_range.filter _
  have inside {number : Nat} (member : number ∈ (Finset.range order.size).filter
      (candidates[·]? = some (some order.size))) : number < order.size :=
    Finset.mem_range.mp (Finset.mem_filter.mp member).1
  rw [← List.sum_toFinset _ once]
  refine (Finset.sum_nbij order.slotAt ?_ ?_ ?_ ?_).symm
  · intro number member
    exact List.mem_toFinset.mpr ((absorbed.mem_dominatedBy_iff made sound settled
      (inside member)).mpr (Finset.mem_filter.mp member).2)
  · intro first here second there
    exact slotAt_injective sound (inside here) (inside there)
  · intro slot dominated
    have listed := List.mem_toFinset.mp dominated
    -- Whatever has a dominator is reached, and so has a number.
    have reached : graph.Reached slot := by
      by_contra lost
      have told := of_decide_eq_true (List.mem_filter.mp listed).2
      rw [absorbed.dominator_of_not_reached sound lost] at told
      cases told
    obtain ⟨number, below, rfl⟩ := (exists_number_iff sound).mpr reached
    exact ⟨number, Finset.mem_filter.mpr ⟨Finset.mem_range.mpr below,
      (absorbed.mem_dominatedBy_iff made sound settled below).mp listed⟩, rfl⟩
  · intro number member
    have heldEq := settled.rising.held_eq (weight graph order) number
    rw [if_pos (inside member)] at heldEq
    rw [absorbed.retained number (inside member), heldEq]

/-- Absorbing sizes leaves the marks and the count of what is reached as they are. -/
theorem reachable_foldl_absorb (order : Postorder) (candidates : Candidates)
    (numbers : List Nat) (sizes : RetainedSizes) :
    (numbers.foldl (absorb order candidates) sizes).reachable = sizes.reachable ∧
      (numbers.foldl (absorb order candidates) sizes).reachableCount = sizes.reachableCount := by
  induction numbers generalizing sizes with
  | nil => exact ⟨rfl, rfl⟩
  | cons number rest ih =>
    -- Absorbing writes sizes and dominators, and no marks.
    have step : (absorb order candidates sizes number).reachable = sizes.reachable ∧
        (absorb order candidates sizes number).reachableCount = sizes.reachableCount := by
      unfold absorb
      split
      · split <;> exact ⟨rfl, rfl⟩
      · exact ⟨rfl, rfl⟩
    obtain ⟨marks, count⟩ := ih (absorb order candidates sizes number)
    exact ⟨marks.trans step.1, count.trans step.2⟩

/-- On every fair schedule, and so with any number of workers, the accounts of a heap agree. -/
theorem compute_accounts (made : graph.Made) :
    (∀ schedule, schedule.Fair → Accounts graph (compute graph schedule)) ∧
      ∀ workers, Accounts graph (compute graph (.ofWorkers workers)) := by
  suffices general : ∀ schedule, schedule.Fair → Accounts graph (compute graph schedule) from
    ⟨general, fun workers => general _ (Schedule.fair_ofWorkers workers)⟩
  intro schedule fair
  have sound := Postorder.sound_ofGraph made
  have settled := settled_candidatesOf made sound
  have absorbed := absorbed_compute made schedule
  have marked (slot : Slot) : (compute graph schedule).isReachable slot = true ↔
      graph.Reached slot := by
    rw [isReachable, compute, (reachable_foldl_absorb _ _ _ _).1]
    exact Marking.test_reachable made fair slot
  have count : (compute graph schedule).reachableCount = graph.reachedSlots.card := by
    rw [compute, (reachable_foldl_absorb _ _ _ _).2, Finset.card_eq_sum_ones,
      sum_reachedSlots made sound, ← Finset.card_eq_sum_ones, Finset.card_range]
  have within : graph.reachedSlots ⊆ Finset.range graph.objectCount := by
    classical
    exact Finset.filter_subset _ _
  -- Marks come from the levels and sizes from the numbers; here they are brought together.
  refine ⟨marked, fun slot => ?_, count, ?_, ?_, ?_, ?_⟩
  · rw [marked]
    constructor
    · intro told
      by_contra lost
      rw [absorbed.dominator_of_not_reached sound lost] at told
      cases told
    · intro reached
      obtain ⟨above, told, _⟩ := absorbed.exists_dominator sound settled reached
      rw [told]
      rfl
  · rw [count]
    exact DenseBitSet.count_eq_card _ fun slot =>
      (mem_reachedSlots_iff made slot).trans (marked slot).symm
  · rw [unreachableCount, absorbed.size_retained, count, Finset.card_sdiff_of_subset within,
      Finset.card_range]
  · rw [absorbed.total, held_superRoot made sound settled]
  · rw [absorbed.total, Capped.sum_eq_min, absorbed.sum_superRoot made sound settled,
      Capped.min_sum_min, Finset.sum_filter]
    rfl

/-- In the ring, one object of four is not reached, and the others take 72 bytes together. -/
theorem ring_accounts :
    Columns.ring.resolved.Made ∧
      Accounts Columns.ring.resolved (compute Columns.ring.resolved (.ofWorkers 3)) ∧
      (compute Columns.ring.resolved (.ofWorkers 3)).unreachableCount = 1 ∧
      (compute Columns.ring.resolved (.ofWorkers 3)).reachableTotal = 72 :=
  ⟨HeapGraph.made_ring, (compute_accounts HeapGraph.made_ring).2 3, by decide +kernel,
    by decide +kernel⟩

end RetainedSizes

end HeapAtlas
