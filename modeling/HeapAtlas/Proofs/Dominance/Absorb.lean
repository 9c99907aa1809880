import Mathlib.Algebra.BigOperators.Group.Finset.Basic
import Mathlib.Algebra.BigOperators.Group.Finset.Piecewise
import Mathlib.Algebra.BigOperators.Group.Finset.Sigma
import HeapAtlas.Proofs.Capped
import HeapAtlas.Proofs.Dominance.Settle

/-! Absorbing sizes number by number adds up all that stands below each number. -/

namespace HeapAtlas

namespace Dominance

open scoped Classical in
/-- The weights of all numbers whose way up passes a number. -/
noncomputable def held (candidates : Candidates) (last : Nat) (weight : Nat → Nat) (number : Nat) :
    Nat :=
  ∑ below ∈ Finset.range last, if OnWay candidates below number then weight below else 0

/-- What the numbers up to `count` hold that have a number for their entry. -/
noncomputable def absorbed (candidates : Candidates) (last : Nat) (weight : Nat → Nat)
    (count number : Nat) : Nat :=
  ∑ child ∈ Finset.range count,
    if candidates[child]? = some (some number) then held candidates last weight child else 0

variable {candidates : Candidates} {last number child other below : Nat} {weight : Nat → Nat}

/-- A way up to another number passes one whose entry that is. -/
theorem OnWay.exists_child (way : OnWay candidates below number) (different : below ≠ number) :
    ∃ child, child ≠ number ∧ candidates[child]? = some (some number) ∧
      OnWay candidates below child := by
  -- The last step of the way is taken from the number that is looked for.
  induction way with
  | here => exact absurd rfl different
  | @up below above number entry way ih =>
    by_cases arrived : above = number
    · subst arrived
      exact ⟨below, different, entry, .here⟩
    · obtain ⟨child, another, found, onWay⟩ := ih arrived
      exact ⟨child, another, found, .up entry onWay⟩

/-- A way up goes on where it leads. -/
theorem OnWay.trans (lower : OnWay candidates below child) (upper : OnWay candidates child number) :
    OnWay candidates below number := by
  induction lower with
  | here => exact upper
  | up entry way ih => exact .up entry (ih upper)

/-- Of two numbers on a way up, one is on the way up from the other. -/
theorem OnWay.total (first : OnWay candidates below child) (second : OnWay candidates below other) :
    OnWay candidates child other ∨ OnWay candidates other child := by
  induction first with
  | here => exact .inl second
  | up entry way ih =>
    -- The other way has just begun, or both go on from the same entry.
    rcases (onWay_iff entry).mp second with rfl | onwards
    · exact .inr (.up entry way)
    · exact ih onwards

/-- Below the last number, no other number stands on the way up to its own entry. -/
theorem Rising.child_unique (rising : Rising candidates last) (short : child < last)
    (shortOther : other < last) (entry : candidates[child]? = some (some number))
    (entryOther : candidates[other]? = some (some number)) (way : OnWay candidates below child)
    (wayOther : OnWay candidates below other) : child = other := by
  -- If one were above the other, it would be above the entry that they share.
  have least {first second : Nat} (shortSecond : second < last)
      (entryFirst : candidates[first]? = some (some number))
      (entrySecond : candidates[second]? = some (some number))
      (onWay : OnWay candidates first second) : first = second := by
    rcases (onWay_iff entryFirst).mp onWay with equal | above
    · exact equal.symm
    · have least := rising.le_of_onWay above
      have rises := (rising.up second number shortSecond entrySecond).1
      omega
  rcases way.total wayOther with onWay | onWay
  · exact least shortOther entry entryOther onWay
  · exact (least short entryOther entry onWay).symm

open scoped Classical in
/-- The way up from a number ends there, or passes just one number with the other for its entry. -/
theorem Rising.ite_onWay_eq (rising : Rising candidates last) (weight : Nat → Nat)
    (below number : Nat) :
    (if OnWay candidates below number then weight below else 0) =
      (if below = number then weight below else 0) + ∑ child ∈ Finset.range last,
        if candidates[child]? = some (some number) ∧ OnWay candidates below child
        then weight below else 0 := by
  by_cases way : OnWay candidates below number
  · rw [if_pos way]
    by_cases same : below = number
    · -- Nothing on the way up from the number itself has it for its entry.
      rw [if_pos same, Finset.sum_eq_zero, Nat.add_zero]
      intro child inside
      refine if_neg fun held => ?_
      have rises := (rising.up child number (Finset.mem_range.mp inside) held.1).1
      have least := rising.le_of_onWay held.2
      omega
    · -- The way up comes to the number from one with this entry, and from no other.
      obtain ⟨child, another, entry, onWay⟩ := way.exists_child same
      have short : child < last := by
        -- Only the last number is its own entry.
        refine Nat.lt_of_le_of_ne (rising.le_last ⟨number, entry⟩) fun same => ?_
        subst same
        rw [rising.top] at entry
        cases entry
        exact another rfl
      rw [if_neg same, Nat.zero_add, Finset.sum_eq_single child]
      · rw [if_pos ⟨entry, onWay⟩]
      · intro other inside different
        refine if_neg fun held => different ?_
        exact rising.child_unique (Finset.mem_range.mp inside) short held.1 entry held.2 onWay
      · intro outside
        exact absurd (Finset.mem_range.mpr short) outside
  · have different : below ≠ number := by
      intro same
      exact way (same ▸ .here)
    -- What does not come by the number comes by none of those below it either.
    have none : ∀ child ∈ Finset.range last, (if candidates[child]? = some (some number) ∧
        OnWay candidates below child then weight below else 0) = 0 := fun child _ =>
      if_neg fun held => way (held.2.trans (.up held.1 .here))
    rw [if_neg way, if_neg different, Finset.sum_eq_zero none, Nat.add_zero]

/-- A number holds its own weight and what those hold that have it for their entry. -/
theorem Rising.held_eq (rising : Rising candidates last) (weight : Nat → Nat) (number : Nat) :
    held candidates last weight number =
      (if number < last then weight number else 0)
        + absorbed candidates last weight last number := by
  classical
  -- Both sums are taken by the number whose weight is held.
  have own : (if number < last then weight number else 0) =
      ∑ below ∈ Finset.range last, if below = number then weight below else 0 := by
    rw [Finset.sum_ite_eq']
    simp only [Finset.mem_range]
  have children : absorbed candidates last weight last number =
      ∑ below ∈ Finset.range last, ∑ child ∈ Finset.range last,
        if candidates[child]? = some (some number) ∧ OnWay candidates below child
        then weight below else 0 := by
    rw [Finset.sum_comm, absorbed]
    refine Finset.sum_congr rfl fun child _ => ?_
    split
    · rename_i entry
      simp only [held, entry, true_and]
    · rename_i none
      simp [none]
  rw [own, children, ← Finset.sum_add_distrib, held]
  exact Finset.sum_congr rfl fun below _ => rising.ite_onWay_eq weight below number

/-- One number more is asked whether it has the number for its entry. -/
theorem absorbed_succ (count number : Nat) :
    absorbed candidates last weight (count + 1) number =
      absorbed candidates last weight count number +
        if candidates[count]? = some (some number) then held candidates last weight count else 0 :=
  Finset.sum_range_succ _ _

/-- Once all below a number were asked, it holds no more than it has absorbed. -/
theorem Rising.absorbed_self (rising : Rising candidates last) {number : Nat}
    (below : number < last) :
    absorbed candidates last weight number number
      = absorbed candidates last weight last number := by
  -- Numbers that have it for their entry stand below it, so none was left out.
  refine Finset.sum_subset (Finset.range_subset_range.mpr (Nat.le_of_lt below)) ?_
  intro child inside outside
  refine if_neg fun entry => ?_
  have rises := (rising.up child number (Finset.mem_range.mp inside) entry).1
  exact outside (Finset.mem_range.mpr rises)

end Dominance

namespace RetainedSizes

open Dominance

variable {graph : HeapGraph} {order : Postorder} {candidates : Candidates} {sizes : RetainedSizes}

/-- The weight of a number is the size of its object by itself. -/
def weight (graph : HeapGraph) (order : Postorder) (number : Nat) : Nat :=
  graph.shallowSize (order.slotAt number)

/-- Where absorbing stands when the numbers up to `count` are done. -/
structure Absorbed (graph : HeapGraph) (order : Postorder) (candidates : Candidates) (count : Nat)
    (sizes : RetainedSizes) : Prop where
  size_dominators : sizes.dominators.size = graph.objectCount
  size_retained : sizes.retained.size = graph.objectCount
  dominator : ∀ number above, number < count → candidates[number]? = some (some above) →
    sizes.dominator? (order.slotAt number) = some (nodeOf order above)
  undominated : ∀ slot, (∀ number < count, order.slotAt number ≠ slot) →
    sizes.dominator? slot = none
  retained : ∀ number < order.size, sizes.retainedSize (order.slotAt number) =
    min wordMax (weight graph order number
      + absorbed candidates order.size (weight graph order) count number)
  untouched : ∀ slot, (∀ number < order.size, order.slotAt number ≠ slot) →
    sizes.retainedSize slot = graph.shallowSize slot
  total : sizes.reachableTotal =
    min wordMax (absorbed candidates order.size (weight graph order) count order.size)

/-- Different numbers are those of different objects. -/
theorem slotAt_injective (sound : order.Sound graph) {first second : Nat}
    (firstWithin : first < order.size) (secondWithin : second < order.size)
    (same : order.slotAt first = order.slotAt second) : first = second := by
  refine nodeOf_injective sound (Nat.le_of_lt firstWithin) (Nat.le_of_lt secondWithin) ?_
  rw [nodeOf_of_lt firstWithin, nodeOf_of_lt secondWithin, same]

/-- Objects with a number are objects of the heap. -/
theorem slotAt_lt (made : graph.Made) (sound : order.Sound graph) {number : Nat}
    (within : number < order.size) : order.slotAt number < graph.objectCount := by
  -- An edge leads to every number that stands for an object.
  obtain ⟨_, _, _, _, edge⟩ := exists_arrives_above sound within
  rw [nodeOf_of_lt within] at edge
  exact Postorder.lt_of_flows made edge

/-- What is read of an array after an entry was changed. -/
theorem getD_modify {values : Array Nat} {index other : Nat} {f : Nat → Nat}
    (within : index < values.size) :
    (values.modify index f).getD other 0 =
      if other = index then f (values.getD index 0) else values.getD other 0 := by
  rw [Array.getD_eq_getD_getElem?, Array.getD_eq_getD_getElem?, Array.getD_eq_getD_getElem?,
    Array.getElem?_modify]
  -- Only the entry that is changed is read otherwise.
  by_cases same : index = other
  · subst same
    rw [if_pos rfl, if_pos rfl, Array.getElem?_eq_getElem within]
    rfl
  · rw [if_neg same, if_neg (Ne.symm same)]

section Absorb

variable {number above : Nat}

/-- Absorbing a number tells what dominates its object. -/
theorem dominator?_absorb (entry : candidates[number]? = some (some above))
    (inside : order.slotAt number < sizes.dominators.size) (slot : Slot) :
    (absorb order candidates sizes number).dominator? slot =
      if slot = order.slotAt number then some (nodeOf order above) else sizes.dominator? slot := by
  -- The node of the entry is set whether it is an object or the super-root.
  have set : (absorb order candidates sizes number).dominators =
      sizes.dominators.setIfInBounds (order.slotAt number) (some (nodeOf order above)) := by
    simp only [absorb, entry, Option.join_some, nodeOf]
    split <;> rfl
  rw [dominator?, dominator?, set, Array.getElem?_setIfInBounds]
  by_cases same : slot = order.slotAt number
  · rw [if_pos same.symm, if_pos inside, if_pos same, Option.join_some]
  · rw [if_neg (Ne.symm same), if_neg same]

/-- Absorbing a number adds what its object retains to the object of its entry, if it has one. -/
theorem retainedSize_absorb (entry : candidates[number]? = some (some above))
    (inside : above < order.size → order.slotAt above < sizes.retained.size) (slot : Slot) :
    (absorb order candidates sizes number).retainedSize slot =
      if above < order.size ∧ slot = order.slotAt above
      then Capped.add (sizes.retainedSize slot) (sizes.retainedSize (order.slotAt number))
      else sizes.retainedSize slot := by
  simp only [absorb, entry, Option.join_some]
  split
  · rename_i parent
    show (sizes.retained.modify _ _).getD slot 0 = _
    rw [getD_modify (inside parent)]
    by_cases same : slot = order.slotAt above
    · rw [if_pos same, if_pos ⟨parent, same⟩, same]
      rfl
    · rw [if_neg same, if_neg fun both => same both.2]
      rfl
  · -- The super-root is no object, so that nothing is added to one.
    rename_i root
    rw [if_neg fun both => root both.1]
    rfl

/-- Absorbing a number adds what its object retains to the total if the super-root is its entry. -/
theorem reachableTotal_absorb (entry : candidates[number]? = some (some above)) :
    (absorb order candidates sizes number).reachableTotal =
      if above < order.size then sizes.reachableTotal
      else Capped.add sizes.reachableTotal (sizes.retainedSize (order.slotAt number)) := by
  simp only [absorb, entry, Option.join_some]
  split <;> rfl

/-- Absorbing a number gives room to no other objects. -/
theorem size_absorb (order : Postorder) (sizes : RetainedSizes)
    (entry : candidates[number]? = some (some above)) :
    (absorb order candidates sizes number).dominators.size = sizes.dominators.size ∧
      (absorb order candidates sizes number).retained.size = sizes.retained.size := by
  simp only [absorb, entry, Option.join_some]
  split
  · exact ⟨Array.size_setIfInBounds, Array.size_modify⟩
  · exact ⟨Array.size_setIfInBounds, rfl⟩

end Absorb

/-- Absorbing the next number adds what it holds to its entry. -/
theorem Absorbed.step (made : graph.Made) (sound : order.Sound graph)
    (rising : Rising candidates order.size) {count above : Nat} (below : count < order.size)
    (entry : candidates[count]? = some (some above))
    (absorbed : Absorbed graph order candidates count sizes) :
    Absorbed graph order candidates (count + 1) (absorb order candidates sizes count) := by
  obtain ⟨sameDominators, sameRetained⟩ := size_absorb order sizes entry
  -- All that the number dominates was absorbed before it, as it stands below it.
  have whole : sizes.retainedSize (order.slotAt count) =
      min wordMax (held candidates order.size (weight graph order) count) := by
    rw [absorbed.retained count below, rising.held_eq _ count, if_pos below,
      rising.absorbed_self below]
  have another {other : Nat} (different : other ≠ above) :
      ¬ candidates[count]? = some (some other) := by
    rw [entry]
    exact fun equal => different (Option.some.inj (Option.some.inj equal)).symm
  have dominatorAt := dominator?_absorb entry
    (absorbed.size_dominators.symm ▸ slotAt_lt made sound below)
  have retainedAt := retainedSize_absorb entry
    fun parent => absorbed.size_retained.symm ▸ slotAt_lt made sound parent
  refine ⟨sameDominators.trans absorbed.size_dominators,
    sameRetained.trans absorbed.size_retained, ?_, ?_, ?_, ?_, ?_⟩
  · intro number above' earlier found
    rw [dominatorAt]
    by_cases same : number = count
    · -- The number itself has just been told its dominator.
      subst same
      rw [entry] at found
      cases found
      rw [if_pos rfl]
    · rw [if_neg fun equal => same (slotAt_injective sound (by omega) below equal)]
      exact absorbed.dominator number above' (by omega) found
  · intro slot none
    rw [dominatorAt, if_neg fun equal => none count (Nat.lt_succ_self _) equal.symm]
    exact absorbed.undominated slot fun number earlier => none number (by omega)
  · intro number within
    rw [absorbed_succ, retainedAt]
    by_cases same : number = above
    · -- The entry of the number takes over all that the number holds.
      subst same
      rw [if_pos ⟨within, rfl⟩, if_pos entry, whole, absorbed.retained number within,
        Capped.add_min_min, Nat.add_assoc]
    · rw [if_neg fun both => same (slotAt_injective sound within both.1 both.2),
        if_neg (another same)]
      exact absorbed.retained number within
  · intro slot none
    rw [retainedAt, if_neg fun both => none above both.1 both.2.symm]
    exact absorbed.untouched slot none
  · rw [reachableTotal_absorb entry, absorbed_succ, absorbed.total, whole]
    by_cases parent : above < order.size
    · rw [if_pos parent, if_neg (another (Nat.ne_of_gt parent)), Nat.add_zero]
    · -- An entry that is no object is the super-root, which holds the total.
      have least := rising.le_last (rising.known_above entry)
      have same : above = order.size := by omega
      rw [if_neg parent, if_pos (same ▸ entry), Capped.add_min_min]

/-- Before the first number everything has its own size and no dominator. -/
theorem absorbed_zero (reachable : DenseBitSet) (count : Nat) :
    Absorbed graph order candidates 0
      ⟨graph.objects.map (·.size.toNat), Array.replicate graph.objectCount none, reachable, count,
        0⟩ := by
  have own (slot : Slot) : (graph.objects.map (·.size.toNat)).getD slot 0 =
      graph.shallowSize slot := by
    rw [HeapGraph.shallowSize, HeapGraph.objectAt, Array.getD_eq_getD_getElem?,
      Array.getD_eq_getD_getElem?, Array.getElem?_map]
    cases graph.objects[slot]? <;> rfl
  -- A size is a word, so it is not above the cap.
  have word (slot : Slot) : graph.shallowSize slot ≤ wordMax :=
    Nat.le_sub_one_of_lt (UInt64.toNat_lt _)
  refine ⟨Array.size_replicate .., Array.size_map .., ?_, ?_, ?_, ?_, rfl⟩
  · intro number above earlier
    exact absurd earlier (Nat.not_lt_zero _)
  · intro slot _
    rw [dominator?, Array.getElem?_replicate]
    split <;> rfl
  · intro number _
    rw [retainedSize, own, weight]
    exact (Nat.min_eq_right (word _)).symm
  · intro slot _
    exact own slot

/-- In the end all numbers are absorbed. -/
theorem absorbed_compute (made : graph.Made) (schedule : Schedule) :
    let order := Postorder.ofGraph graph
    Absorbed graph order (candidatesOf graph order) order.size (compute graph schedule) := by
  intro order
  have sound := Postorder.sound_ofGraph made
  have settled := settled_candidatesOf made sound
  -- The induction is on how many numbers were absorbed, the lowest first.
  have general : ∀ count ≤ order.size, Absorbed graph order (candidatesOf graph order) count
      ((List.range count).foldl (absorb order (candidatesOf graph order))
        ⟨graph.objects.map (·.size.toNat), Array.replicate graph.objectCount none,
          Marking.reachable graph schedule, order.size, 0⟩) := by
    intro count
    induction count with
    | zero => exact fun _ => absorbed_zero _ _
    | succ count ih =>
      intro below
      -- Every number has an entry, so each step absorbs into one.
      obtain ⟨above, entry, _⟩ := settled.immediate count below
      rw [List.range_succ, List.foldl_append, List.foldl_cons, List.foldl_nil]
      exact (ih (Nat.le_of_lt below)).step made sound settled.rising below entry
  exact general order.size (Nat.le_refl _)

end RetainedSizes

end HeapAtlas
