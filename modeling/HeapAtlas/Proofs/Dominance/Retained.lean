import Mathlib.Algebra.BigOperators.Group.Finset.Basic
import HeapAtlas.Proofs.Dominance.Absorb

/-! Retained sizes: the dominators are the true ones, and the sizes are what deletion would free. -/

namespace HeapAtlas

open scoped Classical in
/-- The other objects that nothing would lead to any more if an object were deleted. -/
noncomputable def HeapGraph.lostWith (graph : HeapGraph) (deleted : Slot) : Finset Slot :=
  (Finset.range graph.objectCount).filter fun slot =>
    slot ≠ deleted ∧ graph.Reached slot ∧ ¬ graph.ReachedWithout deleted slot

namespace RetainedSizes

open Dominance

/-- Nodes from which the way up, from dominator to dominator, ends at the super-root. -/
inductive Climbs (sizes : RetainedSizes) : Dominator → Prop where
  | arrived : sizes.Climbs .superRoot
  | up {slot : Slot} {above : Dominator} (next : sizes.dominator? slot = some above)
    (way : sizes.Climbs above) : sizes.Climbs (.object slot)

/-- Dominators and dominated objects are those of the tree that the paths of a heap define. -/
structure IsDominatorTree (graph : HeapGraph) (sizes : RetainedSizes) : Prop where
  dominator : ∀ slot, graph.Reached slot → ∃ above, sizes.dominator? slot = some above ∧
    Flow.ImmediatelyDominates graph.Flows .superRoot above (.object slot) ∧
    ∀ other, Flow.ImmediatelyDominates graph.Flows .superRoot other (.object slot) → other = above
  superRoot : ∀ slot, graph.Reached slot → (sizes.dominator? slot = some .superRoot ↔
    ∀ other, Flow.StrictlyDominates graph.Flows .superRoot other (.object slot) →
      other = .superRoot)
  unreached : ∀ slot, ¬ graph.Reached slot → sizes.dominator? slot = none
  climbs : ∀ slot, graph.Reached slot → sizes.Climbs (.object slot)
  dominated_ascends : ∀ above, (sizes.dominatedBy above).Pairwise (· < ·)
  mem_dominatedBy : ∀ above slot, slot ∈ sizes.dominatedBy above ↔
    graph.Reached slot ∧ Flow.ImmediatelyDominates graph.Flows .superRoot above (.object slot)

variable {graph : HeapGraph} {sizes : RetainedSizes}

/-- The node of the entry of a number immediately dominates the object with the number. -/
theorem immediatelyDominates_nodeOf {order : Postorder} (sound : order.Sound graph)
    {number above : Nat} (below : number < order.size)
    (immediate : Flow.ImmediatelyDominates (Arrives graph order) order.size above number) :
    Flow.ImmediatelyDominates graph.Flows .superRoot (nodeOf order above)
      (.object (order.slotAt number)) := by
  -- Objects are new names of their numbers, which are all reached.
  rw [← nodeOf_of_lt below]
  exact (renames sound).immediatelyDominates (reaches_number sound (Nat.le_of_lt below)) immediate

/-- Dominance between numbers is that between their objects. -/
theorem dominates_slotAt_iff {order : Postorder} (sound : order.Sound graph) {above number : Nat}
    (aboveWithin : above < order.size) (within : number < order.size) :
    Flow.Dominates graph.Flows .superRoot (.object (order.slotAt above))
        (.object (order.slotAt number)) ↔
      Flow.Dominates (Arrives graph order) order.size above number := by
  rw [← nodeOf_of_lt aboveWithin, ← nodeOf_of_lt within]
  exact (renames sound).dominates_iff (reaches_number sound (Nat.le_of_lt aboveWithin))
    (reaches_number sound (Nat.le_of_lt within))

/-- What was absorbed tells of every object that is reached what immediately dominates it. -/
theorem Absorbed.exists_dominator {order : Postorder} {candidates : Candidates}
    (sound : order.Sound graph) (settled : Settled (Arrives graph order) order.size candidates)
    (absorbed : Absorbed graph order candidates order.size sizes) {slot : Slot}
    (reached : graph.Reached slot) :
    ∃ above, sizes.dominator? slot = some above ∧
      Flow.ImmediatelyDominates graph.Flows .superRoot above (.object slot) := by
  -- What is reached has a number, and that has settled on its immediate dominator.
  obtain ⟨number, below, rfl⟩ := (exists_number_iff sound).mpr reached
  obtain ⟨above, entry, immediate⟩ := settled.immediate number below
  exact ⟨_, absorbed.dominator number above below entry,
    immediatelyDominates_nodeOf sound below immediate⟩

/-- What was absorbed tells of no other object what dominates it. -/
theorem Absorbed.dominator_of_not_reached {order : Postorder} {candidates : Candidates}
    (sound : order.Sound graph) (absorbed : Absorbed graph order candidates order.size sizes)
    {slot : Slot} (lost : ¬ graph.Reached slot) : sizes.dominator? slot = none := by
  -- Only what is reached has a number.
  refine absorbed.undominated slot fun number below equal => lost ?_
  exact (exists_number_iff sound).mp ⟨number, below, equal⟩

/-- From dominator to dominator the numbers rise to that of the super-root. -/
theorem Absorbed.climbs {order : Postorder} {candidates : Candidates}
    (settled : Settled (Arrives graph order) order.size candidates)
    (absorbed : Absorbed graph order candidates order.size sizes) {number : Nat}
    (within : number ≤ order.size) : sizes.Climbs (nodeOf order number) := by
  induction number, within using climb_induction with
  | arrived =>
    rw [nodeOf_size]
    exact .arrived
  | climbs number below ih =>
    -- The entry is the number of the dominator, and stands higher.
    obtain ⟨above, entry, _⟩ := settled.immediate number below
    obtain ⟨rises, least, _⟩ := settled.rising.up number above below entry
    rw [nodeOf_of_lt below]
    exact .up (absorbed.dominator number above below entry) (ih above least rises)

/-- For every heap and on every schedule, the dominators are those of the true dominator tree. -/
theorem compute_isDominatorTree (made : graph.Made) (schedule : Schedule) :
    IsDominatorTree graph (compute graph schedule) := by
  have sound := Postorder.sound_ofGraph made
  have settled := settled_candidatesOf made sound
  have absorbed := absorbed_compute made schedule
  have exists_ {slot : Slot} (reached : graph.Reached slot) :=
    absorbed.exists_dominator sound settled reached
  -- An object that is told a dominator is reached, as no other one is told anything.
  have told {slot : Slot} {above : Dominator}
      (equal : (compute graph schedule).dominator? slot = some above) : graph.Reached slot := by
    by_contra lost
    rw [absorbed.dominator_of_not_reached sound lost] at equal
    cases equal
  refine ⟨?_, ?_, ?_, ?_, ?_, ?_⟩
  · intro slot reached
    obtain ⟨above, equal, immediate⟩ := exists_ reached
    exact ⟨above, equal, immediate, fun other another => another.unique reached immediate⟩
  · intro slot reached
    obtain ⟨above, equal, immediate⟩ := exists_ reached
    rw [equal, Option.some.injEq]
    constructor
    · -- Whatever else dominates the object dominates the super-root, which only it does itself.
      intro same other strict
      subst same
      by_contra different
      exact different (immediate.2 other different strict).eq_root
    · intro only
      exact only above immediate.1
  · intro slot lost
    exact absorbed.dominator_of_not_reached sound lost
  · intro slot reached
    obtain ⟨number, below, rfl⟩ := (exists_number_iff sound).mpr reached
    rw [← nodeOf_of_lt below]
    exact absorbed.climbs settled (Nat.le_of_lt below)
  · intro above
    exact List.pairwise_lt_range.filter _
  · intro above slot
    rw [dominatedBy, List.mem_filter, List.mem_range, decide_eq_true_eq, absorbed.size_dominators]
    constructor
    · intro listed
      obtain ⟨_, equal⟩ := listed
      obtain ⟨other, found, immediate⟩ := exists_ (told equal)
      rw [equal] at found
      cases found
      exact ⟨told equal, immediate⟩
    · intro dominated
      obtain ⟨reached, immediate⟩ := dominated
      obtain ⟨other, equal, another⟩ := exists_ reached
      obtain ⟨number, below, rfl⟩ := (exists_number_iff sound).mpr reached
      exact ⟨slotAt_lt made sound below, by rw [equal, another.unique reached immediate]⟩

/-- In the ring, the second object dominates the third, which is not reached past it. -/
theorem ring_isDominatorTree :
    Columns.ring.resolved.Made ∧
      IsDominatorTree Columns.ring.resolved (compute Columns.ring.resolved (.ofWorkers 3)) ∧
      (compute Columns.ring.resolved (.ofWorkers 3)).dominator? 2 = some (.object 1) :=
  ⟨HeapGraph.made_ring, compute_isDominatorTree HeapGraph.made_ring _, by decide +kernel⟩

/-- What a number holds is the size of its object and of all that is lost with it. -/
theorem held_eq_sum_lostWith (made : graph.Made) {order : Postorder} (sound : order.Sound graph)
    {candidates : Candidates} (settled : Settled (Arrives graph order) order.size candidates)
    {number : Nat} (within : number < order.size) :
    held candidates order.size (weight graph order) number =
      graph.shallowSize (order.slotAt number)
        + ∑ slot ∈ graph.lostWith (order.slotAt number), graph.shallowSize slot := by
  classical
  -- A number is passed by the way up of just what is lost with its object.
  have lost {below : Nat} (inside : below < order.size) : OnWay candidates below number ↔
      ¬ graph.ReachedWithout (order.slotAt number) (order.slotAt below) := by
    rw [HeapGraph.not_reachedWithout_iff, dominates_slotAt_iff sound within inside]
    exact settled.onWay_iff below (Nat.le_of_lt inside) number
  rw [held, ← Finset.sum_filter, ← Finset.add_sum_erase _ _
    (Finset.mem_filter.mpr ⟨Finset.mem_range.mpr within, .here⟩)]
  refine congrArg (weight graph order number + ·) ?_
  -- The other numbers below are one by one those of the objects that are lost.
  refine Finset.sum_nbij order.slotAt ?_ ?_ ?_ fun below _ => rfl
  · intro below member
    obtain ⟨different, member⟩ := Finset.mem_erase.mp member
    obtain ⟨inside, way⟩ := Finset.mem_filter.mp member
    have inside := Finset.mem_range.mp inside
    refine Finset.mem_filter.mpr ⟨Finset.mem_range.mpr (slotAt_lt made sound inside), ?_,
      (exists_number_iff sound).mp ⟨below, inside, rfl⟩, (lost inside).mp way⟩
    exact fun equal => different (slotAt_injective sound inside within equal)
  · intro first firstMember second secondMember equal
    have inside {below : Nat} (member : below ∈ ((Finset.range order.size).filter
        (OnWay candidates · number)).erase number) : below < order.size :=
      Finset.mem_range.mp (Finset.mem_filter.mp (Finset.mem_of_mem_erase member)).1
    exact slotAt_injective sound (inside firstMember) (inside secondMember) equal
  · intro slot member
    obtain ⟨_, different, reached, gone⟩ := Finset.mem_filter.mp member
    obtain ⟨below, inside, rfl⟩ := (exists_number_iff sound).mpr reached
    refine ⟨below, Finset.mem_erase.mpr ⟨?_, Finset.mem_filter.mpr
      ⟨Finset.mem_range.mpr inside, (lost inside).mpr gone⟩⟩, rfl⟩
    intro same
    exact different (congrArg order.slotAt same)

/-- A retained size is what would go with an object that is reached, and else its own size. -/
theorem compute_retainedSize (made : graph.Made) (schedule : Schedule) (object : Slot) :
    (graph.Reached object → (compute graph schedule).retainedSize object =
      min wordMax (graph.shallowSize object
        + ∑ slot ∈ graph.lostWith object, graph.shallowSize slot)) ∧
    (¬ graph.Reached object →
      (compute graph schedule).retainedSize object = graph.shallowSize object) := by
  have sound := Postorder.sound_ofGraph made
  have settled := settled_candidatesOf made sound
  have absorbed := absorbed_compute made schedule
  constructor
  · intro reached
    -- The number of the object has absorbed all that it holds.
    obtain ⟨number, below, rfl⟩ := (exists_number_iff sound).mpr reached
    have heldEq := settled.rising.held_eq (weight graph (Postorder.ofGraph graph)) number
    rw [if_pos below] at heldEq
    rw [absorbed.retained number below, ← heldEq,
      held_eq_sum_lostWith made sound settled below]
  · intro lost
    -- Nothing is added to what has no number.
    refine absorbed.untouched object fun number below equal => lost ?_
    exact (exists_number_iff sound).mp ⟨number, below, equal⟩

/-- In the ring, the whole ring is lost with the root, and nothing with what is not reached. -/
theorem ring_retainedSize :
    Columns.ring.resolved.Made ∧ Columns.ring.resolved.Reached 0 ∧
      (compute Columns.ring.resolved (.ofWorkers 3)).retainedSize 0 =
        min wordMax (Columns.ring.resolved.shallowSize 0
          + ∑ slot ∈ Columns.ring.resolved.lostWith 0, Columns.ring.resolved.shallowSize slot) ∧
      (compute Columns.ring.resolved (.ofWorkers 3)).retainedSize 0 = 72 := by
  have root : (0, RootKind.javaFrame) ∈ Columns.ring.resolved.roots := by decide +kernel
  have reached : Columns.ring.resolved.Reached 0 := ⟨_, .extend .start (.root root)⟩
  exact ⟨HeapGraph.made_ring, reached,
    (compute_retainedSize HeapGraph.made_ring (.ofWorkers 3) 0).1 reached, by decide +kernel⟩

end RetainedSizes

end HeapAtlas
