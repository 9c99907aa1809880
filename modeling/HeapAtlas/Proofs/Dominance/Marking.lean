import HeapAtlas.Dominance.Marking
import HeapAtlas.Proofs.BitSet.Shared
import HeapAtlas.Proofs.Dominance.Postorder
import HeapAtlas.Proofs.Lists
import HeapAtlas.Proofs.Scan.Chunks

/-! Marking level by level marks what the roots reach, in whatever order a level is worked on. -/

namespace HeapAtlas

namespace Schedule

/-- A stretch of a list is read place by place. -/
theorem filterMap_range'_getElem? (items : List Slot) (start count : Nat) :
    (List.range' start count).filterMap (items[·]?) = (items.drop start).take count := by
  induction count generalizing start with
  | zero => simp
  | succ count ih =>
    rw [List.range'_succ]
    -- Past the end there is nothing to read, neither here nor further on.
    cases stands : items[start]? with
    | none =>
      have beyond := List.getElem?_eq_none_iff.mp stands
      rw [List.filterMap_cons_none stands, ih, List.drop_eq_nil_of_le beyond,
        List.drop_eq_nil_of_le (Nat.le_succ_of_le beyond), List.take_nil, List.take_nil]
    | some slot =>
      obtain ⟨within, rfl⟩ := List.getElem?_eq_some_iff.mp stands
      rw [List.filterMap_cons_some stands, ih, ← List.cons_getElem_drop_succ (h := within),
        List.take_succ_cons]

/-- However many workers there are, every object of a level is worked on once. -/
theorem fair_ofWorkers (workers : Nat) : (ofWorkers workers).Fair := by
  intro level frontier
  -- Each worker does its chunks without a break, and the chunks hold every place once.
  have stretches : ((Scan.chunks frontier.length frontierChunk).map fun part =>
      (part.1, (frontier.drop part.2.start).take (part.2.stop - part.2.start))).flatMap (·.2) =
        frontier := by
    have places := congrArg (List.filterMap (frontier[·]?))
      (Scan.flatMap_positions frontier.length frontierChunk)
    rw [filterMap_range_getElem?, List.filterMap_flatMap] at places
    rw [List.flatMap_map]
    refine Eq.trans (List.flatMap_congr fun part _ => ?_) places
    exact (filterMap_range'_getElem? _ _ _).symm
  have dealt {parts : List (Nat × List Slot)} (whole : parts.flatMap (·.2) = frontier) :
      ((Scan.dealt (Scan.crew workers parts.length) parts).flatMap (·.2)).Perm frontier := by
    -- However few workers are asked for, there is one.
    have employed : 0 < Scan.crew workers parts.length := by
      rw [Scan.crew]
      omega
    have perm := (Scan.dealt_perm employed parts).flatMap_right (·.2)
    rwa [whole] at perm
  exact dealt stretches

end Schedule

namespace Marking

/-- Offering objects marks them, and keeps just those of them that were not marked before. -/
theorem offerAll_spec (state : Level) (slots : List Slot) (slot : Slot) :
    ((state.offerAll slots).marks.test slot = true ↔
        slot ∈ slots ∨ state.marks.test slot = true) ∧
      (slot ∈ (state.offerAll slots).found ↔
        slot ∈ state.found ∨ slot ∈ slots ∧ state.marks.test slot = false) := by
  induction slots generalizing state with
  | nil => simp [Level.offerAll]
  | cons first rest ih =>
    obtain ⟨marked, found⟩ := ih (state.offer first)
    -- The first object is marked and, if it was new, found.
    have marks : (state.offer first).marks.test slot =
        (decide (slot = first) || state.marks.test slot) :=
      SharedBitSet.test_testAndMark_snd _ _ _
    have kept : slot ∈ (state.offer first).found ↔
        slot ∈ state.found ∨ slot = first ∧ state.marks.test first = false := by
      show slot ∈ (if (state.marks.testAndMark first).1 then _ else _) ↔ _
      rw [SharedBitSet.testAndMark_fst]
      cases known : state.marks.test first <;> simp [or_comm]
    have step : state.offerAll (first :: rest) = (state.offer first).offerAll rest := rfl
    rw [step, marked, found, marks, kept]
    by_cases same : slot = first
    · subst same
      cases state.marks.test slot <;> simp
    · simp [same]

/-- Working on objects offers all that they refer to. -/
theorem expand_eq (graph : HeapGraph) (marks : SharedBitSet) (frontier : List Slot) :
    expand graph marks frontier = Level.offerAll ⟨marks, []⟩ (frontier.flatMap graph.referents) :=
  (List.foldl_flatMap ..).symm

/-- The marks of a level are on what is reached, and whatever was worked on has its references
marked. -/
structure Level.Sound (graph : HeapGraph) (state : Level) : Prop where
  roots : ∀ slot, graph.Flows .superRoot (.object slot) → state.marks.test slot = true
  reached : ∀ slot, state.marks.test slot = true → graph.Reached slot
  marked : ∀ slot ∈ state.found, state.marks.test slot = true
  done : ∀ source, state.marks.test source = true → source ∉ state.found →
    ∀ target ∈ graph.referents source, state.marks.test target = true

variable {graph : HeapGraph} {state : Level} {schedule : Schedule}

/-- The roots are found first. -/
theorem sound_start (graph : HeapGraph) :
    (Level.offerAll ⟨.ofCount graph.objectCount, []⟩
      (graph.roots.toList.map (·.1))).Sound graph := by
  have spec (slot : Slot) := offerAll_spec ⟨.ofCount graph.objectCount, []⟩
    (graph.roots.toList.map (·.1)) slot
  simp only [SharedBitSet.test_ofCount, Bool.false_eq_true, or_false, List.not_mem_nil, false_or,
    and_true] at spec
  -- What is offered first are the objects to which the node above all roots leads.
  have isRoot (slot : Slot) : slot ∈ graph.roots.toList.map (·.1) ↔
      graph.Flows .superRoot (.object slot) := by
    rw [List.mem_map]
    constructor
    · intro listed
      obtain ⟨⟨_, kind⟩, root, rfl⟩ := listed
      exact .root (Array.mem_toList_iff.mp root)
    · intro edge
      cases edge with
      | root root => exact ⟨_, Array.mem_toList_iff.mpr root, rfl⟩
  refine ⟨fun slot edge => (spec slot).1.mpr ((isRoot slot).mpr edge), fun slot marked => ?_,
    fun slot found => (spec slot).1.mpr ((spec slot).2.mp found), fun source marked new => ?_⟩
  · exact ⟨_, .extend .start ((isRoot slot).mp ((spec slot).1.mp marked))⟩
  · exact absurd ((spec source).2.mpr ((spec source).1.mp marked)) new

/-- Working on all objects of a level leads from marks that are right to marks that are right. -/
theorem Level.Sound.expand (sound : state.Sound graph) {frontier : List Slot}
    (all : ∀ slot, slot ∈ frontier ↔ slot ∈ state.found) :
    (expand graph state.marks frontier).Sound graph := by
  have spec (slot : Slot) := offerAll_spec ⟨state.marks, []⟩
    (frontier.flatMap graph.referents) slot
  simp only [List.not_mem_nil, false_or] at spec
  rw [expand_eq]
  refine ⟨fun slot edge => (spec slot).1.mpr (.inr (sound.roots slot edge)), fun slot marked => ?_,
    fun slot found => (spec slot).1.mpr (.inl ((spec slot).2.mp found).1),
    fun source marked old target refers => ?_⟩
  · rcases (spec slot).1.mp marked with offered | before
    · obtain ⟨source, worked, refers⟩ := List.mem_flatMap.mp offered
      have reached := sound.reached source (sound.marked source ((all source).mp worked))
      exact Flow.Reaches.step reached (.reference refers)
    · exact sound.reached slot before
  · -- What is not found now was marked before, and is worked on now or was so earlier.
    have before : state.marks.test source = true := by
      by_contra unmarked
      rw [Bool.not_eq_true] at unmarked
      rcases (spec source).1.mp marked with offered | known
      · exact old ((spec source).2.mpr ⟨offered, unmarked⟩)
      · rw [unmarked] at known
        cases known
    by_cases found : source ∈ state.found
    · exact (spec target).1.mpr
        (.inl (List.mem_flatMap.mpr ⟨source, (all source).mpr found, refers⟩))
    · exact (spec target).1.mpr (.inr (sound.done source before found target refers))

/-- Once nothing is found any more, the marks are on what the roots reach. -/
theorem Level.Sound.test_iff (sound : state.Sound graph) (ended : state.found = [])
    (slot : Slot) : state.marks.test slot = true ↔ graph.Reached slot := by
  refine ⟨sound.reached slot, fun reached => ?_⟩
  obtain ⟨nodes, path⟩ := reached
  -- The induction is on the way from the roots, each object of which is marked with the one before.
  have all : ∀ node, Flow.Path graph.Flows .superRoot node nodes →
      ∀ slot, node = .object slot → state.marks.test slot = true := by
    clear path
    induction nodes with
    | nil =>
      intro node path
      obtain ⟨_, none⟩ := path.exists_cons
      cases none
    | cons last nodes ih =>
      intro node path slot same
      cases path with
      | start => cases same
      | extend path edge =>
        subst same
        cases edge with
        | root root => exact sound.roots slot (.root root)
        | reference refers =>
          exact sound.done _ (ih _ path _ rfl) (by simp [ended]) slot refers
  exact all _ path slot rfl

/-- Objects of the heap that are not marked. -/
def unmarked (graph : HeapGraph) (marks : SharedBitSet) : Finset Nat :=
  (Finset.range graph.objectCount).filter fun slot => marks.test slot = false

/-- A level on which something is found leaves fewer objects unmarked. -/
theorem card_unmarked_expand (made : graph.Made) (marks : SharedBitSet) (frontier : List Slot)
    (found : (expand graph marks frontier).found ≠ []) :
    (unmarked graph (expand graph marks frontier).marks).card < (unmarked graph marks).card := by
  obtain ⟨slot, rest, begins⟩ := List.exists_cons_of_ne_nil found
  rw [expand_eq] at begins ⊢
  have spec (slot : Slot) := offerAll_spec ⟨marks, []⟩ (frontier.flatMap graph.referents) slot
  obtain ⟨offered, new⟩ : slot ∈ frontier.flatMap graph.referents ∧ marks.test slot = false := by
    simpa [begins] using (spec slot).2
  -- Nothing is unmarked again, and what was found is marked.
  have fewer : unmarked graph (Level.offerAll ⟨marks, []⟩ (frontier.flatMap graph.referents)).marks
      ⊆ unmarked graph marks := by
    refine Finset.monotone_filter_right _ fun other _ left => ?_
    by_contra before
    rw [Bool.not_eq_false] at before
    rw [(spec other).1.mpr (.inr before)] at left
    cases left
  refine Finset.card_lt_card ((Finset.ssubset_iff_of_subset fewer).mpr ⟨slot, ?_, ?_⟩)
  · obtain ⟨source, _, refers⟩ := List.mem_flatMap.mp offered
    exact Finset.mem_filter.mpr ⟨Finset.mem_range.mpr (made.target_lt refers), new⟩
  · intro left
    have marked := (Finset.mem_filter.mp left).2
    rw [(spec slot).1.mpr (.inl offered)] at marked
    cases marked

/-- Level after level, the marks come to be on what the roots reach. -/
theorem test_advance (made : graph.Made) (fair : schedule.Fair) (levels level : Nat)
    (sound : state.Sound graph)
    (enough : state.found = [] ∨ (unmarked graph state.marks).card < levels) (slot : Slot) :
    (advance graph schedule levels level state).test slot = true ↔ graph.Reached slot := by
  induction levels generalizing level state with
  | zero =>
    have ended : state.found = [] := enough.resolve_right (Nat.not_lt_zero _)
    exact sound.test_iff ended slot
  | succ levels ih =>
    rw [advance]
    split
    · rename_i ended
      exact sound.test_iff (List.isEmpty_iff.mp ended) slot
    · rename_i goesOn
      have all (slot : Slot) : slot ∈ schedule level state.found.reverse ↔ slot ∈ state.found :=
        (fair level _).mem_iff.trans List.mem_reverse
      refine ih (level + 1) (sound.expand all) ?_
      -- A level that finds something leaves less unmarked, so that the levels do not run out.
      by_cases ended : (expand graph state.marks (schedule level state.found.reverse)).found = []
      · exact .inl ended
      · have fewer := card_unmarked_expand made _ _ ended
        have before := enough.resolve_left fun none => goesOn (by rw [none]; rfl)
        exact .inr (by omega)

/-- On every fair schedule the marks are on what the roots reach. -/
theorem test_reachable (made : graph.Made) (fair : schedule.Fair) (slot : Slot) :
    (reachable graph schedule).test slot = true ↔ graph.Reached slot := by
  rw [reachable, SharedBitSet.test_toDense]
  refine test_advance made fair _ 0 (sound_start graph) (.inr ?_) slot
  have all := Finset.card_filter_le (Finset.range graph.objectCount) fun slot =>
    (Level.offerAll ⟨.ofCount graph.objectCount, []⟩ (graph.roots.toList.map (·.1))).marks.test
      slot = false
  rw [Finset.card_range] at all
  exact Nat.lt_succ_of_le all

end Marking

end HeapAtlas
