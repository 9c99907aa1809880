import HeapAtlas.Inspect
import HeapAtlas.Proofs.Dominance.Absorb
import HeapAtlas.Proofs.Paths.Within
import HeapAtlas.Proofs.Ranking.Timed

/-! Whatever is worked out from a heap stays in it: marks, numbers, dominators, paths, rankings. -/

namespace HeapAtlas

variable {graph : HeapGraph}

namespace Marking

/-- What is offered is found, and nothing else that was not found before. -/
theorem mem_found_offerAll {slots : List Slot} {state : Level} {slot : Slot}
    (found : slot ∈ (state.offerAll slots).found) : slot ∈ state.found ∨ slot ∈ slots := by
  -- The induction is on what is offered, the first of it before the rest.
  induction slots generalizing state with
  | nil => exact .inl found
  | cons first rest ih =>
    rcases @ih (state.offer first) found with before | later
    · obtain ⟨marks, held⟩ := state
      dsimp only [Level.offer] at before
      split at before
      · exact .inl before
      · rcases List.mem_cons.mp before with rfl | old
        · exact .inr List.mem_cons_self
        · exact .inl old
    · exact .inr (List.mem_cons_of_mem _ later)

/-- What is found from objects of the heap are objects of the heap. -/
theorem lt_of_mem_expand (sound : graph.Sound) {frontier : List Slot}
    (inside : ∀ slot ∈ frontier, slot < graph.objectCount) (marks : SharedBitSet) :
    ∀ slot ∈ (expand graph marks frontier).found, slot < graph.objectCount := by
  -- The induction is on the frontier, with whatever was found before it.
  have general : ∀ state : Level, (∀ slot ∈ state.found, slot < graph.objectCount) →
      ∀ slot ∈ (frontier.foldl (fun state slot => state.offerAll (graph.referents slot))
        state).found, slot < graph.objectCount := by
    induction frontier with
    | nil => exact fun _ kept => kept
    | cons first rest ih =>
      intro state kept
      refine ih (fun later member => inside later (List.mem_cons_of_mem _ member)) _ ?_
      intro slot found
      rcases mem_found_offerAll found with old | refers
      · exact kept slot old
      · exact (sound.readsObject (inside first List.mem_cons_self)).referents_lt slot refers
  exact general _ (by simp)

end Marking

namespace Inspect

/-- Climbing goes through classes of the heap. -/
theorem lt_of_mem_climb (sound : graph.Sound) (room : Nat) {chain : List Slot}
    (inside : ∀ classSlot ∈ chain, classSlot < graph.classCount) :
    ∀ classSlot ∈ climb graph room chain, classSlot < graph.classCount := by
  -- The induction is on the room, with one more class above the chain at each step.
  induction room generalizing chain with
  | zero => exact inside
  | succ room ih =>
    rw [climb]
    split
    · exact inside
    · rename_i above leads
      split
      · exact inside
      · -- The class above the last one climbed to is there, as that one is.
        obtain ⟨top, atHead, leads⟩ := Option.bind_eq_some_iff.mp leads
        have topInside := inside top (List.mem_of_mem_head? atHead)
        exact ih (List.forall_mem_cons.mpr
          ⟨(sound.readsClass topInside).superclass_lt above leads, inside⟩)

end Inspect

/-- What is worked out from a heap that leads out of it nowhere. -/
structure HeapGraph.Enclosed (graph : HeapGraph) : Prop where
  /-- The roots and what is found from objects level by level are objects. -/
  roots : ∀ root ∈ graph.roots, root.1 < graph.objectCount
  marking : ∀ (marks : SharedBitSet) (frontier : List Slot),
    (∀ slot ∈ frontier, slot < graph.objectCount) →
      ∀ slot ∈ (Marking.expand graph marks frontier).found, slot < graph.objectCount
  /-- The order numbers objects, with a place for each of them. -/
  order : ∀ slot ∈ (Postorder.ofGraph graph).slots, slot < graph.objectCount
  numbers : (Postorder.ofGraph graph).numbers.size = graph.objectCount
  /-- Candidates are numbers of the order, or the one above them. -/
  candidates : ∀ (number above : Nat),
    (Dominance.candidatesOf graph (Postorder.ofGraph graph))[number]? = some (some above) →
      number ≤ (Postorder.ofGraph graph).size ∧ above ≤ (Postorder.ofGraph graph).size
  /-- Every object has a size and a place for its dominator, which is an object too. -/
  retained : ∀ schedule, (RetainedSizes.compute graph schedule).retained.size = graph.objectCount
  dominators : ∀ schedule,
    (RetainedSizes.compute graph schedule).dominators.size = graph.objectCount
  dominator : ∀ schedule slot above,
    (RetainedSizes.compute graph schedule).dominator? slot = some (.object above) →
      slot < graph.objectCount ∧ above < graph.objectCount
  /-- A search holds only trails and paths of the heap, after any number of levels. -/
  searches : ∀ target < graph.objectCount, ∀ limits deadline now visited levels wanted,
    (PathSearch.advance graph limits deadline now levels 0 [.ofTarget target]
      ⟨visited, [], [], wanted, 0, .searching⟩).Within graph
  paths : ∀ target < graph.objectCount, ∀ limits deadline now visited,
    ∀ path ∈ (pathsToRoot graph target limits deadline now visited).1.value, path.Within graph
  retainers : ∀ target < graph.objectCount, ∀ limit,
    ∀ arrival ∈ (directRetainers graph target limit).1,
      arrival.source < graph.objectCount ∧ arrival.edge < graph.edgeCount
  /-- An index has an entry for every class and ranks objects, whole or cut short. -/
  rankedClasses : ∀ sizes options deadline now,
    (RankingIndex.build graph sizes options deadline now).value.classes.size = graph.classCount
  ranked : ∀ sizes options deadline now name topN key slots,
    (RankingIndex.build graph sizes options deadline now).value.byClass graph name topN key
      = some slots → ∀ slot ∈ slots, slot < graph.objectCount
  chain : ∀ classSlot < graph.classCount, ∀ above ∈ Inspect.classChain graph classSlot,
    above < graph.classCount

/-- The dominators of a heap are its objects. -/
theorem RetainedSizes.dominator_lt (made : graph.Made) (schedule : Schedule) {slot above : Slot}
    (dominated : (compute graph schedule).dominator? slot = some (.object above)) :
    slot < graph.objectCount ∧ above < graph.objectCount := by
  have sound := Postorder.sound_ofGraph made
  have settled := Dominance.settled_candidatesOf made sound
  have absorbed := absorbed_compute made schedule
  -- Only an object with a number has a dominator, and that is what its entry stands for.
  by_cases numbered : ∃ number < (Postorder.ofGraph graph).size,
      (Postorder.ofGraph graph).slotAt number = slot
  · obtain ⟨number, within, rfl⟩ := numbered
    obtain ⟨higher, entry, _⟩ := settled.immediate number within
    have node := absorbed.dominator number higher within entry
    rw [dominated] at node
    refine ⟨slotAt_lt made sound within, ?_⟩
    -- The number above stands for an object, or for what is above all of them.
    rw [Dominance.nodeOf] at node
    split at node
    · rename_i below
      cases node
      exact slotAt_lt made sound below
    · cases node
  · have nothing := absorbed.undominated slot fun number within same =>
      numbered ⟨number, within, same⟩
    rw [dominated] at nothing
    cases nothing

/-- Nothing that is worked out from a heap leads out of it. -/
theorem HeapGraph.Made.enclosed (made : graph.Made) : graph.Enclosed where
  roots := made.sound.root_lt
  marking := fun marks _ inside => Marking.lt_of_mem_expand made.sound inside marks
  order := by
    intro slot member
    obtain ⟨number, held⟩ := Array.mem_iff_getElem?.mp member
    have sound := Postorder.sound_ofGraph made
    obtain ⟨within, rfl⟩ := Postorder.of_getElem?_slots held
    exact RetainedSizes.slotAt_lt made sound within
  numbers := (Postorder.sound_ofGraph made).numbered.size
  -- What is proposed as a dominator has a number, and numbers end with that of the top.
  candidates := by
    intro number above entry
    have settled := Dominance.settled_candidatesOf made (Postorder.sound_ofGraph made)
    exact ⟨settled.rising.le_last ⟨above, entry⟩,
      settled.rising.le_last (settled.rising.known_above entry)⟩
  retained := fun schedule => (RetainedSizes.absorbed_compute made schedule).size_retained
  dominators := fun schedule => (RetainedSizes.absorbed_compute made schedule).size_dominators
  dominator := fun schedule _ _ => RetainedSizes.dominator_lt made schedule
  searches := fun _ within _ _ _ visited levels wanted =>
    PathSearch.Search.Within.ofTarget made.sound within visited levels wanted
  paths := fun _ within => pathsToRoot_within made.sound within
  retainers := fun target within limit arrival member =>
    (made.sound.readsObject within).inEdges_lt arrival (List.mem_of_mem_take member)
  rankedClasses := fun sizes options deadline now =>
    (RankingIndex.covers_build graph sizes options deadline now).size_classes
  ranked := fun _ _ _ _ _ _ _ _ => RankingIndex.lt_of_mem_byClass
  chain := fun _ within =>
    Inspect.lt_of_mem_climb made.sound _ (List.forall_mem_singleton.mpr within)

/--
A heap that was built or read is sound.

So whatever is read of it by the handles that a reader comes by is there, no default stands in for
it, and nothing that is worked out from the heap leads out of it.
-/
theorem HeapGraph.Made.sound_and_enclosed (made : graph.Made) :
    graph.Sound ∧
      (∀ slot < graph.objectCount, graph.ReadsObject slot) ∧
      (∀ classSlot < graph.classCount, graph.ReadsClass classSlot) ∧
      (∀ edge < graph.edgeCount, graph.ReadsEdge edge) ∧
      (∀ handle, graph.Obtained handle → handle.Within graph) ∧ graph.Enclosed :=
  ⟨made.sound, fun _ within => made.sound.readsObject within,
    fun _ within => made.sound.readsClass within, fun _ within => made.sound.readsEdge within,
    fun _ obtained => obtained.within made.sound, made.enclosed⟩

/-- The ring is sound, and the target of its dangling reference is kept apart. -/
theorem HeapGraph.ring_sound_and_enclosed :
    Columns.ring.resolved.Made ∧ Columns.ring.resolved.Sound ∧
      Columns.ring.resolved.dangling = #[(3, ⟨9⟩)] ∧
      Columns.ring.resolved.danglingTarget? 3 = some (Columns.ring.resolved.targetId 3) := by
  obtain ⟨sound, _, _, edges, _⟩ := made_ring.sound_and_enclosed
  have within : 3 < Columns.ring.resolved.edgeCount := by decide +kernel
  have missing : (Columns.ring.resolved.edgeAt 3).target = none := by decide +kernel
  exact ⟨made_ring, sound, by decide +kernel, ((edges 3 within).dangling missing).1⟩

end HeapAtlas
