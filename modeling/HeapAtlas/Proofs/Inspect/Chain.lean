import HeapAtlas.Inspect
import HeapAtlas.Proofs.Graph.Reads

/-! The classes above a class, in a hierarchy that may lead in a circle. -/

namespace HeapAtlas

namespace HeapGraph

/-- The class that so many steps from class to superclass lead to, if there are so many. -/
def above? (graph : HeapGraph) (classSlot : Slot) : Nat → Option Slot
  | 0 => some classSlot
  | steps + 1 => (graph.above? classSlot steps).bind graph.superclass?

/-- A class and some classes above it, each once and the topmost first. -/
structure Ascent (graph : HeapGraph) (classSlot : Slot) (chain : List Slot) : Prop where
  bottom : chain.getLast? = some classSlot
  leads : chain.IsChain fun above below => graph.superclass? below = some above
  distinct : chain.Nodup

/-- All classes above a class: only a class that is among them could come next. -/
structure Ancestry (graph : HeapGraph) (classSlot : Slot) (chain : List Slot) : Prop
    extends graph.Ascent classSlot chain where
  top : ∀ top ∈ chain.head?, ∀ above, graph.superclass? top = some above → above ∈ chain

variable {graph : HeapGraph}

/-- The classes above one of the heap's classes are the heap's. -/
theorem Made.above?_lt (made : graph.Made) {classSlot slot : Slot}
    (within : classSlot < graph.classCount) {steps : Nat}
    (reached : graph.above? classSlot steps = some slot) : slot < graph.classCount := by
  induction steps generalizing slot with
  | zero =>
    cases reached
    exact within
  | succ steps ih =>
    -- Each step follows a superclass, which the check of the columns keeps in range.
    obtain ⟨below, before, leads⟩ := Option.bind_eq_some_iff.mp reached
    exact (made.sound.readsClass (ih before)).superclass_lt slot leads

namespace Ascent

variable {classSlot : Slot} {chain : List Slot}

/-- The topmost class of an ascent is as many steps away as there are classes below it. -/
theorem head?_eq_above? (bottom : chain.getLast? = some classSlot)
    (leads : chain.IsChain fun above below => graph.superclass? below = some above) :
    chain.head? = graph.above? classSlot (chain.length - 1) := by
  -- The induction is on the chain, whose topmost class is the superclass of the next one.
  induction chain with
  | nil => cases bottom
  | cons top below ih =>
    cases below with
    | nil =>
      cases bottom
      rfl
    | cons next rest =>
      rw [List.getLast?_cons_cons] at bottom
      have step := ih bottom leads.tail
      show some top = (graph.above? classSlot rest.length).bind graph.superclass?
      rw [List.head?_cons, List.length_cons, Nat.add_sub_cancel] at step
      rw [← step, Option.bind_some, leads.rel]

/-- A class of an ascent is fewer steps away than there are classes. -/
theorem exists_above? (ascent : graph.Ascent classSlot chain) {slot : Slot}
    (member : slot ∈ chain) : ∃ steps < chain.length, graph.above? classSlot steps = some slot := by
  -- The class is the topmost one of the ascent that is left without those above it.
  obtain ⟨above, below, rfl⟩ := List.append_of_mem member
  have leads := (List.isChain_append.mp ascent.leads).2.1
  have bottom : (slot :: below).getLast? = some classSlot := by
    rw [← ascent.bottom, List.getLast?_append_cons]
  refine ⟨below.length, ?_, ?_⟩
  · rw [List.length_append, List.length_cons]
    omega
  · simpa using (head?_eq_above? bottom leads).symm

/-- An ascent has no more classes than the heap. -/
theorem length_le (ascent : graph.Ascent classSlot chain) (made : graph.Made)
    (within : classSlot < graph.classCount) : chain.length ≤ graph.classCount := by
  -- Distinct slots below a number are no more than that number.
  have inside : chain ⊆ List.range graph.classCount := fun slot member => by
    obtain ⟨steps, _, reached⟩ := ascent.exists_above? member
    exact List.mem_range.mpr (made.above?_lt within reached)
  simpa using (ascent.distinct.subperm inside).length_le

/-- An ascent goes on with the superclass of its topmost class, unless that is met again. -/
theorem cons (ascent : graph.Ascent classSlot chain) {above : Slot}
    (leads : chain.head?.bind graph.superclass? = some above) (fresh : above ∉ chain) :
    graph.Ascent classSlot (above :: chain) := by
  obtain ⟨top, first, superclass⟩ := Option.bind_eq_some_iff.mp leads
  obtain ⟨below, rfl⟩ := List.head?_eq_some_iff.mp first
  refine ⟨?_, List.isChain_cons_cons.mpr ⟨superclass, ascent.leads⟩,
    List.nodup_cons.mpr ⟨fresh, ascent.distinct⟩⟩
  rw [List.getLast?_cons_cons]
  exact ascent.bottom

/-- With room for all classes, the walk up from an ascent ends only where it has met all. -/
theorem climb (ascent : graph.Ascent classSlot chain) (made : graph.Made)
    (within : classSlot < graph.classCount) {room : Nat}
    (enough : graph.classCount < room + chain.length) :
    graph.Ancestry classSlot (Inspect.climb graph room chain) := by
  -- The induction is on the room, of which every class that is met takes one.
  induction room generalizing chain with
  | zero =>
    -- No room is left only after more classes than there are.
    have few := ascent.length_le made within
    omega
  | succ room ih =>
    rw [Inspect.climb]
    split
    · rename_i last
      refine ⟨ascent, fun top first above leads => ?_⟩
      rw [Option.mem_def.mp first, Option.bind_some, leads] at last
      cases last
    · rename_i above leads
      split
      · rename_i met
        refine ⟨ascent, fun top first other superclass => ?_⟩
        rw [Option.mem_def.mp first, Option.bind_some, superclass] at leads
        cases leads
        exact List.contains_iff_mem.mp met
      · rename_i fresh
        refine ih (ascent.cons leads (by simpa using fresh)) ?_
        rw [List.length_cons]
        omega

end Ascent

namespace Ancestry

variable {classSlot : Slot} {chain : List Slot}

/-- The superclass of a class that was met was met too. -/
theorem mem_of_superclass? (ancestry : graph.Ancestry classSlot chain) {below above : Slot}
    (member : below ∈ chain) (leads : graph.superclass? below = some above) : above ∈ chain := by
  obtain ⟨before, after, rfl⟩ := List.append_of_mem member
  rcases List.eq_nil_or_concat before with rfl | ⟨front, next, rfl⟩
  · exact ancestry.top below rfl above leads
  · -- Any other class stands right behind its superclass.
    have linked := ancestry.leads
    rw [List.concat_eq_append, List.append_assoc, List.singleton_append] at linked
    have superclass := (List.isChain_append_cons_cons.mp linked).2.1
    rw [leads] at superclass
    cases superclass
    simp

/-- However many steps lead to a class, it was met. -/
theorem mem_of_above? (ancestry : graph.Ancestry classSlot chain) {steps : Nat} {slot : Slot}
    (reached : graph.above? classSlot steps = some slot) : slot ∈ chain := by
  induction steps generalizing slot with
  | zero =>
    cases reached
    exact List.mem_of_getLast? ancestry.bottom
  | succ steps ih =>
    obtain ⟨below, before, leads⟩ := Option.bind_eq_some_iff.mp reached
    -- A chain that is closed under superclasses is never left.
    exact ancestry.mem_of_superclass? (ih before) leads

end Ancestry

/-- The chain of a class has all classes above it. -/
theorem Made.ancestry_classChain (made : graph.Made) {classSlot : Slot}
    (within : classSlot < graph.classCount) :
    graph.Ancestry classSlot (Inspect.classChain graph classSlot) := by
  have alone : graph.Ascent classSlot [classSlot] :=
    ⟨rfl, .singleton classSlot, List.nodup_singleton classSlot⟩
  exact alone.climb made within (by rw [List.length_singleton]; omega)

end HeapGraph

end HeapAtlas
