import HeapAtlas.Proofs.Dominance.Meet
import HeapAtlas.Proofs.Dominance.Postorder

/-! The flow graph of a heap with its postorder numbers for nodes, as the candidates know it. -/

namespace HeapAtlas

namespace Postorder

variable {order : Postorder} {number : Nat} {slot : Slot}

/-- The object with a number is found in its place. -/
theorem getElem?_slots (within : number < order.size) :
    order.slots[number]? = some (order.slotAt number) := by
  rw [slotAt, Array.getD_eq_getD_getElem?, Array.getElem?_eq_getElem within, Option.getD_some]

/-- An object that is found has a number within the order, and is the object with it. -/
theorem of_getElem?_slots (found : order.slots[number]? = some slot) :
    number < order.size ∧ order.slotAt number = slot := by
  refine ⟨(Array.getElem?_eq_some_iff.mp found).1, ?_⟩
  rw [slotAt, Array.getD_eq_getD_getElem?, found, Option.getD_some]

end Postorder

namespace Dominance

/-- The node that a number stands for; the one above all others stands for the super-root. -/
def nodeOf (order : Postorder) (number : Nat) : Dominator :=
  if number < order.size then .object (order.slotAt number) else .superRoot

/-- The edges between numbers are those between the nodes that they stand for. -/
def Arrives (graph : HeapGraph) (order : Postorder) (source target : Nat) : Prop :=
  source ≤ order.size ∧ target < order.size ∧
    graph.Flows (nodeOf order source) (nodeOf order target)

variable {graph : HeapGraph} {order : Postorder} {number : Nat}

/-- A number below the last one is that of an object. -/
@[simp] theorem nodeOf_of_lt (within : number < order.size) :
    nodeOf order number = .object (order.slotAt number) := if_pos within

/-- The last number is that of the node above all roots. -/
@[simp] theorem nodeOf_size : nodeOf order order.size = .superRoot := if_neg (Nat.lt_irrefl _)

/-- On ways along the edges there are only numbers and the one above them. -/
theorem le_size_of_path {nodes : List Nat}
    (path : Flow.Path (Arrives graph order) order.size number nodes) :
    ∀ node ∈ nodes, node ≤ order.size :=
  path.forall_mem (Nat.le_refl _) fun edge => Nat.le_of_lt edge.2.1

/-- Only the super-root stands for the number above all others. -/
theorem nodeOf_injective (sound : order.Sound graph) {first second : Nat}
    (firstWithin : first ≤ order.size) (secondWithin : second ≤ order.size)
    (same : nodeOf order first = nodeOf order second) : first = second := by
  -- Each of the two stands for an object or for the super-root.
  rcases Nat.lt_or_eq_of_le firstWithin with firstBelow | rfl <;>
    rcases Nat.lt_or_eq_of_le secondWithin with secondBelow | rfl
  · rw [nodeOf_of_lt firstBelow, nodeOf_of_lt secondBelow] at same
    -- One object has one number.
    have firstNumber := (sound.numbered.number?_eq _ _).mpr (Postorder.getElem?_slots firstBelow)
    have secondNumber := (sound.numbered.number?_eq _ _).mpr (Postorder.getElem?_slots secondBelow)
    rw [Dominator.object.inj same, secondNumber] at firstNumber
    exact (Option.some.inj firstNumber).symm
  · rw [nodeOf_of_lt firstBelow, nodeOf_size] at same
    cases same
  · rw [nodeOf_of_lt secondBelow, nodeOf_size] at same
    cases same
  · rfl

/-- An object has a number exactly when it is reached. -/
theorem exists_number_iff (sound : order.Sound graph) {slot : Slot} :
    (∃ number, number < order.size ∧ order.slotAt number = slot) ↔ graph.Reached slot := by
  -- What is reached is what was put in order.
  rw [← sound.mem_iff, List.mem_iff_getElem?]
  simp only [Array.getElem?_toList]
  constructor
  · intro numbered
    obtain ⟨number, within, rfl⟩ := numbered
    exact ⟨number, Postorder.getElem?_slots within⟩
  · intro listed
    obtain ⟨number, found⟩ := listed
    exact ⟨number, Postorder.of_getElem?_slots found⟩

/-- Every object that is numbered has an edge from above. -/
theorem exists_arrives_above (sound : order.Sound graph) (within : number < order.size) :
    ∃ source, number < source ∧ Arrives graph order source number := by
  -- The edge comes from the super-root, above all numbers, or from a higher number.
  rcases sound.parent number _ (Postorder.getElem?_slots within) with
    edge | ⟨higher, above, up, found, edge⟩
  · exact ⟨order.size, within, Nat.le_refl _, within, by rwa [nodeOf_size, nodeOf_of_lt within]⟩
  · obtain ⟨inside, rfl⟩ := Postorder.of_getElem?_slots found
    exact ⟨higher, up, Nat.le_of_lt inside, within,
      by rwa [nodeOf_of_lt inside, nodeOf_of_lt within]⟩

/-- Every number is reached, by the edges from above. -/
theorem reaches_number (sound : order.Sound graph) (within : number ≤ order.size) :
    Flow.Reaches (Arrives graph order) order.size number := by
  induction number, within using climb_induction with
  | arrived => exact ⟨_, .start⟩
  | climbs number below ih =>
    -- The source of the edge stands higher, so it is reached.
    obtain ⟨source, up, edge⟩ := exists_arrives_above sound below
    exact (ih source edge.1 up).step edge

/-- Numbers stand for all that is reached, and their edges for all edges between that. -/
theorem renames (sound : order.Sound graph) :
    Flow.Renames (nodeOf order) (Arrives graph order) order.size graph.Flows .superRoot where
  origin := nodeOf_size
  forth edge := edge.2.2
  back {source node} reached edge := by
    obtain ⟨nodes, path⟩ := reached
    have within := le_size_of_path path source path.mem
    -- Edges end at objects, and this one is reached because the source is.
    have reachedSource : Flow.Reaches graph.Flows .superRoot (nodeOf order source) := by
      rcases Nat.lt_or_eq_of_le within with below | rfl
      · rw [nodeOf_of_lt below]
        exact (exists_number_iff sound).mp ⟨source, below, rfl⟩
      · rw [nodeOf_size]
        exact ⟨_, .start⟩
    cases node with
    | superRoot =>
      -- No edge leads to the super-root.
      generalize nodeOf order source = start at edge
      cases edge
    | object slot =>
      obtain ⟨target, below, rfl⟩ := (exists_number_iff sound).mpr (reachedSource.step edge)
      rw [← nodeOf_of_lt below] at edge ⊢
      exact ⟨target, rfl, within, below, edge⟩
  injective := by
    intro first second reachedFirst reachedSecond same
    obtain ⟨_, firstPath⟩ := reachedFirst
    obtain ⟨_, secondPath⟩ := reachedSecond
    exact nodeOf_injective sound (le_size_of_path firstPath _ firstPath.mem)
      (le_size_of_path secondPath _ secondPath.mem) same

/-- Before any predecessor speaks, the super-root does, if the object is a root. -/
theorem agreed_root {candidates : Candidates} (rising : Rising candidates order.size)
    (number : Nat) :
    Agreed candidates (fun source => source = order.size ∧
      graph.isRoot (order.slotAt number) = true)
      (if graph.isRoot (order.slotAt number) then some order.size else none) := by
  -- For a root the last number speaks, which lies on every way; for others nothing does.
  split
  · rename_i root
    refine ⟨⟨_, rising.top⟩, fun higher => ⟨?_, fun all => all _ ⟨rfl, root⟩⟩⟩
    intro way source speaks
    exact speaks.1.symm ▸ way
  · rename_i none
    exact fun source spoke => none spoke.2

/-- The proposal for a number is what those with an edge to it agree on. -/
theorem agreed_proposal (made : graph.Made) (sound : order.Sound graph) {candidates : Candidates}
    (rising : Rising candidates order.size) (within : number < order.size) :
    Agreed candidates (fun source => Arrives graph order source number ∧ Known candidates source)
      (proposal graph order candidates number) := by
  -- The object of a number is one of the heap, as an edge leads to it.
  have bound : order.slotAt number < graph.objectCount := by
    obtain ⟨_, _, _, _, edge⟩ := exists_arrives_above sound within
    rw [nodeOf_of_lt within] at edge
    exact Postorder.lt_of_flows made edge
  refine (rising.agreed_foldl _ (agreed_root rising number)).congr fun source => ?_
  -- The speakers are the super-root, where it has the edge, and the numbers of the referrers.
  simp only [List.mem_filterMap, made.mem_inSources bound]
  constructor
  · intro speaks
    rcases speaks with ⟨rfl, root⟩ | ⟨⟨slot, refers, number?⟩, known⟩
    · obtain ⟨kind, root⟩ := made.isRoot_iff.mp root
      refine ⟨⟨Nat.le_refl _, within, ?_⟩, _, rising.top⟩
      rw [nodeOf_size, nodeOf_of_lt within]
      exact .root root
    · obtain ⟨below, rfl⟩ :=
        Postorder.of_getElem?_slots ((sound.numbered.number?_eq _ _).mp number?)
      refine ⟨⟨Nat.le_of_lt below, within, ?_⟩, known⟩
      rw [nodeOf_of_lt below, nodeOf_of_lt within]
      exact .reference refers
  · intro speaks
    obtain ⟨⟨least, _, edge⟩, known⟩ := speaks
    rw [nodeOf_of_lt within] at edge
    rcases Nat.lt_or_eq_of_le least with below | rfl
    · rw [nodeOf_of_lt below] at edge
      cases edge with
      | reference refers =>
        exact .inr ⟨⟨_, refers, (sound.numbered.number?_eq _ _).mpr
          (Postorder.getElem?_slots below)⟩, known⟩
    · rw [nodeOf_size] at edge
      cases edge with
      | root root => exact .inl ⟨rfl, made.isRoot_iff.mpr ⟨_, root⟩⟩

end Dominance

end HeapAtlas
