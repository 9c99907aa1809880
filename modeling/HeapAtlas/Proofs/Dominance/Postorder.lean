import HeapAtlas.Proofs.Dominance.Flow
import HeapAtlas.Proofs.Graph.Made

/-! The depth-first walk numbers what the roots reach, each object below one that leads to it. -/

namespace HeapAtlas.Postorder

variable {graph : HeapGraph}

/-- What the references of a frame come from. -/
def Frame.source (frame : Frame) : Dominator :=
  match frame.slot with
  | none => .superRoot
  | some slot => .object slot

/-- The objects entered and not left, the latest first. -/
def entered (stack : List Frame) : List Slot := stack.filterMap (·.slot)

/-- Each frame stands on the one it was entered from, and all on the frame of the roots. -/
inductive Nested (graph : HeapGraph) : List Frame → Prop where
  | roots {targets : List Slot}
    (leads : ∀ target ∈ targets, graph.Flows .superRoot (.object target)) :
    Nested graph [⟨none, targets⟩]
  | enter {slot : Slot} {targets : List Slot} {lower : Frame} {rest : List Frame}
    (below : Nested graph (lower :: rest)) (edge : graph.Flows lower.source (.object slot))
    (leads : ∀ target ∈ targets, graph.Flows (.object slot) (.object target)) :
    Nested graph (⟨some slot, targets⟩ :: lower :: rest)

/-- The numbers say where the objects stand in the order. -/
structure Numbered (graph : HeapGraph) (order : Postorder) : Prop where
  size : order.numbers.size = graph.objectCount
  number?_eq : ∀ (slot : Slot) (number : Nat),
    order.number? slot = some number ↔ order.slots[number]? = some slot

/-- A node that a walk has come to: the super-root, or an object that is marked. -/
def Walk.Met (walk : Walk) (node : Dominator) : Prop :=
  node = .superRoot ∨ ∃ slot, node = .object slot ∧ walk.visited.test slot = true

/-- What every walk keeps to from its beginning to its end. -/
structure Walk.Sound (graph : HeapGraph) (walk : Walk) : Prop where
  nested : walk.stack = [] ∨ Nested graph walk.stack
  distinct : (entered walk.stack ++ walk.order.slots.toList).Nodup
  visited : ∀ slot, walk.visited.test slot = true ↔
    slot ∈ entered walk.stack ++ walk.order.slots.toList
  numbered : Numbered graph walk.order
  reached : ∀ slot, walk.visited.test slot = true → graph.Reached slot
  pending : ∀ source target, walk.Met source → graph.Flows source (.object target) →
    walk.visited.test target = true ∨
      ∃ frame ∈ walk.stack, frame.source = source ∧ target ∈ frame.targets
  parent : ∀ (number : Nat) (slot : Slot), walk.order.slots[number]? = some slot →
    ∃ source, graph.Flows source (.object slot) ∧
      (source = .superRoot ∨ ∃ above, source = .object above ∧
        (above ∈ entered walk.stack ∨
          ∃ higher : Nat, number < higher ∧ walk.order.slots[higher]? = some above))

/-- Objects at the end of an edge are objects of the heap. -/
theorem lt_of_flows (made : graph.Made) {source : Dominator} {slot : Slot}
    (edge : graph.Flows source (.object slot)) : slot < graph.objectCount := by
  cases edge with
  | root root => exact made.root_lt root
  | reference refers => exact made.target_lt refers

/-- The source of a frame is the super-root or one of the objects entered. -/
theorem Frame.source_eq {frame : Frame} {stack : List Frame} (member : frame ∈ stack) :
    frame.source = .superRoot ∨ ∃ slot, frame.source = .object slot ∧ slot ∈ entered stack := by
  -- A frame without an object is the one of the roots.
  obtain ⟨held, targets⟩ := frame
  cases held with
  | none => exact .inl rfl
  | some slot => exact .inr ⟨slot, rfl, List.mem_filterMap.mpr ⟨_, member, rfl⟩⟩

/-- Giving an object the next number says where it stands. -/
theorem Numbered.add {order : Postorder} (numbered : Numbered graph order) {slot : Slot}
    (within : slot < graph.objectCount) (new : slot ∉ order.slots.toList) :
    Numbered graph (order.add slot) where
  size := by rw [Postorder.add, Array.size_setIfInBounds, numbered.size]
  number?_eq other number := by
    have inBounds : slot < order.numbers.size := numbered.size ▸ within
    have before := numbered.number?_eq other number
    simp only [number?, Postorder.add, Array.getElem?_setIfInBounds, Array.getElem?_push]
      at before ⊢
    by_cases same : slot = other
    · -- The object itself had no number before, and now has the last one.
      subst same
      rw [if_pos rfl, if_pos inBounds, Option.join_some, Option.some.injEq]
      constructor
      · intro last
        rw [if_pos last.symm]
      · intro held
        split at held
        · rename_i last
          exact last.symm
        · exact absurd (Array.mem_toList_iff.mpr (Array.mem_of_getElem? held)) new
    · -- Any other object keeps its number, which is not the last.
      rw [if_neg same, before]
      constructor
      · intro held
        have below := (Array.getElem?_eq_some_iff.mp held).1
        rw [if_neg (by omega), held]
      · intro held
        split at held
        · exact absurd (Option.some.inj held) same
        · exact held

namespace Walk.Sound

variable {slot : Option Slot} {object target : Slot} {targets : List Slot} {rest : List Frame}
  {visited : DenseBitSet} {order : Postorder}

/-- A frame without targets has nothing that could wait in it. -/
theorem pending_below {source : Dominator} {other : Slot}
    (sound : Walk.Sound graph ⟨⟨slot, []⟩ :: rest, visited, order⟩)
    (met : Walk.Met ⟨⟨slot, []⟩ :: rest, visited, order⟩ source)
    (edge : graph.Flows source (.object other)) :
    visited.test other = true ∨ ∃ frame ∈ rest, frame.source = source ∧ other ∈ frame.targets := by
  rcases sound.pending source other met edge with marked | ⟨frame, member, equal, waits⟩
  · exact .inl marked
  · rcases List.mem_cons.mp member with rfl | below
    · cases waits
    · exact .inr ⟨frame, below, equal, waits⟩

/-- When all roots were followed, the walk ends. -/
theorem finish (sound : Walk.Sound graph ⟨⟨none, []⟩ :: rest, visited, order⟩) :
    Walk.Sound graph ⟨rest, visited, order⟩ where
  nested := by
    -- Only the frame of the roots has no object, and it is the last one.
    rcases sound.nested with none | nested
    · cases none
    · cases nested
      exact .inl rfl
  distinct := sound.distinct
  visited := sound.visited
  numbered := sound.numbered
  reached := sound.reached
  pending _ _ met edge := sound.pending_below met edge
  parent := sound.parent

/-- Following a reference leaves the frames as they stand. -/
theorem nested_tail (sound : Walk.Sound graph ⟨⟨slot, target :: targets⟩ :: rest, visited, order⟩) :
    Nested graph (⟨slot, targets⟩ :: rest) := by
  -- A frame with one target less still leads to all that it has.
  rcases sound.nested with none | nested
  · cases none
  · cases nested with
    | roots leads => exact .roots fun other member => leads other (List.mem_cons_of_mem _ member)
    | enter below edge leads =>
      exact .enter below edge fun other member => leads other (List.mem_cons_of_mem _ member)

/-- The next target is at the end of an edge from the frame's source. -/
theorem flows_head (sound : Walk.Sound graph ⟨⟨slot, target :: targets⟩ :: rest, visited, order⟩) :
    graph.Flows (Frame.mk slot targets).source (.object target) := by
  -- Whatever waits in a frame is at the end of an edge from its source.
  rcases sound.nested with none | nested
  · cases none
  · cases nested with
    | roots leads => exact leads target List.mem_cons_self
    | enter below edge leads => exact leads target List.mem_cons_self

/-- The source of the upper frame is reached. -/
theorem reaches_source (sound : Walk.Sound graph ⟨⟨slot, targets⟩ :: rest, visited, order⟩)
    (others : List Slot) :
    Flow.Reaches graph.Flows .superRoot (Frame.mk slot others).source := by
  cases slot with
  | none => exact ⟨_, .start⟩
  | some slot =>
    -- An object that was entered is marked, and marks are only on what is reached.
    refine sound.reached slot ((sound.visited slot).mpr (List.mem_append_left _ ?_))
    exact List.mem_filterMap.mpr ⟨_, List.mem_cons_self, rfl⟩

/-- Besides the next target, what is not marked waits in a frame as it stands after it. -/
theorem pending_tail {source : Dominator} {other : Slot}
    (sound : Walk.Sound graph ⟨⟨slot, target :: targets⟩ :: rest, visited, order⟩)
    (met : Walk.Met ⟨⟨slot, target :: targets⟩ :: rest, visited, order⟩ source)
    (edge : graph.Flows source (.object other)) :
    other = target ∨ visited.test other = true ∨
      ∃ frame ∈ ⟨slot, targets⟩ :: rest, frame.source = source ∧ other ∈ frame.targets := by
  -- Only the next target leaves its frame.
  rcases sound.pending source other met edge with marked | ⟨frame, member, equal, waits⟩
  · exact .inr (.inl marked)
  · rcases List.mem_cons.mp member with rfl | below
    · rcases List.mem_cons.mp waits with same | later
      · exact .inl same
      · exact .inr (.inr ⟨_, List.mem_cons_self, equal, later⟩)
    · exact .inr (.inr ⟨frame, List.mem_cons_of_mem _ below, equal, waits⟩)

/-- An object whose references were all followed is left. -/
theorem leave (made : graph.Made)
    (sound : Walk.Sound graph ⟨⟨some object, []⟩ :: rest, visited, order⟩) :
    Walk.Sound graph ⟨rest, visited, order.add object⟩ := by
  -- It moves from those entered to the end of the order, so that nothing else changes.
  have moved : (entered (⟨some object, []⟩ :: rest) ++ order.slots.toList).Perm
      (entered rest ++ (order.add object).slots.toList) := by
    simp only [entered, List.filterMap_cons, Postorder.add, Array.toList_push, List.cons_append]
    rw [← List.append_assoc]
    show ([object] ++ _).Perm _
    exact List.perm_append_comm
  -- It was entered, and nothing is in two places.
  have new : object ∉ order.slots.toList := by
    have distinct := sound.distinct
    simp only [entered, List.filterMap_cons, List.cons_append, List.nodup_cons, List.mem_append,
      not_or] at distinct
    exact distinct.1.2
  -- The frame of an object always stands on the one from which it was entered.
  rcases sound.nested with none | nested
  · cases none
  cases nested with
  | @enter _ _ lower below nested edge leads =>
  refine ⟨.inr nested, moved.nodup_iff.mp sound.distinct, fun slot => ?_,
    sound.numbered.add (lt_of_flows made edge) new, sound.reached, ?_, ?_⟩
  · rw [← moved.mem_iff]
    exact sound.visited slot
  · intro source target met edge
    exact sound.pending_below met edge
  · intro number slot held
    simp only [Postorder.add, Array.getElem?_push] at held ⊢
    split at held
    · -- The frame below is where the object was entered from.
      cases held
      rcases Frame.source_eq (List.mem_cons_self (a := lower) (l := below)) with root | inside
      · exact ⟨lower.source, edge, .inl root⟩
      · obtain ⟨above, equal, member⟩ := inside
        exact ⟨lower.source, edge, .inr ⟨above, equal, .inl member⟩⟩
    · -- An older number keeps its source, which may be the object that is being left.
      obtain ⟨source, edge, root | ⟨above, rfl, position⟩⟩ := sound.parent number slot held
      · exact ⟨source, edge, .inl root⟩
      · refine ⟨_, edge, .inr ⟨above, rfl, ?_⟩⟩
        have short := (Array.getElem?_eq_some_iff.mp held).1
        rcases position with inside | ⟨higher, up, found⟩
        · rcases List.mem_cons.mp inside with rfl | still
          · -- The object that is left takes the last number, which is higher than all others.
            exact .inr ⟨order.slots.size, short, by rw [if_pos rfl]⟩
          · exact .inl still
        · have shorter := (Array.getElem?_eq_some_iff.mp found).1
          exact .inr ⟨higher, up, by rw [if_neg (Nat.ne_of_lt shorter)]; exact found⟩

/-- A target that is marked already is passed over. -/
theorem skip (sound : Walk.Sound graph ⟨⟨slot, target :: targets⟩ :: rest, visited, order⟩)
    (known : visited.test target = true) :
    Walk.Sound graph ⟨⟨slot, targets⟩ :: rest, (visited.insert target).2, order⟩ := by
  -- The target was marked before, so marking it again changes no mark.
  have marks : ∀ other, (visited.insert target).2.test other = visited.test other := by
    intro other
    rw [DenseBitSet.test_insert_snd]
    by_cases same : other = target
    · simp [same, known]
    · simp [same]
  refine ⟨.inr (sound.nested_tail), sound.distinct, fun other => ?_, sound.numbered,
    fun other marked => sound.reached other ((marks other).symm.trans marked), ?_, sound.parent⟩
  · rw [marks]
    exact sound.visited other
  · intro source other met edge
    simp only [Walk.Met, marks] at met ⊢
    -- The target that left its frame is marked.
    rcases sound.pending_tail met edge with rfl | before | waiting
    · exact .inl known
    · exact .inl before
    · exact .inr waiting

/-- A target that is new is marked and entered. -/
theorem enter (sound : Walk.Sound graph ⟨⟨slot, target :: targets⟩ :: rest, visited, order⟩)
    (new : visited.test target = false) :
    Walk.Sound graph ⟨⟨some target, graph.referents target⟩ :: ⟨slot, targets⟩ :: rest,
      (visited.insert target).2, order⟩ := by
  -- The new frame is entered by the edge that the target waited for.
  have entry := sound.flows_head
  have marks : ∀ other, (visited.insert target).2.test other = true ↔
      other = target ∨ visited.test other = true := by
    intro other
    rw [DenseBitSet.test_insert_snd, Bool.or_eq_true, decide_eq_true_eq]
  -- What is entered or numbered is marked, which the target was not.
  have unlisted : target ∉ entered (⟨slot, targets⟩ :: rest) ++ order.slots.toList := by
    intro listed
    exact absurd ((sound.visited target).mpr listed) (by simp [new])
  refine ⟨.inr (.enter sound.nested_tail entry fun _ refers => .reference refers),
    List.nodup_cons.mpr ⟨unlisted, sound.distinct⟩, fun other => ?_, sound.numbered, ?_, ?_, ?_⟩
  · rw [marks, sound.visited]
    exact List.mem_cons.symm
  · intro other marked
    rcases (marks other).mp marked with rfl | before
    · -- The target is reached by the edge from the frame below.
      exact (sound.reaches_source targets).step entry
    · exact sound.reached other before
  · intro source other met edge
    -- A node met before goes on as it did; the new object's references all wait in its own frame.
    have earlier (met : Walk.Met ⟨⟨slot, target :: targets⟩ :: rest, visited, order⟩ source) :
        (visited.insert target).2.test other = true ∨
          ∃ frame ∈ ⟨some target, graph.referents target⟩ :: ⟨slot, targets⟩ :: rest,
            frame.source = source ∧ other ∈ frame.targets := by
      rcases sound.pending_tail met edge with same | before | ⟨frame, member, waits⟩
      · exact .inl ((marks other).mpr (.inl same))
      · exact .inl ((marks other).mpr (.inr before))
      · exact .inr ⟨frame, List.mem_cons_of_mem _ member, waits⟩
    rcases met with root | ⟨held, equal, marked⟩
    · exact earlier (.inl root)
    · -- The source is the object that is being entered, or it was met before.
      rcases (marks held).mp marked with same | before
      · rw [equal, same] at edge
        cases edge with
        | reference refers => exact .inr ⟨_, List.mem_cons_self, by rw [equal, same]; rfl, refers⟩
      · exact earlier (.inr ⟨held, equal, before⟩)
  · intro number other held
    -- No number is given, and what was entered stays so.
    obtain ⟨source, edge, root | ⟨above, rfl, position⟩⟩ := sound.parent number other held
    · exact ⟨source, edge, .inl root⟩
    · refine ⟨_, edge, .inr ⟨above, rfl, ?_⟩⟩
      rcases position with inside | later
      · exact .inl (List.mem_cons_of_mem _ inside)
      · exact .inr later

/-- Whatever a walk keeps to is kept by a step. -/
theorem step (made : graph.Made) {walk : Walk} (sound : walk.Sound graph) :
    (walk.step graph).Sound graph := by
  obtain ⟨stack, visited, order⟩ := walk
  -- The cases are those of a step: an end, a frame that is done, and a target old or new.
  rcases stack with _ | ⟨⟨slot, targets⟩, rest⟩
  · exact sound
  · cases targets with
    | nil =>
      cases slot with
      | none => exact sound.finish
      | some object => exact sound.leave made
    | cons target targets =>
      simp only [Walk.step, DenseBitSet.insert_fst]
      cases known : visited.test target with
      | true => exact sound.skip known
      | false => exact sound.enter known

/-- Whatever a walk keeps to is kept by a run. -/
theorem run (made : graph.Made) (steps : Nat) {walk : Walk} (sound : walk.Sound graph) :
    (Walk.run graph steps walk).Sound graph := by
  -- The run stops early when no frame is left, and else goes on after a step.
  induction steps generalizing walk with
  | zero => exact sound
  | succ steps ih =>
    rw [Walk.run]
    split
    · exact sound
    · exact ih (sound.step made)

end Walk.Sound

/-- A walk that is about to begin has nothing to answer for. -/
theorem Walk.sound_start : (Walk.start graph).Sound graph where
  nested := .inr (.roots fun target member => by
    obtain ⟨⟨slot, kind⟩, root, rfl⟩ := List.mem_map.mp member
    exact .root (Array.mem_toList_iff.mp root))
  distinct := List.nodup_nil
  visited slot := by simp [Walk.start, entered]
  numbered := ⟨by simp [Walk.start], fun slot number => by
    simp only [Walk.start, number?, Array.getElem?_replicate]
    split <;> simp⟩
  reached slot marked := by simp [Walk.start] at marked
  pending source target met edge := by
    rcases met with rfl | ⟨slot, _, marked⟩
    · -- The roots wait in the one frame.
      cases edge with
      | root root =>
        exact .inr ⟨_, List.mem_singleton_self _, rfl,
          List.mem_map_of_mem (f := (·.1)) (Array.mem_toList_iff.mpr root)⟩
    · simp [Walk.start] at marked
  parent number slot held := by simp [Walk.start] at held

/-- Objects of the heap that a walk has not come to. -/
def Walk.unvisited (graph : HeapGraph) (walk : Walk) : Finset Nat :=
  (Finset.range graph.objectCount).filter fun slot => walk.visited.test slot = false

/-- Steps that are left: to follow every reference and to leave every frame. -/
def Walk.stepsLeft (graph : HeapGraph) (walk : Walk) : Nat :=
  (walk.stack.map fun frame => frame.targets.length + 1).sum
    + ∑ slot ∈ walk.unvisited graph, ((graph.referents slot).length + 1)

/-- Every step before the end takes one of those that are left. -/
theorem Walk.stepsLeft_step (made : graph.Made) {walk : Walk} (sound : walk.Sound graph)
    (busy : walk.stack ≠ []) : (walk.step graph).stepsLeft graph + 1 = walk.stepsLeft graph := by
  -- The cases are those of a step, as before.
  obtain ⟨stack, visited, order⟩ := walk
  rcases stack with _ | ⟨⟨slot, targets⟩, rest⟩
  · exact absurd rfl busy
  · cases targets with
    | nil =>
      -- The frame that goes counted for one step, and the marks stay.
      have same (order' : Postorder) : Walk.unvisited graph ⟨rest, visited, order'⟩
          = Walk.unvisited graph ⟨⟨slot, []⟩ :: rest, visited, order⟩ := rfl
      cases slot with
      | none =>
        simp only [Walk.step, Walk.stepsLeft, same, List.map_cons, List.sum_cons, List.length_nil]
        omega
      | some object =>
        simp only [Walk.step, Walk.stepsLeft, same, List.map_cons, List.sum_cons, List.length_nil]
        omega
    | cons target targets =>
      have within := lt_of_flows made sound.flows_head
      simp only [Walk.step, DenseBitSet.insert_fst]
      cases known : visited.test target with
      | true =>
        -- One target less waits, and the marks say the same as before.
        have same : Walk.unvisited graph ⟨⟨slot, targets⟩ :: rest, (visited.insert target).2, order⟩
            = Walk.unvisited graph ⟨⟨slot, target :: targets⟩ :: rest, visited, order⟩ := by
          simp only [Walk.unvisited, DenseBitSet.insert, known, if_true]
        simp only [Bool.not_true, Bool.false_eq_true, if_false, Walk.stepsLeft, same,
          List.map_cons, List.sum_cons, List.length_cons]
        omega
      | false =>
        -- The new frame takes over the steps that were set aside for its object.
        have new : target ∈
            Walk.unvisited graph ⟨⟨slot, target :: targets⟩ :: rest, visited, order⟩ :=
          Finset.mem_filter.mpr ⟨Finset.mem_range.mpr within, known⟩
        have fewer : Walk.unvisited graph ⟨⟨some target, graph.referents target⟩ ::
              ⟨slot, targets⟩ :: rest, (visited.insert target).2, order⟩
            = (Walk.unvisited graph ⟨⟨slot, target :: targets⟩ :: rest, visited, order⟩).erase
              target := by
          ext other
          simp only [Walk.unvisited, Finset.mem_filter, Finset.mem_erase,
            DenseBitSet.test_insert_snd, Bool.or_eq_false_iff, decide_eq_false_iff_not]
          exact and_left_comm
        have split :=
          Finset.add_sum_erase _ (fun slot : Nat => (graph.referents slot).length + 1) new
        simp only [Bool.not_false, if_true, Walk.stepsLeft, fewer, List.map_cons, List.sum_cons,
          List.length_cons]
        omega

/-- With enough steps a walk comes to its end. -/
theorem Walk.stack_run (made : graph.Made) {steps : Nat} {walk : Walk} (sound : walk.Sound graph)
    (enough : walk.stepsLeft graph ≤ steps) : (Walk.run graph steps walk).stack = [] := by
  induction steps generalizing walk with
  | zero =>
    -- A frame would need a step to be left.
    rw [Walk.run]
    rcases stack : walk.stack with _ | ⟨frame, rest⟩
    · rfl
    · simp [Walk.stepsLeft, stack] at enough
  | succ steps ih =>
    rw [Walk.run]
    split
    · rename_i ended
      exact List.isEmpty_iff.mp ended
    · rename_i busy
      -- A step was taken of those left, so that the others are still enough.
      have taken := stepsLeft_step made sound fun ended => busy (List.isEmpty_iff.mpr ended)
      exact ih (sound.step made) (by omega)

/-- Every root and every reference is followed once, so there are steps enough. -/
theorem Walk.stepsLeft_start_le (made : graph.Made) :
    (Walk.start graph).stepsLeft graph ≤ stepBound graph := by
  -- At the beginning only the roots wait, and every object is still to be entered.
  have references := made.sum_length_referents_le
  have all : Walk.unvisited graph (Walk.start graph) = Finset.range graph.objectCount := by
    simp [Walk.unvisited, Walk.start]
  rw [Walk.stepsLeft, all, Finset.sum_add_distrib, stepBound]
  simp only [Walk.start, List.map_cons, List.map_nil, List.sum_cons, List.sum_nil, List.length_map,
    Array.length_toList, ← Finset.card_eq_sum_ones, Finset.card_range]
  omega

/-- An order of what the roots reach in which something leads to each object from above. -/
structure Sound (graph : HeapGraph) (order : Postorder) : Prop where
  distinct : order.slots.toList.Nodup
  numbered : Numbered graph order
  mem_iff : ∀ slot, slot ∈ order.slots.toList ↔ graph.Reached slot
  parent : ∀ (number : Nat) (slot : Slot), order.slots[number]? = some slot →
    graph.Flows .superRoot (.object slot) ∨ ∃ (higher : Nat) (above : Slot), number < higher ∧
      order.slots[higher]? = some above ∧ graph.Flows (.object above) (.object slot)

/-- At the end of a walk nothing waits, so that all that is reached was left. -/
theorem Walk.Sound.sound_order {walk : Walk} (sound : walk.Sound graph) (ended : walk.stack = []) :
    walk.order.Sound graph := by
  -- Nothing is entered any more, so that the marks are on what was numbered.
  have left : ∀ slot, walk.visited.test slot = true ↔ slot ∈ walk.order.slots.toList := by
    intro slot
    simpa [ended, entered] using sound.visited slot
  refine ⟨by simpa [ended, entered] using sound.distinct, sound.numbered, fun slot => ?_, ?_⟩
  · rw [← left]
    constructor
    · exact sound.reached slot
    · intro reached
      obtain ⟨nodes, path⟩ := reached
      -- Along a way, each object is met because the one before it was.
      have met : ∀ node, Flow.Path graph.Flows .superRoot node nodes → walk.Met node := by
        clear path
        induction nodes with
        | nil =>
          intro node path
          obtain ⟨_, none⟩ := path.exists_cons
          cases none
        | cons last nodes ih =>
          intro node path
          cases path with
          | start => exact .inl rfl
          | extend path edge =>
            cases last with
            | superRoot => exact .inl rfl
            | object slot =>
              rcases sound.pending _ slot (ih _ path) edge with marked | ⟨frame, member, _⟩
              · exact .inr ⟨slot, rfl, marked⟩
              · simp [ended] at member
      rcases met _ path with none | ⟨_, equal, marked⟩
      · cases none
      · cases equal
        exact marked
  · intro number slot held
    -- Something leads to every number from above, as nothing is entered any more.
    obtain ⟨source, edge, rfl | ⟨above, rfl, inside | ⟨higher, up, found⟩⟩⟩ :=
      sound.parent number slot held
    · exact .inl edge
    · simp [ended, entered] at inside
    · exact .inr ⟨higher, above, up, found, edge⟩

/-- The order of a heap numbers what its roots reach. -/
theorem sound_ofGraph (made : graph.Made) : (ofGraph graph).Sound graph :=
  (Walk.sound_start.run made _).sound_order
    (Walk.stack_run made Walk.sound_start (Walk.stepsLeft_start_le made))

end HeapAtlas.Postorder
