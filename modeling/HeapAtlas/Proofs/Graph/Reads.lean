import HeapAtlas.Proofs.Graph.Sound

/-! Reading a sound heap: every place that is read is there, and no default is ever taken. -/

namespace HeapAtlas

/-- Both ends of a group are there, and they cut a part out of the items. -/
structure Ragged.Cuts {α : Type} (ragged : Ragged α) (index : Nat) : Prop where
  start : ragged.offsets[index]? = some (ragged.start index)
  stop : ragged.offsets[index + 1]? = some (ragged.stop index)
  order : ragged.start index ≤ ragged.stop index
  within : ragged.stop index ≤ ragged.items.size

/-- Tiled offsets cut out every group. -/
theorem Ragged.Tiled.cuts {α : Type} {ragged : Ragged α} {groups index : Nat}
    (tiled : ragged.Tiled groups) (within : index < groups) : ragged.Cuts index where
  -- There is one offset more than there are groups.
  start := getElem?_eq_some_getD (by rw [tiled.size_offsets]; omega) 0
  stop := getElem?_eq_some_getD (by rw [tiled.size_offsets]; omega) 0
  order := tiled.start_mono (Nat.le_add_right index 1) within
  within := tiled.start_last ▸ tiled.start_mono (Nat.succ_le_of_lt within) (Nat.le_refl groups)

/-- The positions of a group that is cut out are among the items. -/
theorem Ragged.Cuts.lt_size {α : Type} {ragged : Ragged α} {index position : Nat}
    (cuts : ragged.Cuts index) (among : position ∈ ragged.positions index) :
    position < ragged.items.size := by
  have upto := cuts.within
  simp only [Ragged.positions, Ragged.groupSize, List.mem_range'_1] at among
  omega

/-- Reading the items of a list loses none of them when each can be read. -/
theorem forall₂_filterMap {α β : Type} {items : List α} {read? : α → Option β} {R : α → β → Prop}
    (each : ∀ item ∈ items, ∃ value, read? item = some value ∧ R item value) :
    List.Forall₂ R items (items.filterMap read?) := by
  -- The first item gives its value, and the others give theirs behind it.
  induction items with
  | nil => exact .nil
  | cons item rest ih =>
    obtain ⟨value, held, related⟩ := each item List.mem_cons_self
    rw [List.filterMap_cons_some held]
    exact .cons related (ih fun other member => each other (List.mem_cons_of_mem _ member))

namespace HeapGraph

variable {graph : HeapGraph}

/-- What is read of an object is there. -/
structure ReadsObject (graph : HeapGraph) (slot : Slot) : Prop where
  held : graph.objects[slot]? = some (graph.objectAt slot)
  classOf_lt : graph.classOf slot < graph.classCount
  edges : graph.edges.Cuts slot
  incoming : graph.incoming.Cuts slot
  primitives : graph.primitives.Cuts slot
  outEdges_lt : ∀ edge ∈ graph.outEdges slot, edge < graph.edgeCount
  referents_lt : ∀ target ∈ graph.referents slot, target < graph.objectCount
  inEdges_lt : ∀ arrival ∈ graph.inEdges slot,
    arrival.source < graph.objectCount ∧ arrival.edge < graph.edgeCount
  /-- Every primitive field has a name and a value, so that none is left out. -/
  primitivesOf : List.Forall₂ (fun row field => graph.names.get? row.name = some field.name ∧
      PrimitiveValue.ofBits? row.tag row.bits = some field.value)
    (graph.primitives.group slot) (graph.primitivesOf slot)

/-- What is read of a class is there. -/
structure ReadsClass (graph : HeapGraph) (classSlot : Slot) : Prop where
  held : graph.classes[classSlot]? = some (graph.classAt classSlot)
  className : graph.names.get? (graph.classAt classSlot).name = some (graph.className classSlot)
  superclass_lt : ∀ above, graph.superclass? classSlot = some above → above < graph.classCount
  fields : graph.classFields.Cuts classSlot
  declaredFields : List.Forall₂ (fun index name => graph.names.get? index = some name)
    (graph.classFields.group classSlot) (graph.declaredFields classSlot)

/-- What is read of a reference is there. -/
structure ReadsEdge (graph : HeapGraph) (edge : Nat) : Prop where
  held : graph.edges.items[edge]? = some (graph.edgeAt edge)
  target_lt : ∀ slot, (graph.edgeAt edge).target = some slot → slot < graph.objectCount
  /-- The target of a dangling reference is kept apart, and is an object that is not there. -/
  dangling : (graph.edgeAt edge).target = none →
    graph.danglingTarget? edge = some (graph.targetId edge) ∧
      graph.slotOf? (graph.targetId edge) = none
  label : ∀ index, (graph.edgeAt edge).label = .name index →
    ∃ name, graph.names.get? index = some name ∧ graph.label edge = .field name
  edgeType : (graph.edgeAt edge).typeTag = 0 ∨ (graph.edgeType? edge).isSome

/-- The object in a slot of the heap is there. -/
theorem getElem?_objects {slot : Slot} (within : slot < graph.objectCount) :
    graph.objects[slot]? = some (graph.objectAt slot) :=
  getElem?_eq_some_getD within default

/-- The class in a slot of the heap is there. -/
theorem getElem?_classes {classSlot : Slot} (within : classSlot < graph.classCount) :
    graph.classes[classSlot]? = some (graph.classAt classSlot) :=
  getElem?_eq_some_getD within default

/-- The reference at a position of the heap is there. -/
theorem getElem?_edges {edge : Nat} (within : edge < graph.edgeCount) :
    graph.edges.items[edge]? = some (graph.edgeAt edge) :=
  getElem?_eq_some_getD within default

namespace Sound

variable (sound : graph.Sound)

include sound

/-- What is read of any object of the heap is there. -/
theorem readsObject {slot : Slot} (within : slot < graph.objectCount) :
    graph.ReadsObject slot where
  held := getElem?_objects within
  classOf_lt := sound.classSlot_lt _ (Array.mem_of_getElem? (getElem?_objects within))
  edges := sound.edges.cuts within
  incoming := sound.incoming.cuts within
  primitives := sound.primitives.cuts within
  outEdges_lt := fun _ among => (sound.edges.cuts within).lt_size among
  referents_lt := by
    intro target refers
    -- A referent is the target of a reference that stands in the object's group.
    obtain ⟨entry, member, leads⟩ := List.mem_filterMap.mp refers
    obtain ⟨position, _, held⟩ := Ragged.mem_group.mp member
    exact sound.target_lt entry (Array.mem_of_getElem? held) target leads
  inEdges_lt := by
    intro arrival member
    -- Wherever an arrival stands, its source and its edge are there.
    obtain ⟨position, _, held⟩ := Ragged.mem_group.mp member
    exact sound.arrival_lt arrival (Array.mem_of_getElem? held)
  primitivesOf := by
    refine forall₂_filterMap fun row member => ?_
    obtain ⟨position, _, held⟩ := Ragged.mem_group.mp member
    have stored := Array.mem_of_getElem? held
    -- A value can be made of every row, and there is a name for its index.
    obtain ⟨value, decoded⟩ := Option.isSome_iff_exists.mp (sound.primitiveTag row stored)
    exact ⟨⟨graph.names.get row.name, value⟩, by rw [decoded]; rfl,
      NameTable.get?_eq_some_get (sound.primitiveName_lt row stored), decoded⟩

/-- What is read of any class of the heap is there. -/
theorem readsClass {classSlot : Slot} (within : classSlot < graph.classCount) :
    graph.ReadsClass classSlot where
  held := getElem?_classes within
  className := NameTable.get?_eq_some_get
    (sound.className_lt _ (Array.mem_of_getElem? (getElem?_classes within)))
  superclass_lt := sound.superclass_lt _ (Array.mem_of_getElem? (getElem?_classes within))
  fields := sound.classFields.cuts within
  -- The declared fields are read one by one, each from the table of names.
  declaredFields := by
    rw [declaredFields, List.forall₂_map_right_iff, List.forall₂_same]
    intro index member
    obtain ⟨position, _, held⟩ := Ragged.mem_group.mp member
    exact NameTable.get?_eq_some_get (sound.fieldName_lt index (Array.mem_of_getElem? held))

/-- The target of a dangling reference is found by halving, as the edges ascend. -/
theorem danglingTarget?_eq {edge : Nat} (within : edge < graph.edgeCount)
    (missing : (graph.edgeAt edge).target = none) :
    ∃ id, (edge, id) ∈ graph.dangling ∧ graph.danglingTarget? edge = some id := by
  -- Every edge without a slot for its target is among those kept apart.
  have listed : edge ∈ graph.dangling.toList.map (·.1) := by
    rw [sound.dangling, List.mem_filter, List.mem_range]
    exact ⟨within, decide_eq_true missing⟩
  have ascends : (graph.dangling.toList.map (·.1)).Pairwise (· < ·) := by
    rw [sound.dangling]
    exact List.pairwise_lt_range.filter _
  obtain ⟨⟨other, id⟩, member, rfl⟩ := List.mem_map.mp listed
  obtain ⟨position, held⟩ := Array.mem_iff_getElem?.mp (Array.mem_toList_iff.mp member)
  -- The pair stands somewhere, and there it is found by its edge.
  have halved := bisect?_ascending (ascends.imp Nat.compare_eq_lt.mpr) held
  refine ⟨id, Array.mem_toList_iff.mp member, ?_⟩
  rw [danglingTarget?, halved, Option.bind_some, held]
  rfl

/-- What is read of any reference of the heap is there. -/
theorem readsEdge {edge : Nat} (within : edge < graph.edgeCount) : graph.ReadsEdge edge where
  held := getElem?_edges within
  target_lt := sound.target_lt _ (Array.mem_of_getElem? (getElem?_edges within))
  dangling := by
    intro missing
    obtain ⟨id, kept, found⟩ := sound.danglingTarget?_eq within missing
    have target : graph.targetId edge = id := by
      rw [targetId, missing]
      show (graph.danglingTarget? edge).getD default = id
      rw [found, Option.getD_some]
    rw [target]
    refine ⟨found, ?_⟩
    -- An object of that identifier would be one of those that are there.
    cases lookup : graph.slotOf? id with
    | none => rfl
    | some slot =>
      obtain ⟨entry, held, same⟩ := Option.map_eq_some_iff.mp ((sound.lookup id slot).mp lookup)
      exact absurd same (sound.dangling_absent _ kept entry (Array.mem_of_getElem? held))
  label := by
    intro index named
    have entry := Array.mem_of_getElem? (getElem?_edges within)
    refine ⟨graph.names.get index,
      NameTable.get?_eq_some_get (sound.labelName_lt _ entry index named), ?_⟩
    rw [HeapGraph.label, named]
  edgeType := sound.edgeTag _ (Array.mem_of_getElem? (getElem?_edges within))

/-- An object that is found by its identifier is one of the heap's. -/
theorem slotOf?_lt {id : ObjectId} {slot : Slot} (found : graph.slotOf? id = some slot) :
    slot < graph.objectCount := by
  obtain ⟨entry, held, _⟩ := Option.map_eq_some_iff.mp ((sound.lookup id slot).mp found)
  exact (Array.getElem?_eq_some_iff.mp held).1

end Sound

/-- A class that is found by its identifier is one of the heap's. -/
theorem classSlotOf?_lt {id : ClassId} {slot : Slot} (found : graph.classSlotOf? id = some slot) :
    slot < graph.classCount :=
  (bisect?_sound found).2.1

/-- What a reader of a heap can hold: an object or a class by its slot, a reference by its place. -/
inductive Handle where
  | object (slot : Slot)
  | class (classSlot : Slot)
  | edge (position : Nat)

/-- A handle stands for something that is there. -/
def Handle.Within (graph : HeapGraph) : Handle → Prop
  | .object slot => slot < graph.objectCount
  | .class classSlot => classSlot < graph.classCount
  | .edge position => position < graph.edgeCount

/--
The handles that a reader comes by, who makes up none.

Some are found by what names them or by counting through the heap, and the others are read off what
is held already.
-/
inductive Obtained (graph : HeapGraph) : Handle → Prop where
  | counted {slot : Slot} (within : slot < graph.objectCount) : Obtained graph (.object slot)
  | countedClass {classSlot : Slot} (within : classSlot < graph.classCount) :
    Obtained graph (.class classSlot)
  | found {id : ObjectId} {slot : Slot} (found : graph.slotOf? id = some slot) :
    Obtained graph (.object slot)
  | foundClass {id : ClassId} {classSlot : Slot} (found : graph.classSlotOf? id = some classSlot) :
    Obtained graph (.class classSlot)
  | named {name : String} {classSlot : Slot} (named : classSlot ∈ graph.classesNamed name) :
    Obtained graph (.class classSlot)
  | root {slot : Slot} {kind : RootKind} (root : (slot, kind) ∈ graph.roots) :
    Obtained graph (.object slot)
  | classOf {slot : Slot} (held : Obtained graph (.object slot)) :
    Obtained graph (.class (graph.classOf slot))
  | superclass {classSlot above : Slot} (held : Obtained graph (.class classSlot))
    (leads : graph.superclass? classSlot = some above) : Obtained graph (.class above)
  | outEdge {slot : Slot} {edge : Nat} (held : Obtained graph (.object slot))
    (among : edge ∈ graph.outEdges slot) : Obtained graph (.edge edge)
  | referent {slot target : Slot} (held : Obtained graph (.object slot))
    (refers : target ∈ graph.referents slot) : Obtained graph (.object target)
  | target {edge : Nat} {target : Slot} (held : Obtained graph (.edge edge))
    (leads : (graph.edgeAt edge).target = some target) : Obtained graph (.object target)
  | arrivalSource {slot : Slot} {arrival : InEdge} (held : Obtained graph (.object slot))
    (arrives : arrival ∈ graph.inEdges slot) : Obtained graph (.object arrival.source)
  | arrivalEdge {slot : Slot} {arrival : InEdge} (held : Obtained graph (.object slot))
    (arrives : arrival ∈ graph.inEdges slot) : Obtained graph (.edge arrival.edge)

/-- Reading never leads out of a sound heap. -/
theorem Obtained.within {handle : Handle} (sound : graph.Sound)
    (obtained : graph.Obtained handle) : handle.Within graph := by
  -- The induction is on the way the handle was come by, one case for each way of reading.
  induction obtained with
  | counted within => exact within
  | countedClass within => exact within
  | found found => exact sound.slotOf?_lt found
  | foundClass found => exact classSlotOf?_lt found
  | named named => exact List.mem_range.mp (List.mem_filter.mp named).1
  | root root => exact sound.root_lt _ root
  | classOf _ ih => exact (sound.readsObject ih).classOf_lt
  | superclass _ leads ih => exact (sound.readsClass ih).superclass_lt _ leads
  | outEdge _ among ih => exact (sound.readsObject ih).outEdges_lt _ among
  | referent _ refers ih => exact (sound.readsObject ih).referents_lt _ refers
  | target _ leads ih => exact (sound.readsEdge ih).target_lt _ leads
  | arrivalSource _ arrives ih => exact ((sound.readsObject ih).inEdges_lt _ arrives).1
  | arrivalEdge _ arrives ih => exact ((sound.readsObject ih).inEdges_lt _ arrives).2

end HeapGraph

end HeapAtlas
