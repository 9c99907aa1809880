import HeapAtlas.Graph.Access
import HeapAtlas.Proofs.Graph.Faultless

/-! Reading the records back from the heap that was made from them. -/

namespace HeapAtlas

namespace Columns

variable {columns : Columns}

/-- A heap has a class for every row of one. -/
@[simp] theorem classCount_resolved : columns.resolved.classCount = columns.classes.size := by
  simp [HeapGraph.classCount, resolved]

/-- A heap has an object for every row of one. -/
@[simp] theorem objectCount_resolved : columns.resolved.objectCount = columns.objects.size := by
  simp [HeapGraph.objectCount, resolved]

/-- A heap has a reference for every row of one, though some lead nowhere. -/
@[simp] theorem edgeCount_resolved : columns.resolved.edgeCount = columns.edges.items.size := by
  simp [HeapGraph.edgeCount, resolved, Ragged.map]

/-- The entry of a class is its row, with the superclass looked up. -/
theorem classAt_resolved {slot : Slot} {row : ClassRow} (held : columns.classes[slot]? = some row) :
    columns.resolved.classAt slot
      = ⟨row.id, row.name, row.superclass.bind columns.classSlot?⟩ := by
  simp [HeapGraph.classAt, resolved, Array.getD_eq_getD_getElem?, held]

/-- The entry of an object is its row, with the class looked up. -/
theorem objectAt_resolved {slot : Slot} {row : ObjectRow}
    (held : columns.objects[slot]? = some row) :
    columns.resolved.objectAt slot
      = ⟨row.id, (columns.classSlot? row.classId).getD 0, row.size⟩ := by
  simp [HeapGraph.objectAt, resolved, Array.getD_eq_getD_getElem?, held]

/-- The entry of a reference is its row, with the target looked up. -/
theorem edgeAt_resolved {edge : Nat} {row : EdgeRow}
    (held : columns.edges.items[edge]? = some row) :
    columns.resolved.edgeAt edge
      = ⟨columns.objectSlot? columns.slotIndex row.target, row.label, row.typeTag⟩ := by
  simp [HeapGraph.edgeAt, resolved, Ragged.map, Array.getD_eq_getD_getElem?, held]

/-- The class in the slot of an identifier has that identifier. -/
theorem classId_of_classSlot? {id : ClassId} {slot : Slot}
    (found : columns.classSlot? id = some slot) : columns.resolved.classId slot = id := by
  -- The class was found in the row that holds its identifier.
  obtain ⟨row, held, same⟩ := classSlot?_sound found
  rw [HeapGraph.classId, classAt_resolved held, same]

/-- The object in the slot of an identifier has that identifier. -/
theorem Faultless.objectId_of_objectSlot? (faultless : columns.Faultless) {id : ObjectId}
    {slot : Slot} (found : columns.objectSlot? columns.slotIndex id = some slot) :
    columns.resolved.objectId slot = id := by
  -- The object was found in the row that holds its identifier.
  obtain ⟨row, held, same⟩ := faultless.objectSlot?_sound found
  rw [HeapGraph.objectId, objectAt_resolved held, same]

/-- The references without a slot are listed in the order of the edges. -/
theorem danglingOf_ascends (slot? : ObjectId → Option Slot) (edges : Ragged EdgeRow) :
    ((danglingOf slot? edges).toList.map (·.1)).Pairwise (· < ·) := by
  -- Rows are looked through in the order of their positions.
  have positions : (edges.items.toList.zipIdx.map (·.2)).Pairwise (· < ·) := by
    rw [List.zipIdx_map_snd]
    exact List.pairwise_lt_range'
  rw [danglingOf, List.pairwise_map, List.pairwise_filterMap]
  refine (List.pairwise_map.mp positions).imp fun {first second} less one two other three => ?_
  -- What is kept of a row has the row's position.
  have kept {row : EdgeRow × Nat} {item : Nat × ObjectId}
      (some_ : (if (slot? row.1.target).isNone then some (row.2, row.1.target) else none)
        = some item) : item.1 = row.2 := by
    split at some_
    · cases some_
      rfl
    · cases some_
  rw [kept two, kept three]
  exact less

/-- A reference without a slot is listed with its target. -/
theorem mem_danglingOf {slot? : ObjectId → Option Slot} {edges : Ragged EdgeRow} {edge : Nat}
    {row : EdgeRow} (held : edges.items[edge]? = some row) (missing : slot? row.target = none) :
    (edge, row.target) ∈ danglingOf slot? edges := by
  -- The row stands at the edge among the numbered rows, and is not left out.
  unfold danglingOf
  have standing : (row, edge) ∈ edges.items.toList.zipIdx :=
    List.mem_zipIdx_iff_getElem?.mpr (by simpa using held)
  simp only [List.mem_toArray, List.mem_filterMap]
  exact ⟨(row, edge), standing, by simp [missing]⟩

/-- The target of a reference is the one recorded, whether the heap holds it or not. -/
theorem Faultless.targetId_resolved (faultless : columns.Faultless) {edge : Nat} {row : EdgeRow}
    (held : columns.edges.items[edge]? = some row) :
    columns.resolved.targetId edge = row.target := by
  rw [HeapGraph.targetId, edgeAt_resolved held]
  cases found : columns.objectSlot? columns.slotIndex row.target with
  -- The target is in the heap, and is read off its slot.
  | some slot => exact faultless.objectId_of_objectSlot? found
  | none =>
    -- The target is kept apart, and halving finds it by its edge.
    obtain ⟨position, listed⟩ := Array.mem_iff_getElem?.mp (mem_danglingOf held found)
    have dangling : columns.resolved.dangling[position]? = some (edge, row.target) := listed
    have ascends : (columns.resolved.dangling.toList.map (·.1)).Pairwise (· < ·) :=
      danglingOf_ascends _ _
    have halved := bisect?_ascending (ascends.imp Nat.compare_eq_lt.mpr) dangling
    have kept : columns.resolved.danglingTarget? edge = some row.target := by
      rw [HeapGraph.danglingTarget?, halved, Option.bind_some, dangling]
      rfl
    show (columns.resolved.danglingTarget? edge).getD default = row.target
    rw [kept]
    rfl

/-- The roots of the heap are those recorded. -/
theorem Faultless.gcRoots_resolved (faultless : columns.Faultless) :
    columns.resolved.gcRoots = columns.roots.toList := by
  -- Every root was found, so it is read off its slot as it was recorded.
  have same : ∀ root ∈ columns.roots.toList,
      (⟨columns.resolved.objectId ((columns.objectSlot? columns.slotIndex root.object).getD 0),
        root.kind⟩ : GcRoot) = root := by
    intro root member
    obtain ⟨slot, found⟩ := Option.isSome_iff_exists.mp
      (faultless.root_isSome root (Array.mem_toList_iff.mp member))
    rw [found, Option.getD_some, faultless.objectId_of_objectSlot? found]
  unfold HeapGraph.gcRoots
  show List.map _ (columns.roots.map _).toList = _
  rw [Array.toList_map, List.map_map]
  exact (List.map_congr_left same).trans (List.map_id' _)

end Columns

end HeapAtlas
