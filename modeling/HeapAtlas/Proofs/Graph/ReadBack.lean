import HeapAtlas.Proofs.Graph.Faults
import HeapAtlas.Proofs.Graph.Resolved

/-! A heap gives back the records that its columns hold. -/

namespace HeapAtlas

/-- A heap holds just some records, in their order, and gives them back as they are. -/
structure HeapGraph.Holds (graph : HeapGraph) (records : HeapRecords) : Prop where
  ascend : records.Ascend
  classCount : graph.classCount = records.classes.length
  objectCount : graph.objectCount = records.objects.length
  classSlots : ∀ id slot,
    graph.classSlotOf? id = some slot ↔ (records.classes.map (·.1))[slot]? = some id
  slots : ∀ id slot, graph.slotOf? id = some slot ↔ (records.objects.map (·.1))[slot]? = some id
  classes : ∀ id, (graph.classSlotOf? id).map graph.classInfo = records.class? id
  objects : ∀ id, (graph.slotOf? id).map graph.objectRecord = records.object? id
  roots : graph.gcRoots = records.roots
  /-- A reference dangles when its target has no record, and keeps the target either way. -/
  edges : ∀ id slot record, graph.slotOf? id = some slot → records.object? id = some record →
    List.Forall₂ (fun edge reference => graph.targetId edge = reference.target ∧
      ((graph.edgeAt edge).target = none ↔ records.object? reference.target = none))
      (graph.outEdges slot) record.edges

namespace NameTable

variable {table : NameTable}

/-- A name that is there is what the table gives. -/
theorem get_eq {index : Nat} {name : String} (held : table.get? index = some name) :
    table.get index = name := by
  rw [get, Array.getD_eq_getD_getElem?]
  exact congrArg (Option.getD · "") held

/-- Indices that read some names give these names. -/
theorem Reads.map_get {indices : List Nat} {names : List String}
    (reads : table.Reads indices names) : indices.map table.get = names := by
  rw [← List.forall₂_eq_eq_eq, List.forall₂_map_left_iff]
  exact reads.imp fun _ _ => get_eq

end NameTable

/-- The positions of a group go with its items. -/
theorem Ragged.Tiled.forall₂_positions {α : Type} {ragged : Ragged α} {groups index : Nat}
    (tiled : ragged.Tiled groups) (within : index < groups) :
    List.Forall₂ (fun position item => ragged.items[position]? = some item)
      (ragged.positions index) (ragged.group index) := by
  rw [List.forall₂_iff_get]
  have size : (ragged.group index).length = ragged.groupSize index := tiled.length_group within
  refine ⟨by rw [positions, List.length_range', size], fun offset inPositions inGroup => ?_⟩
  -- The item at an offset of the group stands so far behind the group's start.
  have held := List.getElem?_eq_getElem inGroup
  rw [List.get_eq_getElem, List.get_eq_getElem, ← held]
  simp only [positions, List.getElem_range', Nat.one_mul]
  rw [group_eq_take_drop, List.getElem?_take_of_lt (size ▸ inGroup), List.getElem?_drop,
    Array.getElem?_toList]

namespace Columns

variable {columns : Columns}

/-- A class is looked up in a heap as in its columns. -/
theorem classSlotOf?_resolved (id : ClassId) :
    columns.resolved.classSlotOf? id = columns.classSlot? id := by
  have ids : (fun slot : Slot => (columns.resolved.classes[slot]?).map ClassEntry.id) =
      fun slot => (columns.classes[slot]?).map ClassRow.id := by
    funext slot
    rw [resolved, Array.getElem?_map, Option.map_map]
    rfl
  rw [HeapGraph.classSlotOf?, ids, classCount_resolved, classSlot?]

/-- An object is looked up in a heap as in its columns. -/
theorem slotOf?_resolved (id : ObjectId) :
    columns.resolved.slotOf? id = columns.objectSlot? columns.slotIndex id := by
  have ids : (fun slot : Slot => (columns.resolved.objects[slot]?).map ObjectEntry.id) =
      fun slot => (columns.objects[slot]?).map ObjectRow.id := by
    funext slot
    rw [resolved, Array.getElem?_map, Option.map_map]
    rfl
  rw [HeapGraph.slotOf?, ids, objectCount_resolved, objectSlot?]
  rfl

/-- The label of a reference is the one that its row stands for. -/
theorem label_resolved {edge : Nat} {row : EdgeRow}
    (held : columns.edges.items[edge]? = some row) {label : EdgeLabel}
    (holds : row.label.Holds columns.names label) : columns.resolved.label edge = label := by
  rw [HeapGraph.label, edgeAt_resolved held]
  -- Names and positions are kept apart, so that only labels of one kind stand for each other.
  cases same : row.label with
  | name index =>
    rw [same] at holds
    cases label with
    | field text => exact congrArg EdgeLabel.field (NameTable.get_eq holds)
    | element position => cases holds
  | element position =>
    rw [same] at holds
    cases label with
    | field text => cases holds
    | element other => exact congrArg EdgeLabel.element holds

/-- The primitive fields of rows are those that the rows stand for. -/
theorem filterMap_primitives {names : NameTable} {rows : List PrimitiveRow}
    {fields : List PrimitiveField} (hold : List.Forall₂ (PrimitiveRow.Holds names) rows fields) :
    (rows.filterMap fun row =>
      (PrimitiveValue.ofBits? row.tag row.bits).map fun value => ⟨names.get row.name, value⟩) =
        fields := by
  induction hold with
  | nil => rfl
  | cons first _ ih =>
    -- The word of a value is read back under the value's own type.
    rw [List.filterMap_cons, first.tag, first.bits, PrimitiveValue.ofBits?_bits, ih,
      NameTable.get_eq first.name]
    rfl

namespace Holds

variable {records : HeapRecords}

/-- Classes have the slots of their records. -/
theorem classSlotOf?_eq_some_iff (holds : columns.Holds records) (ascend : records.Ascend)
    {id : ClassId} {slot : Slot} :
    columns.resolved.classSlotOf? id = some slot ↔
      (records.classes.map (·.1))[slot]? = some id := by
  rw [classSlotOf?_resolved, classSlot?_eq_some_iff (holds.classes_ascend ascend),
    ← holds.map_id_classes, List.getElem?_map, Array.getElem?_toList]

/-- Objects have the slots of their records. -/
theorem slotOf?_eq_some_iff (holds : columns.Holds records) (ascend : records.Ascend)
    {id : ObjectId} {slot : Slot} :
    columns.resolved.slotOf? id = some slot ↔ (records.objects.map (·.1))[slot]? = some id := by
  have ids : columns.objects.toList.map (·.id) = records.objects.map (·.1) := by
    rw [holds.toList_objects, List.map_map]
    rfl
  -- Of ascending identifiers a look-up finds the place of each.
  rw [slotOf?_resolved, objectSlot?_eq_some_iff (holds.objects_ascend ascend), ← ids,
    List.getElem?_map, Array.getElem?_toList]

/-- The class in a slot is the one of the slot's record. -/
theorem classInfo_resolved (holds : columns.Holds records) (faultless : columns.Faultless)
    {slot : Slot} {id : ClassId} {info : ClassInfo}
    (held : records.classes[slot]? = some (id, info)) :
    columns.resolved.classInfo slot = info := by
  obtain ⟨row, standing, read⟩ := holds.rows.classes slot _ held
  -- A superclass was found, as otherwise the columns would be at fault.
  have superclass : (row.superclass.bind columns.classSlot?).map columns.resolved.classId =
      info.superclass := by
    rw [← read.superclass]
    cases named : row.superclass with
    | none => rfl
    | some other =>
      obtain ⟨found, lookup⟩ := Option.isSome_iff_exists.mp
        (faultless.superclass_isSome row (Array.mem_of_getElem? standing) other named)
      rw [Option.bind_some, lookup, Option.map_some, classId_of_classSlot? lookup]
  rw [HeapGraph.classInfo, HeapGraph.className, HeapGraph.superclass?, classAt_resolved standing,
    superclass, HeapGraph.declaredFields]
  show (⟨columns.names.get row.name, info.superclass,
    (columns.classFields.group slot).map columns.names.get⟩ : ClassInfo) = info
  rw [NameTable.get_eq read.name, read.fields.map_get]

/-- The references of an object are those of its record, and lead where their targets are. -/
theorem forall₂_outEdges (holds : columns.Holds records) (faultless : columns.Faultless)
    {slot : Slot} {id : ObjectId} {record : ObjectRecord}
    (held : records.objects[slot]? = some (id, record)) :
    List.Forall₂ (fun edge reference => columns.resolved.edgeRecord edge = reference ∧
      (columns.resolved.edgeAt edge).target = columns.resolved.slotOf? reference.target)
      (columns.resolved.outEdges slot) record.edges := by
  obtain ⟨row, standing, read⟩ := holds.rows.objects slot _ held
  have within := (Array.getElem?_eq_some_iff.mp standing).1
  -- From the position of an edge to its row, and from the row to the reference.
  refine forall₂_trans ?_ (holds.aligned.edges.forall₂_positions within) read.edges
  intro edge row reference placed stands
  have type : columns.resolved.edgeType? edge = reference.fieldType := by
    rw [HeapGraph.edgeType?, edgeAt_resolved placed, stands.typeTag, FieldType.ofTag?_tagOf]
  refine ⟨?_, ?_⟩
  · rw [HeapGraph.edgeRecord, faultless.targetId_resolved placed, stands.target,
      label_resolved placed stands.label, type]
  · rw [edgeAt_resolved placed, slotOf?_resolved, stands.target]

/-- The object in a slot is the one of the slot's record. -/
theorem objectRecord_resolved (holds : columns.Holds records) (faultless : columns.Faultless)
    {slot : Slot} {id : ObjectId} {record : ObjectRecord}
    (held : records.objects[slot]? = some (id, record)) :
    columns.resolved.objectRecord slot = record := by
  have references := holds.forall₂_outEdges faultless held
  obtain ⟨row, standing, read⟩ := holds.rows.objects slot _ held
  -- The class was found, as otherwise the columns would be at fault.
  obtain ⟨found, lookup⟩ := Option.isSome_iff_exists.mp
    (faultless.objectClass_isSome row (Array.mem_of_getElem? standing))
  have edges : (columns.resolved.outEdges slot).map columns.resolved.edgeRecord =
      record.edges := by
    rw [← List.forall₂_eq_eq_eq, List.forall₂_map_left_iff]
    exact references.imp fun _ _ same => same.1
  have classId : columns.resolved.classId (columns.resolved.classOf slot) = record.classId := by
    rw [HeapGraph.classOf, objectAt_resolved standing, lookup, Option.getD_some,
      classId_of_classSlot? lookup, read.row]
  have primitives : columns.resolved.primitivesOf slot = record.primitives :=
    filterMap_primitives read.primitives
  rw [HeapGraph.objectRecord, edges, classId, primitives, objectAt_resolved standing, read.row]

/-- Faultless columns make a heap that holds what the columns hold. -/
theorem resolved (holds : columns.Holds records) (faultless : columns.Faultless)
    (ascend : records.Ascend) : columns.resolved.Holds records where
  ascend := ascend
  classCount := classCount_resolved.trans holds.rows.size_classes
  objectCount := objectCount_resolved.trans holds.rows.size_objects
  classSlots := fun _ _ => holds.classSlotOf?_eq_some_iff ascend
  slots := fun _ _ => holds.slotOf?_eq_some_iff ascend
  classes := map_eq_lookup ascend.nodup_classes
    (fun _ _ => holds.classSlotOf?_eq_some_iff ascend)
    fun _ _ _ => holds.classInfo_resolved faultless
  objects := map_eq_lookup ascend.nodup_objects (fun _ _ => holds.slotOf?_eq_some_iff ascend)
    fun _ _ _ => holds.objectRecord_resolved faultless
  roots := faultless.gcRoots_resolved.trans holds.roots
  edges := by
    intro id slot record found held
    -- The record in the slot is the one that is looked up.
    have standing : records.objects[slot]? = some (id, record) := by
      rw [holds.slotOf?_eq_some_iff ascend, List.getElem?_map] at found
      obtain ⟨⟨other, kept⟩, there, rfl⟩ := Option.map_eq_some_iff.mp found
      have same := ascend.object?_eq_some_iff.mpr (List.mem_of_getElem? there)
      rw [there, ← Option.some.inj (held.symm.trans same)]
    refine (holds.forall₂_outEdges faultless standing).imp fun edge reference both => ?_
    obtain ⟨whole, leads⟩ := both
    -- The target is found exactly when it has a record.
    have missing := holds.isSome_objectSlot? ascend reference.target
    rw [← slotOf?_resolved, ← leads] at missing
    refine ⟨congrArg EdgeRecord.target whole, ?_⟩
    rw [← Option.not_isSome_iff_eq_none, ← Option.not_isSome_iff_eq_none, missing]

end Holds

end Columns

end HeapAtlas
