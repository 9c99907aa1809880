import HeapAtlas.Proofs.Graph.Found
import HeapAtlas.Proofs.Graph.Staged

/-! The first fault of columns is the first of all faults of the records that they hold. -/

namespace HeapAtlas

namespace Columns.Holds

variable {columns : Columns} {records : HeapRecords}

/-- Row by row the classes are those of the records. -/
theorem forall₂_classes (holds : columns.Holds records) :
    List.Forall₂ (fun row record => row.id = record.1 ∧
      columns.names.get? row.name = some record.2.name ∧ row.superclass = record.2.superclass)
      columns.classes.toList records.classes := by
  refine forall₂_of_getElem? holds.rows.size_classes fun slot record held => ?_
  obtain ⟨row, standing, read⟩ := holds.rows.classes slot record held
  exact ⟨row, standing, read.id, read.name, read.superclass⟩

/-- Row by row the objects are those of the records. -/
theorem toList_objects (holds : columns.Holds records) :
    columns.objects.toList =
      records.objects.map fun record => ⟨record.1, record.2.classId, record.2.size⟩ := by
  have rows : List.Forall₂ (fun row record =>
      row = (⟨record.1, record.2.classId, record.2.size⟩ : ObjectRow))
      columns.objects.toList records.objects := by
    refine forall₂_of_getElem? holds.rows.size_objects fun slot record held => ?_
    obtain ⟨row, standing, read⟩ := holds.rows.objects slot record held
    exact ⟨row, standing, read.row⟩
  -- Equality row by row is equality of the lists.
  rw [← List.forall₂_eq_eq_eq, List.forall₂_map_right_iff]
  exact rows

/-- The classes of the columns are those of the records. -/
theorem map_id_classes (holds : columns.Holds records) :
    columns.classes.toList.map (·.id) = records.classes.map (·.1) := by
  rw [← List.forall₂_eq_eq_eq, List.forall₂_map_left_iff, List.forall₂_map_right_iff]
  exact holds.forall₂_classes.imp fun _ _ same => same.1

/-- Rows of classes ascend as their records do. -/
theorem classes_ascend (holds : columns.Holds records) (ascend : records.Ascend) :
    (columns.classes.toList.map (·.id.raw)).Pairwise (· < ·) := by
  have same : columns.classes.toList.map (·.id.raw) = records.classes.map (·.1.raw) := by
    have ids := congrArg (List.map ClassId.raw) holds.map_id_classes
    rwa [List.map_map, List.map_map] at ids
  rw [same]
  exact ascend.classes

/-- Rows of objects ascend as their records do. -/
theorem objects_ascend (holds : columns.Holds records) (ascend : records.Ascend) :
    (columns.objects.toList.map (·.id.raw)).Pairwise (· < ·) := by
  rw [holds.toList_objects, List.map_map]
  exact ascend.objects

/-- A class is found exactly when it has a record. -/
theorem isSome_classSlot? (holds : columns.Holds records) (ascend : records.Ascend)
    (id : ClassId) : (columns.classSlot? id).isSome = (records.class? id).isSome := by
  rw [Bool.eq_iff_iff, isSome_classSlot?_iff (holds.classes_ascend ascend), holds.map_id_classes,
    HeapRecords.class?, lookup_isSome_iff]

/-- An object is found exactly when it has a record. -/
theorem isSome_objectSlot? (holds : columns.Holds records) (ascend : records.Ascend)
    (id : ObjectId) :
    (columns.objectSlot? columns.slotIndex id).isSome = (records.object? id).isSome := by
  rw [Bool.eq_iff_iff, isSome_objectSlot?_iff (holds.objects_ascend ascend), holds.toList_objects,
    List.map_map, HeapRecords.object?, lookup_isSome_iff]
  rfl

/-- Neither the names nor the objects are too many. -/
theorem sizeFault?_eq_none (holds : columns.Holds records)
    (names : records.names.toFinset.card < labelLimit)
    (objects : records.objects.length < slotLimit) : columns.sizeFault? = none := by
  rw [sizeFault?_eq_none_iff]
  constructor
  · -- The names of the table differ, and all of them are names of the records.
    have among : columns.names.names.toList.toFinset ⊆ records.names.toFinset := by
      intro name member
      rw [List.mem_toFinset] at member ⊢
      exact holds.rows.names name (Array.mem_toList_iff.mp member)
    have fewer := Finset.card_le_card among
    rw [List.toFinset_card_of_nodup holds.distinct, Array.length_toList] at fewer
    exact Nat.lt_of_le_of_lt fewer names
  · rw [holds.rows.size_objects]
    exact objects

/-- Every item of a column of groups belongs to the record that stands in its group's place. -/
theorem exists_record {α : Type} {ragged : Ragged α} {count : Nat} (tiled : ragged.Tiled count)
    {β : Type} {items : List β} (size : count = items.length) {item : α}
    (member : item ∈ ragged.items) :
    ∃ (slot : Nat) (record : β), items[slot]? = some record ∧ item ∈ ragged.group slot := by
  obtain ⟨slot, within, held⟩ := tiled.exists_mem_group member
  exact ⟨slot, _, List.getElem?_eq_getElem (size ▸ within), held⟩

/-- Classes ascend and have names, so that only a superclass can be at fault. -/
theorem classFault?_eq (holds : columns.Holds records) (ascend : records.Ascend) :
    columns.classFault? = records.superclassFaults.head? := by
  have ordered : descent? 0 (columns.classes.toList.map (·.id.raw)) = none :=
    descent?_eq_none_iff.mpr (holds.classes_ascend ascend)
  have named : (columns.classes.toList.map (·.name) ++ columns.classFields.items.toList).findSome?
      (columns.nameFault? .classNames) = none := by
    -- Every index was given out for a name, of a class or of one of its fields.
    rw [List.findSome?_eq_none_iff]
    intro name among
    rw [nameFault?_eq_none_iff]
    rcases List.mem_append.mp among with own | field
    · obtain ⟨row, member, rfl⟩ := List.mem_map.mp own
      obtain ⟨_, _, _, read, _⟩ := exists_mem_of_forall₂ holds.forall₂_classes member
      exact NameTable.lt_size read
    · obtain ⟨slot, record, held, group⟩ := exists_record holds.aligned.classFields
        holds.rows.size_classes (Array.mem_toList_iff.mp field)
      obtain ⟨_, _, read⟩ := holds.rows.classes slot record held
      obtain ⟨_, _, same⟩ := exists_mem_of_forall₂ read.fields group
      exact NameTable.lt_size same
  rw [classFault?, ordered, named, HeapRecords.superclassFaults, List.head?_filterMap]
  -- A row is at fault for the superclass for which its record is.
  refine findSome?_eq_of_forall₂ (holds.forall₂_classes.imp fun row record same => ?_)
  obtain ⟨id, name, superclass, fields⟩ := record
  obtain ⟨rfl, _, supers⟩ := same
  rw [supers]
  cases superclass with
  | none => rfl
  | some superclass =>
    show (if (columns.classSlot? superclass).isSome then _ else _) = _
    rw [holds.isSome_classSlot? ascend]
    rfl

/-- Objects ascend, so that only a class can be at fault. -/
theorem objectFault?_eq (holds : columns.Holds records) (ascend : records.Ascend) :
    columns.objectFault? = records.classFaults.head? := by
  have ordered : descent? 0 (columns.objects.toList.map (·.id.raw)) = none :=
    descent?_eq_none_iff.mpr (holds.objects_ascend ascend)
  rw [objectFault?, ordered, HeapRecords.classFaults, List.head?_filterMap, holds.toList_objects,
    List.findSome?_map]
  -- Both look for the first fault over the same records, with the same check.
  show List.findSome? _ _ = _
  congr 1
  funext record
  show (if (columns.classSlot? record.2.classId).isSome then _ else _) = _
  rw [holds.isSome_classSlot? ascend]

/-- Labels that are names have them, and types are written as their bytes. -/
theorem edgeFault?_eq_none (holds : columns.Holds records) : columns.edgeFault? = none := by
  refine (findSome?_zipIdx_eq_none_iff edgeRowFault?_eq_none_iff).mpr fun row member => ?_
  -- Every row is one of an object, and stands for one of its references.
  obtain ⟨slot, record, held, among⟩ := exists_record holds.aligned.edges
    holds.rows.size_objects (Array.mem_toList_iff.mp member)
  obtain ⟨_, _, read⟩ := holds.rows.objects slot record held
  obtain ⟨edge, _, same⟩ := exists_mem_of_forall₂ read.edges among
  constructor
  · intro name isName
    have label := same.label
    rw [isName] at label
    cases held : edge.label with
    | field text =>
      rw [held] at label
      exact NameTable.lt_size label
    | element position =>
      rw [held] at label
      cases label
  · rw [same.typeTag]
    cases edge.fieldType with
    | none => exact .inl rfl
    | some type => exact .inr (by rw [FieldType.tagOf, FieldType.ofTag?_tag]; rfl)

/-- Primitive fields have names, and their types are written as their bytes. -/
theorem primitiveFault?_eq_none (holds : columns.Holds records) :
    columns.primitiveFault? = none := by
  refine (findSome?_zipIdx_eq_none_iff primitiveRowFault?_eq_none_iff).mpr fun row member => ?_
  -- A row belongs to some object, of whose record it stands for a field.
  obtain ⟨slot, record, held, among⟩ := exists_record holds.aligned.primitives
    holds.rows.size_objects (Array.mem_toList_iff.mp member)
  obtain ⟨_, _, read⟩ := holds.rows.objects slot record held
  obtain ⟨field, _, same⟩ := exists_mem_of_forall₂ read.primitives among
  refine ⟨NameTable.lt_size same.name, ?_⟩
  rw [same.tag, same.bits, PrimitiveValue.ofBits?_bits]
  rfl

/-- The first root that is no object is the same in rows and in records. -/
theorem rootFault?_eq (holds : columns.Holds records) (ascend : records.Ascend) :
    columns.rootFault? = records.rootFaults.head? := by
  rw [rootFault?, holds.roots, HeapRecords.rootFaults, List.head?_filterMap]
  -- Both look for the first fault over the same roots, with the same check.
  show List.findSome? _ _ = _
  congr 1
  funext root
  show (if (columns.objectSlot? columns.slotIndex root.object).isSome then _ else _) = _
  rw [holds.isSome_objectSlot? ascend]

/-- The first fault of the columns is the first fault of the records, positions apart. -/
theorem fault?_eq (holds : columns.Holds records) (ascend : records.Ascend)
    (names : records.names.toFinset.card < labelLimit)
    (objects : records.objects.length < slotLimit) :
    columns.fault? =
      (records.superclassFaults ++ (records.classFaults ++ records.rootFaults)).head? := by
  -- References and primitive fields were staged from records, so their checks find nothing.
  rw [fault?, holds.sizeFault?_eq_none names objects, holds.classFault?_eq ascend,
    holds.objectFault?_eq ascend, holds.edgeFault?_eq_none, holds.primitiveFault?_eq_none,
    holds.rootFault?_eq ascend, List.head?_append, List.head?_append]
  cases records.superclassFaults.head? <;> cases records.classFaults.head? <;> rfl

end Columns.Holds

end HeapAtlas
