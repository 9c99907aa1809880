import HeapAtlas.Graph.Basic
import HeapAtlas.Proofs.Graph.Lookup

/-! Records without a fault, said by what holds of them. -/

namespace HeapAtlas.Columns

/-- What is said of records in which no fault is found. -/
structure Faultless (columns : Columns) : Prop where
  names_lt : columns.names.size < labelLimit
  objects_lt : columns.objects.size < slotLimit
  classes_ascend : (columns.classes.toList.map (·.id.raw)).Pairwise (· < ·)
  className_lt : ∀ row ∈ columns.classes, row.name < columns.names.size
  fieldName_lt : ∀ name ∈ columns.classFields.items, name < columns.names.size
  superclass_isSome : ∀ row ∈ columns.classes, ∀ id, row.superclass = some id →
    (columns.classSlot? id).isSome
  objects_ascend : (columns.objects.toList.map (·.id.raw)).Pairwise (· < ·)
  objectClass_isSome : ∀ row ∈ columns.objects, (columns.classSlot? row.classId).isSome
  labelName_lt : ∀ row ∈ columns.edges.items, ∀ name, row.label = .name name →
    name < columns.names.size
  edgeTag : ∀ row ∈ columns.edges.items, row.typeTag = 0 ∨ (FieldType.ofTag? row.typeTag).isSome
  primitiveName_lt : ∀ row ∈ columns.primitives.items, row.name < columns.names.size
  primitiveTag : ∀ row ∈ columns.primitives.items,
    (PrimitiveValue.ofBits? row.tag row.bits).isSome
  root_isSome : ∀ root ∈ columns.roots,
    (columns.objectSlot? columns.slotIndex root.object).isSome

variable {columns : Columns}

/-- Of two possible faults there is none when there is neither. -/
theorem orElse_eq_none_iff {α : Type} {first second : Option α} :
    (first <|> second) = none ↔ first = none ∧ second = none := by
  cases first <;> simp

/-- A fault behind a condition is missing when the condition holds. -/
theorem ite_none_some_eq_none_iff {α : Type} {condition : Prop} [Decidable condition] {fault : α} :
    (if condition then none else some fault) = none ↔ condition := by
  split <;> simp_all

/-- Rows looked through with their positions show no fault when none of the rows has one. -/
theorem findSome?_zipIdx_eq_none_iff {α β : Type} {rows : List α} {fault? : α → Nat → Option β}
    {good : α → Prop} (none_iff : ∀ row index, fault? row index = none ↔ good row) :
    (rows.zipIdx.findSome? fun (row, index) => fault? row index) = none ↔
      ∀ row ∈ rows, good row := by
  -- A row is judged the same at every position, so positions play no part.
  rw [List.findSome?_eq_none_iff]
  constructor
  · intro silent row member
    obtain ⟨index, held⟩ := List.mem_iff_getElem?.mp member
    exact (none_iff row index).mp (silent (row, index) (List.mem_zipIdx_iff_getElem?.mpr held))
  · intro fine pair member
    obtain ⟨row, index⟩ := pair
    exact (none_iff row index).mpr
      (fine row (List.mem_of_getElem? (List.mem_zipIdx_iff_getElem?.mp member)))

/-- A name index is faultless when there is a name for it. -/
theorem nameFault?_eq_none_iff {column : Column} {index : Nat} :
    columns.nameFault? column index = none ↔ index < columns.names.size :=
  ite_none_some_eq_none_iff

/-- The sizes are faultless when every name and every object can be numbered. -/
theorem sizeFault?_eq_none_iff :
    columns.sizeFault? = none ↔
      columns.names.size < labelLimit ∧ columns.objects.size < slotLimit := by
  -- Each size is compared with its limit in turn.
  rw [sizeFault?]
  split
  · rename_i many
    exact iff_of_false (by simp) (by omega)
  · split
    · rename_i many
      exact iff_of_false (by simp) (by omega)
    · exact iff_of_true rfl (by omega)

/-- A reference is faultless when its name and its type are known. -/
theorem edgeRowFault?_eq_none_iff (row : EdgeRow) (index : Nat) :
    columns.edgeRowFault? row index = none ↔
      (∀ name, row.label = .name name → name < columns.names.size) ∧
        (row.typeTag = 0 ∨ (FieldType.ofTag? row.typeTag).isSome) := by
  rw [edgeRowFault?, orElse_eq_none_iff, ite_none_some_eq_none_iff]
  refine and_congr_left fun _ => ?_
  -- Only a label that is a name has anything to be looked for.
  cases row.label with
  | name name => simp [nameFault?_eq_none_iff]
  | element position => simp

/-- A primitive field is faultless when its name and its type are known. -/
theorem primitiveRowFault?_eq_none_iff (row : PrimitiveRow) (index : Nat) :
    columns.primitiveRowFault? row index = none ↔
      row.name < columns.names.size ∧ (PrimitiveValue.ofBits? row.tag row.bits).isSome := by
  rw [primitiveRowFault?, orElse_eq_none_iff, ite_none_some_eq_none_iff, nameFault?_eq_none_iff]

/-- The classes are faultless when they ascend and their names and superclasses are there. -/
theorem classFault?_eq_none_iff :
    columns.classFault? = none ↔
      (columns.classes.toList.map (·.id.raw)).Pairwise (· < ·) ∧
        ((∀ row ∈ columns.classes, row.name < columns.names.size) ∧
          ∀ name ∈ columns.classFields.items, name < columns.names.size) ∧
        ∀ row ∈ columns.classes, ∀ id, row.superclass = some id →
          (columns.classSlot? id).isSome := by
  -- Three faults are looked for in turn: the order, the names and the superclasses.
  rw [classFault?, orElse_eq_none_iff, orElse_eq_none_iff, Option.map_eq_none_iff,
    descent?_eq_none_iff, List.findSome?_eq_none_iff, List.findSome?_eq_none_iff]
  refine and_congr_right fun _ => and_congr ?_ ?_
  · -- The names looked through are those of the classes and those of their fields.
    simp only [List.mem_append, List.mem_map, Array.mem_toList_iff, nameFault?_eq_none_iff]
    constructor
    · intro fine
      exact ⟨fun row member => fine _ (.inl ⟨row, member, rfl⟩), fun name member =>
        fine name (.inr member)⟩
    · intro fine name among
      obtain ⟨own, fields⟩ := fine
      rcases among with ⟨row, member, rfl⟩ | member
      · exact own row member
      · exact fields name member
  · -- A class without a superclass has none to be looked for.
    refine forall_congr' fun row => ?_
    rw [Array.mem_toList_iff]
    refine imp_congr_right fun _ => ?_
    cases row.superclass with
    | none => simp
    | some id => simp [Option.isSome_iff_ne_none]

/-- The objects are faultless when they ascend and their classes are there. -/
theorem objectFault?_eq_none_iff :
    columns.objectFault? = none ↔
      (columns.objects.toList.map (·.id.raw)).Pairwise (· < ·) ∧
        ∀ row ∈ columns.objects, (columns.classSlot? row.classId).isSome := by
  -- First the order is looked at, then the class of every object.
  rw [objectFault?, orElse_eq_none_iff, Option.map_eq_none_iff, descent?_eq_none_iff,
    List.findSome?_eq_none_iff]
  simp only [ite_none_some_eq_none_iff, Array.mem_toList_iff]

/-- The roots are faultless when their objects are there. -/
theorem rootFault?_eq_none_iff :
    columns.rootFault? = none ↔
      ∀ root ∈ columns.roots, (columns.objectSlot? columns.slotIndex root.object).isSome := by
  rw [rootFault?, List.findSome?_eq_none_iff]
  simp only [ite_none_some_eq_none_iff, Array.mem_toList_iff]

/-- No fault is found exactly in faultless records. -/
theorem fault?_eq_none_iff : columns.fault? = none ↔ columns.Faultless := by
  -- Every part of the search is silent on just its own part of what is said.
  have edges : columns.edgeFault? = none ↔ _ :=
    findSome?_zipIdx_eq_none_iff edgeRowFault?_eq_none_iff
  have primitives : columns.primitiveFault? = none ↔ _ :=
    findSome?_zipIdx_eq_none_iff primitiveRowFault?_eq_none_iff
  simp only [fault?, orElse_eq_none_iff, sizeFault?_eq_none_iff, classFault?_eq_none_iff,
    objectFault?_eq_none_iff, edges, primitives, rootFault?_eq_none_iff, Array.mem_toList_iff]
  constructor
  · intro silent
    obtain ⟨⟨names, count⟩, ⟨classes, ⟨own, fields⟩, supers⟩, ⟨objects, kinds⟩, edges, primitives,
      roots⟩ := silent
    exact ⟨names, count, classes, own, fields, supers, objects, kinds,
      fun row member => (edges row member).1, fun row member => (edges row member).2,
      fun row member => (primitives row member).1, fun row member => (primitives row member).2,
      roots⟩
  · intro fine
    exact ⟨⟨fine.names_lt, fine.objects_lt⟩,
      ⟨fine.classes_ascend, ⟨fine.className_lt, fine.fieldName_lt⟩, fine.superclass_isSome⟩,
      ⟨fine.objects_ascend, fine.objectClass_isSome⟩,
      fun row member => ⟨fine.labelName_lt row member, fine.edgeTag row member⟩,
      fun row member => ⟨fine.primitiveName_lt row member, fine.primitiveTag row member⟩,
      fine.root_isSome⟩

/-- Records make up a heap exactly when they are faultless, and then only the one. -/
theorem ofColumns_eq_ok_iff {graph : HeapGraph} :
    HeapGraph.ofColumns columns = .ok graph ↔ columns.Faultless ∧ graph = columns.resolved := by
  -- The records are resolved unless a fault is found, in one way only.
  rw [← fault?_eq_none_iff]
  unfold HeapGraph.ofColumns
  cases columns.fault? with
  | none => simp [eq_comm]
  | some fault => simp

/-- A class is found only in the slot of the row that holds its identifier. -/
theorem classSlot?_sound {id : ClassId} {slot : Slot} (found : columns.classSlot? id = some slot) :
    ∃ row, columns.classes[slot]? = some row ∧ row.id = id :=
  Option.map_eq_some_iff.mp (orderOf_eq_eq (bisect?_sound found).2.2)

/-- An object is found only in the slot of the row that holds its identifier. -/
theorem Faultless.objectSlot?_sound (faultless : columns.Faultless) {id : ObjectId} {slot : Slot}
    (found : columns.objectSlot? columns.slotIndex id = some slot) :
    ∃ row, columns.objects[slot]? = some row ∧ row.id = id := by
  -- The index is the one built from the objects' identifiers, which ascend.
  have ascends : ((columns.objects.map (·.id)).toList.map (·.raw)).Pairwise (· < ·) := by
    simpa [Function.comp_def] using faultless.objects_ascend
  have held := SlotIndex.lookup_build_sound ascends
    (by simpa [objectSlot?, slotIndex] using found)
  simpa using held

end HeapAtlas.Columns
