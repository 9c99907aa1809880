import HeapAtlas.Proofs.Graph.Found
import HeapAtlas.Proofs.Snapshot.Frame
import HeapAtlas.Proofs.Snapshot.Regular
import HeapAtlas.Proofs.Snapshot.RoundTrip

/-! Which bytes are accepted as a snapshot: just those that keep all rules of the format. -/

namespace HeapAtlas

/-- What holds of all items of an array that was made row by row is said of the rows. -/
theorem forall_mem_iff_of_toList_eq_map {α β : Type} {items : Array β} {rows : List α} {f : α → β}
    (made : items.toList = rows.map f) {P : β → Prop} :
    (∀ item ∈ items, P item) ↔ ∀ row ∈ rows, P (f row) := by
  simp only [← Array.mem_toList_iff, made, List.forall_mem_map]

/-- The types of references are recorded as the bytes up to nine, of which zero is for none. -/
theorem FieldType.eq_zero_or_isSome_ofTag?_iff {tag : UInt8} :
    tag = 0 ∨ (ofTag? tag).isSome ↔ tag.toNat ≤ 9 := by
  unfold ofTag?
  split <;> simp_all [← UInt8.toNat_inj]
  omega

/-- Primitive values have the types from boolean, which is two, to nine. -/
theorem PrimitiveValue.isSome_ofBits?_iff {tag : UInt8} {bits : UInt64} :
    (ofBits? tag bits).isSome ↔ 2 ≤ tag.toNat ∧ tag.toNat ≤ 9 := by
  rw [ofBits?]
  generalize typed : FieldType.ofTag? tag = type
  unfold FieldType.ofTag? at typed
  -- Each known byte is tried, and for an unknown one the bounds are left to show.
  split at typed <;> subst typed <;> simp_all [← UInt8.toNat_inj]
  omega

namespace Snapshot

/-- Tables with rows that refer only to what there is, and with identifiers that ascend. -/
structure Tables.Linked (tables : Tables) : Prop where
  names_lt : tables.nameSpans.length < labelLimit
  objects_lt : tables.objects.length < slotLimit
  classes_ascend : (tables.classes.map (·.id)).Pairwise (· < ·)
  className_lt : ∀ row ∈ tables.classes, row.name.toNat < tables.nameSpans.length
  fieldName_lt : ∀ row ∈ tables.classFields, row.name.toNat < tables.nameSpans.length
  superclass_mem : ∀ row ∈ tables.classes, row.flags = 1 →
    row.superclass ∈ tables.classes.map (·.id)
  objects_ascend : (tables.objects.map (·.id)).Pairwise (· < ·)
  objectClass_mem : ∀ row ∈ tables.objects, row.classId ∈ tables.classes.map (·.id)
  labelName_lt : ∀ row ∈ tables.edges, row.labelKind = 0 →
    row.label.toNat < tables.nameSpans.length
  edgeType_le : ∀ row ∈ tables.edges, row.typeTag.toNat ≤ 9
  primitiveName_lt : ∀ row ∈ tables.primitives, row.name.toNat < tables.nameSpans.length
  primitiveType : ∀ row ∈ tables.primitives, 2 ≤ row.tag.toNat ∧ row.tag.toNat ≤ 9
  root_mem : ∀ row ∈ tables.roots, row.object ∈ tables.objects.map (·.id)

/-- Bytes that keep all rules of the format: framed, with regular tables whose rows are linked. -/
structure Grammatical (bytes : Bytes) : Prop where
  framed : Framed bytes
  regular : (tablesAt bytes).Regular
  linked : (tablesAt bytes).Linked

/-- Tables whose data can be counted in words. -/
structure Tables.Counted (tables : Tables) : Prop where
  nameBytes_lt : tables.nameBytes.length < 2 ^ 64
  classFields_lt : tables.classFields.length < 2 ^ 64
  edges_lt : tables.edges.length < 2 ^ 64
  primitives_lt : tables.primitives.length < 2 ^ 64

/-- Where a directory counts the rows, it does so in words. -/
theorem counted_tablesAt (bytes : Bytes) : (tablesAt bytes).Counted := by
  have rows {α : Type} [Row α] (place : Section) : (rowsAt α bytes place).length < 2 ^ 64 := by
    rw [rowsAt, List.length_map, List.length_range]
    exact place.count.toNat_lt
  refine ⟨?_, rows _, rows _, rows _⟩
  -- Of the names there are no more bytes than the directory says.
  have upto := (directoryAt bytes).nameBytes.count.toNat_lt
  exact Nat.lt_of_le_of_lt (List.length_take_le _ _) upto

section Spelling

variable {tables : Tables} {columns : Columns}

/-- Tables spell out records exactly when they are regular. -/
theorem Tables.exists_spell_iff (counted : tables.Counted) :
    (∃ columns, tables.Spell columns) ↔ tables.Regular := by
  constructor
  · intro spelled
    obtain ⟨columns, spell⟩ := spelled
    have nameSpans := (exists_tile_iff counted.nameBytes_lt).mp spell.nameSpans
    refine ⟨nameSpans, fun span member => ?_,
      (exists_tile_iff counted.classFields_lt).mp ⟨_, spell.fieldOffsets⟩,
      (exists_tile_iff counted.edges_lt).mp ⟨_, spell.edgeOffsets⟩,
      (exists_tile_iff counted.primitives_lt).mp ⟨_, spell.primitiveOffsets⟩,
      ((checkRows_eq_ok_iff StoredClass.toRow_eq_ok_iff).mp spell.classes).1,
      ((checkRows_eq_ok_iff StoredField.toName_eq_ok_iff).mp spell.fields).1,
      ((checkRows_eq_ok_iff StoredEdge.toRow_eq_ok_iff).mp spell.edges).1,
      ((checkRows_eq_ok_iff StoredPrimitive.toRow_eq_ok_iff).mp spell.primitives).1,
      ((checkRows_eq_ok_iff StoredRoot.toRoot_eq_ok_iff).mp spell.roots).1⟩
    -- A name is read behind those before it, which is where its span begins.
    obtain ⟨place, held⟩ := List.mem_iff_getElem?.mp member
    rw [nameSpans.start_eq place span held]
    exact exists_textsFrom_iff.mp ⟨_, spell.names⟩ place span held
  · intro regular
    have texts : ∃ texts, textsFrom 0 tables.nameSpans tables.nameBytes = .ok texts := by
      refine exists_textsFrom_iff.mpr fun place span held => ?_
      rw [← regular.nameSpans.start_eq place span held]
      exact regular.names span (List.mem_of_getElem? held)
    obtain ⟨names, texts⟩ := texts
    obtain ⟨fieldOffsets, fields⟩ := (exists_tile_iff counted.classFields_lt).mpr regular.fieldSpans
    obtain ⟨edgeOffsets, edges⟩ := (exists_tile_iff counted.edges_lt).mpr regular.edgeSpans
    obtain ⟨primitiveOffsets, primitives⟩ :=
      (exists_tile_iff counted.primitives_lt).mpr regular.primitiveSpans
    -- With the texts and the offsets, the records of the rows make up columns.
    exact ⟨{
        names := ⟨names.toArray⟩
        classes := (tables.classes.map (·.record)).toArray
        classFields := ⟨fieldOffsets.toArray, (tables.classFields.map (·.name.toNat)).toArray⟩
        objects := (tables.objects.map (·.toRow)).toArray
        edges := ⟨edgeOffsets.toArray, (tables.edges.map (·.record)).toArray⟩
        primitives := ⟨primitiveOffsets.toArray, (tables.primitives.map (·.record)).toArray⟩
        roots := (tables.roots.map (·.record)).toArray },
      { nameSpans := (exists_tile_iff counted.nameBytes_lt).mpr regular.nameSpans
        names := texts
        classes := (checkRows_eq_ok_iff StoredClass.toRow_eq_ok_iff).mpr ⟨regular.classes, rfl⟩
        fieldOffsets := fields
        fields := (checkRows_eq_ok_iff StoredField.toName_eq_ok_iff).mpr ⟨regular.classFields, rfl⟩
        objects := rfl
        edgeOffsets := edges
        primitiveOffsets := primitives
        edges := (checkRows_eq_ok_iff StoredEdge.toRow_eq_ok_iff).mpr ⟨regular.edges, rfl⟩
        primitives :=
          (checkRows_eq_ok_iff StoredPrimitive.toRow_eq_ok_iff).mpr ⟨regular.primitives, rfl⟩
        roots := (checkRows_eq_ok_iff StoredRoot.toRoot_eq_ok_iff).mpr ⟨regular.roots, rfl⟩ }⟩

/-- A label is a name when its kind says so and its top bit is clear. -/
theorem StoredEdge.labelName_lt_iff {row : StoredEdge} {count : Nat}
    (plain : row.labelKind = 0 → row.label.toNat < labelLimit) :
    (∀ name, row.record.label = .name name → name < count) ↔
      (row.labelKind = 0 → row.label.toNat < count) := by
  rw [record]
  -- A word with its top bit clear is the index of a name, and a position is none.
  by_cases field : row.labelKind = 0
  · simp [field, labelOfWord, plain field]
  · simp [field]

/-- A superclass counts when the known flag is set, and this is the only one that may be. -/
theorem StoredClass.superclass_eq_some_iff {row : StoredClass}
    (known : row.flags = 0 ∨ row.flags = 1) {id : ClassId} :
    row.record.superclass = some id ↔ row.flags = 1 ∧ ⟨row.superclass⟩ = id := by
  rcases known with clear | set
  · simp [record, superclass?, superFlag, clear]
  · simp [record, superclass?, superFlag, set]

namespace Tables.Spell

/-- There are as many names as spans of names. -/
theorem size_names (spell : tables.Spell columns) :
    columns.names.size = tables.nameSpans.length := by
  rw [NameTable.size, ← Array.length_toList, length_textsFrom spell.names]

/-- The records of the classes are those of their rows. -/
theorem toList_classes (spell : tables.Spell columns) :
    columns.classes.toList = tables.classes.map (·.record) :=
  ((checkRows_eq_ok_iff StoredClass.toRow_eq_ok_iff).mp spell.classes).2

/-- Classes are found by the identifiers of their rows when these ascend. -/
theorem isSome_classSlot?_iff (spell : tables.Spell columns)
    (ascends : (tables.classes.map (·.id)).Pairwise (· < ·)) {id : UInt64} :
    (columns.classSlot? ⟨id⟩).isSome ↔ id ∈ tables.classes.map (·.id) := by
  have ascends : (columns.classes.toList.map (·.id.raw)).Pairwise (· < ·) := by
    rwa [spell.toList_classes, List.map_map]
  rw [Columns.isSome_classSlot?_iff ascends, spell.toList_classes, List.map_map]
  simp [StoredClass.record]

/-- Objects are found by the identifiers of their rows when these ascend. -/
theorem isSome_objectSlot?_iff (spell : tables.Spell columns)
    (ascends : (tables.objects.map (·.id)).Pairwise (· < ·)) {id : UInt64} :
    (columns.objectSlot? columns.slotIndex ⟨id⟩).isSome ↔ id ∈ tables.objects.map (·.id) := by
  have ascends : (columns.objects.toList.map (·.id.raw)).Pairwise (· < ·) := by
    rwa [spell.objects, List.map_map]
  rw [Columns.isSome_objectSlot?_iff ascends, spell.objects, List.map_map]
  simp [StoredObject.toRow]

/-- Records that are spelled out with plain labels are faultless when the tables are linked. -/
theorem faultless_iff (spell : tables.Spell columns)
    (plain : ∀ row ∈ tables.edges, row.labelKind = 0 → row.label.toNat < labelLimit) :
    columns.Faultless ↔ tables.Linked := by
  -- Every column was made row by row, so that what holds of all of it is said of the rows.
  have classes {P : ClassRow → Prop} := forall_mem_iff_of_toList_eq_map (P := P)
    spell.toList_classes
  have fields {P : Nat → Prop} := forall_mem_iff_of_toList_eq_map (P := P)
    ((checkRows_eq_ok_iff StoredField.toName_eq_ok_iff).mp spell.fields).2
  have objects {P : ObjectRow → Prop} := forall_mem_iff_of_toList_eq_map (P := P) spell.objects
  have edges {P : EdgeRow → Prop} := forall_mem_iff_of_toList_eq_map (P := P)
    ((checkRows_eq_ok_iff StoredEdge.toRow_eq_ok_iff).mp spell.edges).2
  have primitives {P : PrimitiveRow → Prop} := forall_mem_iff_of_toList_eq_map (P := P)
    ((checkRows_eq_ok_iff StoredPrimitive.toRow_eq_ok_iff).mp spell.primitives).2
  have roots {P : GcRoot → Prop} := forall_mem_iff_of_toList_eq_map (P := P)
    ((checkRows_eq_ok_iff StoredRoot.toRoot_eq_ok_iff).mp spell.roots).2
  have objectCount : columns.objects.size = tables.objects.length := by
    rw [← Array.length_toList, spell.objects, List.length_map]
  -- The order of identifiers is the same in the records as in the rows.
  have classIds : columns.classes.toList.map (·.id.raw) = tables.classes.map (·.id) := by
    rw [spell.toList_classes, List.map_map]
    rfl
  have objectIds : columns.objects.toList.map (·.id.raw) = tables.objects.map (·.id) := by
    rw [spell.objects, List.map_map]
    rfl
  -- Labels and superclasses count only in rows that say so.
  have labels : (∀ row ∈ tables.edges, ∀ name, row.record.label = .name name →
      name < columns.names.size) ↔
      ∀ row ∈ tables.edges, row.labelKind = 0 → row.label.toNat < columns.names.size :=
    forall₂_congr fun row member => StoredEdge.labelName_lt_iff (plain row member)
  have superclass {row : StoredClass} (member : row ∈ tables.classes) {id : ClassId} :
      row.record.superclass = some id ↔ row.flags = 1 ∧ ⟨row.superclass⟩ = id :=
    StoredClass.superclass_eq_some_iff
      (((checkRows_eq_ok_iff StoredClass.toRow_eq_ok_iff).mp spell.classes).1 row member).2
  constructor
  · intro faultless
    -- Whatever is looked for by its identifier is found when there is a row of it.
    have ascends := classIds ▸ faultless.classes_ascend
    have objectsAscend := objectIds ▸ faultless.objects_ascend
    exact {
      names_lt := spell.size_names ▸ faultless.names_lt
      objects_lt := objectCount ▸ faultless.objects_lt
      classes_ascend := ascends
      className_lt := spell.size_names ▸ classes.mp faultless.className_lt
      fieldName_lt := spell.size_names ▸ fields.mp faultless.fieldName_lt
      superclass_mem := fun row member flag => (spell.isSome_classSlot?_iff ascends).mp
        (classes.mp faultless.superclass_isSome row member _
          ((superclass member).mpr ⟨flag, rfl⟩))
      objects_ascend := objectsAscend
      objectClass_mem := fun row member => (spell.isSome_classSlot?_iff ascends).mp
        (objects.mp faultless.objectClass_isSome row member)
      labelName_lt := spell.size_names ▸ labels.mp (edges.mp faultless.labelName_lt)
      edgeType_le := fun row member => FieldType.eq_zero_or_isSome_ofTag?_iff.mp
        (edges.mp faultless.edgeTag row member)
      primitiveName_lt := spell.size_names ▸ primitives.mp faultless.primitiveName_lt
      primitiveType := fun row member => PrimitiveValue.isSome_ofBits?_iff.mp
        (primitives.mp faultless.primitiveTag row member)
      root_mem := fun row member => (spell.isSome_objectSlot?_iff objectsAscend).mp
        (roots.mp faultless.root_isSome row member) }
  · intro linked
    exact {
      names_lt := spell.size_names ▸ linked.names_lt
      objects_lt := objectCount ▸ linked.objects_lt
      classes_ascend := classIds ▸ linked.classes_ascend
      className_lt := classes.mpr (spell.size_names ▸ linked.className_lt)
      fieldName_lt := fields.mpr (spell.size_names ▸ linked.fieldName_lt)
      superclass_isSome := classes.mpr fun row member id counts => by
        obtain ⟨flag, rfl⟩ := (superclass member).mp counts
        exact (spell.isSome_classSlot?_iff linked.classes_ascend).mpr
          (linked.superclass_mem row member flag)
      objects_ascend := objectIds ▸ linked.objects_ascend
      objectClass_isSome := objects.mpr fun row member =>
        (spell.isSome_classSlot?_iff linked.classes_ascend).mpr (linked.objectClass_mem row member)
      labelName_lt := edges.mpr (labels.mpr (spell.size_names ▸ linked.labelName_lt))
      edgeTag := edges.mpr fun row member => FieldType.eq_zero_or_isSome_ofTag?_iff.mpr
        (linked.edgeType_le row member)
      primitiveName_lt := primitives.mpr (spell.size_names ▸ linked.primitiveName_lt)
      primitiveTag := primitives.mpr fun row member => PrimitiveValue.isSome_ofBits?_iff.mpr
        (linked.primitiveType row member)
      root_isSome := roots.mpr fun row member =>
        (spell.isSome_objectSlot?_iff linked.objects_ascend).mpr (linked.root_mem row member) }

end Tables.Spell

end Spelling

/-- Names that label references have the top bit of their index clear, where they are read. -/
def PlainLabels (bytes : Bytes) : Prop :=
  (directoryAt bytes).edges.Within (Row.width StoredEdge) bytes →
    ∀ row ∈ (tablesAt bytes).edges, row.labelKind = 0 → row.label.toNat < labelLimit

/--
Bytes are accepted as a snapshot exactly when they keep all rules of the format.

A name's index with the top bit set would be taken for a position and not be held against the names.
-/
theorem exists_decode_iff_grammatical {bytes : Bytes} (plain : PlainLabels bytes) :
    (∃ graph, decode bytes = .ok graph) ↔ Grammatical bytes := by
  simp only [decode_eq_ok_iff, stores_iff]
  constructor
  · intro accepted
    obtain ⟨_, _, columns, ⟨framed, rfl⟩, spell, faultless, rfl⟩ := accepted
    exact ⟨framed, (Tables.exists_spell_iff (counted_tablesAt bytes)).mp ⟨columns, spell⟩,
      (spell.faultless_iff (plain framed.tables.edges)).mp faultless⟩
  · intro grammatical
    have framed := grammatical.framed
    -- Regular tables spell out records, and those of linked tables are faultless.
    obtain ⟨columns, spell⟩ :=
      (Tables.exists_spell_iff (counted_tablesAt bytes)).mpr grammatical.regular
    exact ⟨_, _, columns, ⟨framed, rfl⟩, spell,
      (spell.faultless_iff (plain framed.tables.edges)).mpr grammatical.linked, rfl⟩

/-- The snapshot of the ring has plain labels, is accepted, and so keeps all rules. -/
theorem ring_grammatical : PlainLabels (encode Columns.ring.resolved) ∧
    decode (encode Columns.ring.resolved) = .ok Columns.ring.resolved ∧
    Grammatical (encode Columns.ring.resolved) := by
  have stores := stores_put (fit_tablesOf Columns.ring.resolved) length_encode_ring
  have plain : PlainLabels (encode Columns.ring.resolved) := by
    intro _
    rw [encode, ← (stores_iff.mp stores).2]
    decide +kernel
  have accepted := decode_of_made HeapGraph.made_ring length_encode_ring
  exact ⟨plain, accepted, (exists_decode_iff_grammatical plain).mp ⟨_, accepted⟩⟩

end Snapshot

end HeapAtlas
