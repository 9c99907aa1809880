import HeapAtlas.Proofs.Graph.Aligned
import HeapAtlas.Proofs.Graph.Records
import HeapAtlas.Proofs.Lists
import HeapAtlas.Proofs.NameTable

/-! Staged rows: what they hold of the records that they were made from. -/

namespace HeapAtlas

/-- A label that refers to names stands for a label. -/
def LabelRef.Holds (names : NameTable) : LabelRef → EdgeLabel → Prop
  | .name index, .field text => names.get? index = some text
  | .element position, .element other => position = other
  | _, _ => False

/-- A row stands for a reference. -/
structure EdgeRow.Holds (names : NameTable) (row : EdgeRow) (edge : EdgeRecord) : Prop where
  target : row.target = edge.target
  label : row.label.Holds names edge.label
  typeTag : row.typeTag = FieldType.tagOf edge.fieldType

/-- A row stands for a primitive field. -/
structure PrimitiveRow.Holds (names : NameTable) (row : PrimitiveRow) (field : PrimitiveField) :
    Prop where
  name : names.get? row.name = some field.name
  tag : row.tag = field.value.fieldType.tag
  bits : row.bits = field.value.bits

/-- A row and the indices of its fields' names stand for a class. -/
structure ClassRow.Holds (names : NameTable) (row : ClassRow) (fields : List Nat)
    (record : ClassId × ClassInfo) : Prop where
  id : row.id = record.1
  name : names.get? row.name = some record.2.name
  superclass : row.superclass = record.2.superclass
  fields : names.Reads fields record.2.fields

/-- A row stands for an object, with the rows of its references and primitive fields. -/
structure ObjectRow.Holds (names : NameTable) (row : ObjectRow) (edges : List EdgeRow)
    (primitives : List PrimitiveRow) (record : ObjectId × ObjectRecord) : Prop where
  row : row = ⟨record.1, record.2.classId, record.2.size⟩
  edges : List.Forall₂ (EdgeRow.Holds names) edges record.2.edges
  primitives : List.Forall₂ (PrimitiveRow.Holds names) primitives record.2.primitives

/-- Rows hold some records: there is one of each, in order, and there are no other names. -/
structure RowsHold (names : NameTable) (classRows : Array ClassRow) (classFields : Ragged Nat)
    (objectRows : Array ObjectRow) (edges : Ragged EdgeRow) (primitives : Ragged PrimitiveRow)
    (records : HeapRecords) : Prop where
  size_classes : classRows.size = records.classes.length
  size_objects : objectRows.size = records.objects.length
  classes : ∀ slot record, records.classes[slot]? = some record →
    ∃ row : ClassRow, classRows[slot]? = some row ∧
      row.Holds names (classFields.group slot) record
  objects : ∀ slot record, records.objects[slot]? = some record →
    ∃ row : ObjectRow, objectRows[slot]? = some row ∧
      row.Holds names (edges.group slot) (primitives.group slot) record
  names : ∀ name ∈ names.names, name ∈ records.names

/-! ### More names change nothing -/

section Extends

variable {before after : NameTable} (extends_ : after.Extends before)

include extends_

/-- A label means the same when names are added. -/
theorem LabelRef.Holds.extends {label : LabelRef} {other : EdgeLabel}
    (holds : label.Holds before other) : label.Holds after other := by
  cases label <;> cases other
  · -- Only a name looks at the table; a position stands for itself.
    exact extends_.get?_eq holds
  · cases holds
  · cases holds
  · exact holds

/-- So does a reference. -/
theorem EdgeRow.Holds.extends {row : EdgeRow} {edge : EdgeRecord} (holds : row.Holds before edge) :
    row.Holds after edge :=
  ⟨holds.target, holds.label.extends extends_, holds.typeTag⟩

/-- So does a primitive field. -/
theorem PrimitiveRow.Holds.extends {row : PrimitiveRow} {field : PrimitiveField}
    (holds : row.Holds before field) : row.Holds after field :=
  ⟨extends_.get?_eq holds.name, holds.tag, holds.bits⟩

/-- So does a class with its fields. -/
theorem ClassRow.Holds.extends {row : ClassRow} {fields : List Nat}
    {record : ClassId × ClassInfo} (holds : row.Holds before fields record) :
    row.Holds after fields record :=
  ⟨holds.id, extends_.get?_eq holds.name, holds.superclass, extends_.reads holds.fields⟩

/-- So does an object with all that it holds. -/
theorem ObjectRow.Holds.extends {row : ObjectRow} {edges : List EdgeRow}
    {primitives : List PrimitiveRow} {record : ObjectId × ObjectRecord}
    (holds : row.Holds before edges primitives record) :
    row.Holds after edges primitives record :=
  ⟨holds.row, holds.edges.imp fun _ _ held => held.extends extends_,
    holds.primitives.imp fun _ _ held => held.extends extends_⟩

end Extends

/-! ### One record more -/

namespace RowsHold

variable {interner last : Interner} {classRows : Array ClassRow} {classFields : Ragged Nat}
  {objectRows : Array ObjectRow} {edges : Ragged EdgeRow} {primitives : Ragged PrimitiveRow}
  {classes : List (ClassId × ClassInfo)} {objects : List (ObjectId × ObjectRecord)}
  {roots : List GcRoot}

/-- The row of a class is put behind the others, as long as there are no objects. -/
theorem pushClass (hold : RowsHold interner.table classRows classFields objectRows edges
      primitives ⟨classes, [], roots⟩) (tiled : classFields.Tiled classRows.size)
    {record : ClassId × ClassInfo} (grows : interner.Grows last record.2.names) {row : ClassRow}
    {fields : List Nat} (read : row.Holds last.table fields record) :
    RowsHold last.table (classRows.push row) (classFields.push fields) objectRows edges primitives
      ⟨classes ++ [record], [], roots⟩ := by
  have size : classRows.size = classes.length := hold.size_classes
  refine ⟨?_, hold.size_objects, ?_, by simp, ?_⟩
  · show (classRows.push row).size = _
    rw [Array.size_push, size, List.length_append, List.length_singleton]
  · intro slot other held
    rw [tiled.group_push, Array.getElem?_push, size]
    rcases getElem?_concat held with ⟨less, before⟩ | ⟨rfl, rfl⟩
    · -- A class staged before has its row and its fields where they were.
      obtain ⟨old, standing, same⟩ := hold.classes slot other before
      rw [if_neg (by omega), if_neg (by omega)]
      exact ⟨old, standing, same.extends grows.extends_⟩
    · rw [if_pos rfl, if_pos rfl]
      exact ⟨row, rfl, read⟩
  · intro name member
    rw [HeapRecords.names, List.flatMap_append, List.flatMap_singleton, List.flatMap_nil,
      List.append_nil, List.mem_append]
    rcases grows.mem name member with before | among
    · have old := hold.names name before
      rw [HeapRecords.names, List.flatMap_nil, List.append_nil] at old
      exact .inl old
    · exact .inr among

/-- The rows of an object are put behind the others. -/
theorem pushObject (hold : RowsHold interner.table classRows classFields objectRows edges
      primitives ⟨classes, objects, roots⟩) (tiledEdges : edges.Tiled objectRows.size)
    (tiledPrimitives : primitives.Tiled objectRows.size) {record : ObjectId × ObjectRecord}
    (grows : interner.Grows last record.2.names) {row : ObjectRow} {edgeRows : List EdgeRow}
    {primitiveRows : List PrimitiveRow}
    (read : row.Holds last.table edgeRows primitiveRows record) :
    RowsHold last.table classRows classFields (objectRows.push row) (edges.push edgeRows)
      (primitives.push primitiveRows) ⟨classes, objects ++ [record], roots⟩ := by
  have size : objectRows.size = objects.length := hold.size_objects
  refine ⟨hold.size_classes, ?_, ?_, ?_, ?_⟩
  · show (objectRows.push row).size = _
    rw [Array.size_push, size, List.length_append, List.length_singleton]
  · intro slot other held
    obtain ⟨old, standing, same⟩ := hold.classes slot other held
    exact ⟨old, standing, same.extends grows.extends_⟩
  · intro slot other held
    rw [tiledEdges.group_push, tiledPrimitives.group_push, Array.getElem?_push, size]
    rcases getElem?_concat held with ⟨less, before⟩ | ⟨rfl, rfl⟩
    · -- An object staged before has its row and its groups where they were.
      obtain ⟨old, standing, same⟩ := hold.objects slot other before
      rw [if_neg (by omega), if_neg (by omega), if_neg (by omega)]
      exact ⟨old, standing, same.extends grows.extends_⟩
    · rw [if_pos rfl, if_pos rfl, if_pos rfl]
      exact ⟨row, rfl, read⟩
  · intro name member
    rw [HeapRecords.names, List.flatMap_append, List.flatMap_singleton, ← List.append_assoc,
      List.mem_append]
    rcases grows.mem name member with before | among
    · exact .inl (hold.names name before)
    · exact .inr among

end RowsHold

namespace Staging

variable {interner : Interner}

/-- What staging references comes to: their rows, or the first position that is too large. -/
def EdgesStaged (object : ObjectId) (interner : Interner) (edges : List EdgeRecord) :
    Except BuildError (List EdgeRow × Interner) → Prop
  | .ok (rows, next) =>
    edges.filterMap (·.positionFault? object) = [] ∧
      interner.Grows next (edges.flatMap (·.names)) ∧
        List.Forall₂ (EdgeRow.Holds next.table) rows edges
  | .error fault => (edges.filterMap (·.positionFault? object)).head? = some fault

/-- A reference whose label is staged goes in front of the rows of the others. -/
theorem EdgesStaged.cons {object : ObjectId} {next : Interner} {edge : EdgeRecord}
    {rest : List EdgeRecord} {label : LabelRef}
    {result : Except BuildError (List EdgeRow × Interner)}
    (others : EdgesStaged object next rest result) (silent : edge.positionFault? object = none)
    (grows : interner.Grows next edge.names) (holds : label.Holds next.table edge.label) :
    EdgesStaged object interner (edge :: rest) (result.map fun staged =>
      (⟨edge.target, label, FieldType.tagOf edge.fieldType⟩ :: staged.1, staged.2)) := by
  cases result with
  | error fault =>
    show (List.filterMap _ _).head? = some fault
    rw [List.filterMap_cons_none silent]
    exact others
  | ok staged =>
    -- The label was staged first and keeps its meaning while the others are.
    obtain ⟨none, more, hold⟩ := others
    refine ⟨?_, grows.trans more, .cons ⟨rfl, holds.extends more.extends_, rfl⟩ hold⟩
    rw [List.filterMap_cons_none silent]
    exact none

/-- The rows of references stand for them, unless a position is too large. -/
theorem edgeRows_spec (sound : interner.Sound) (object : ObjectId) (edges : List EdgeRecord) :
    EdgesStaged object interner edges (edgeRows object interner edges) := by
  -- The induction follows the references, the first of which is staged or refused.
  induction edges generalizing interner with
  | nil => exact ⟨rfl, sound.grows, .nil⟩
  | cons edge rest ih =>
    rw [edgeRows]
    cases held : edge.label with
    | field name =>
      obtain ⟨grows, read⟩ := sound.intern name
      have silent : edge.positionFault? object = none := by rw [EdgeRecord.positionFault?, held]
      have names : edge.names = [name] := by rw [EdgeRecord.names, held]
      show EdgesStaged _ _ _ ((edgeRows object (interner.intern name).2 rest).bind fun staged =>
        .ok (⟨edge.target, .name (interner.intern name).1, FieldType.tagOf edge.fieldType⟩ ::
          staged.1, staged.2))
      rw [bind_ok_eq_map]
      exact (ih grows.sound).cons silent (names ▸ grows) (held ▸ read)
    | element position =>
      have names : edge.names = [] := by rw [EdgeRecord.names, held]
      by_cases small : position < labelLimit
      · have silent : edge.positionFault? object = none := by
          rw [EdgeRecord.positionFault?, held]
          exact if_pos small
        simp only [if_pos small]
        show EdgesStaged _ _ _ ((edgeRows object interner rest).bind fun staged =>
          .ok (⟨edge.target, .element position, FieldType.tagOf edge.fieldType⟩ :: staged.1,
            staged.2))
        rw [bind_ok_eq_map]
        exact (ih sound).cons silent (names ▸ sound.grows) (held ▸ rfl)
      · have refused : edge.positionFault? object = some (.positionTooLarge object position) := by
          rw [EdgeRecord.positionFault?, held]
          exact if_neg small
        simp only [if_neg small]
        show (List.filterMap _ (edge :: rest)).head? =
          some (BuildError.positionTooLarge object position)
        rw [List.filterMap_cons_some refused]
        rfl

/-- The rows of primitive fields stand for them. -/
theorem primitiveRows_spec (sound : interner.Sound) (fields : List PrimitiveField) :
    interner.Grows (primitiveRows interner fields).2 (fields.map (·.name)) ∧
      List.Forall₂ (PrimitiveRow.Holds (primitiveRows interner fields).2.table)
        (primitiveRows interner fields).1 fields := by
  induction fields generalizing interner with
  | nil => exact ⟨sound.grows, .nil⟩
  | cons field rest ih =>
    obtain ⟨grows, read⟩ := sound.intern field.name
    -- The first row was written under a smaller table and is read under the last one.
    obtain ⟨more, hold⟩ := ih grows.sound
    exact ⟨grows.trans more, .cons ⟨more.extends_.get?_eq read, rfl, rfl⟩ hold⟩

/-- Staging holds some records. -/
structure Holds (staging : Staging) (records : HeapRecords) : Prop where
  aligned : staging.Aligned
  sound : staging.interner.Sound
  rows : RowsHold staging.interner.table staging.classes staging.classFields staging.objects
    staging.edges staging.primitives records

/-- Columns without rows hold no records but the roots. -/
theorem holds_empty (roots : List GcRoot) : empty.Holds ⟨[], [], roots⟩ where
  aligned := aligned_empty
  sound := Interner.sound_empty
  rows := ⟨rfl, rfl, by simp, by simp, by simp [empty, Interner.empty, NameTable.empty]⟩

variable {staging : Staging} {classes : List (ClassId × ClassInfo)}
  {objects : List (ObjectId × ObjectRecord)} {roots : List GcRoot}

/-- A class is staged behind those that are there. -/
theorem Holds.stageClass (holds : staging.Holds ⟨classes, [], roots⟩)
    (record : ClassId × ClassInfo) :
    (staging.stageClass record.1 record.2).Holds ⟨classes ++ [record], [], roots⟩ := by
  obtain ⟨named, readName⟩ := holds.sound.intern record.2.name
  obtain ⟨fields, readFields⟩ := named.sound.internAll record.2.fields
  have aligned := holds.aligned.stageClass record.1 record.2
  exact ⟨aligned, fields.sound, holds.rows.pushClass holds.aligned.classFields (named.trans fields)
    ⟨rfl, fields.extends_.get?_eq readName, rfl, readFields⟩⟩

/-- An object is staged behind those that are there, or refused for a position. -/
theorem Holds.stageObject (holds : staging.Holds ⟨classes, objects, roots⟩)
    (record : ObjectId × ObjectRecord) :
    match staging.stageObject record.1 record.2 with
    | .ok next =>
      record.2.positionFaults record.1 = [] ∧
        next.Holds ⟨classes, objects ++ [record], roots⟩
    | .error fault => (record.2.positionFaults record.1).head? = some fault := by
  have rows := edgeRows_spec holds.sound record.1 record.2.edges
  cases staged : edgeRows record.1 staging.interner record.2.edges with
  | error fault =>
    -- Nothing else of an object is refused, so the fault is its first.
    rw [staged] at rows
    rw [Staging.stageObject, staged]
    exact rows
  | ok result =>
    obtain ⟨edges, interner⟩ := result
    rw [staged] at rows
    obtain ⟨none, more, edgesHold⟩ := rows
    obtain ⟨others, primitivesHold⟩ := primitiveRows_spec more.sound record.2.primitives
    have done : staging.stageObject record.1 record.2 = .ok
        { staging with
          interner := (primitiveRows interner record.2.primitives).2
          objects := staging.objects.push ⟨record.1, record.2.classId, record.2.size⟩
          edges := staging.edges.push edges
          primitives := staging.primitives.push
            (primitiveRows interner record.2.primitives).1 } := by
      rw [Staging.stageObject, staged]
      rfl
    have aligned := holds.aligned.stageObject done
    rw [done]
    refine ⟨none, aligned, others.sound, holds.rows.pushObject holds.aligned.edges
      holds.aligned.primitives (more.trans others) ⟨rfl, ?_, primitivesHold⟩⟩
    exact edgesHold.imp fun _ _ held => held.extends others.extends_

/-- Objects are staged one after another, up to the first that is refused. -/
theorem Holds.stageObjects (holds : staging.Holds ⟨classes, objects, roots⟩)
    (more : List (ObjectId × ObjectRecord)) :
    match staging.stageObjects more with
    | .ok last =>
      (more.flatMap fun record => record.2.positionFaults record.1) = [] ∧
        last.Holds ⟨classes, objects ++ more, roots⟩
    | .error fault =>
      (more.flatMap fun record => record.2.positionFaults record.1).head? = some fault := by
  -- The induction is on the objects to come, behind those that are staged already.
  induction more generalizing staging objects with
  | nil =>
    refine ⟨rfl, ?_⟩
    rw [List.append_nil]
    exact holds
  | cons record rest ih =>
    have first := holds.stageObject record
    rw [Staging.stageObjects, List.flatMap_cons]
    cases staged : staging.stageObject record.1 record.2 with
    | error fault =>
      rw [staged] at first
      exact (List.head?_append ..).trans (by rw [first]; rfl)
    | ok next =>
      rw [staged] at first
      obtain ⟨none, nextHolds⟩ := first
      have others := ih nextHolds
      rw [none, List.nil_append]
      rw [List.append_assoc] at others
      exact others

end Staging

namespace HeapBuilder

/-- The records of a builder, which keeps them in the order of their identifiers. -/
def records (builder : HeapBuilder) : HeapRecords :=
  ⟨builder.classes.toList, builder.objects.toList, builder.roots.toList⟩

end HeapBuilder

/-- Columns hold some records. -/
structure Columns.Holds (columns : Columns) (records : HeapRecords) : Prop where
  aligned : columns.Aligned
  distinct : columns.names.names.toList.Nodup
  rows : RowsHold columns.names columns.classes columns.classFields columns.objects columns.edges
    columns.primitives records
  roots : columns.roots.toList = records.roots

/-- A builder's columns hold its records, unless a position is too large. -/
theorem HeapBuilder.columns_spec (builder : HeapBuilder) :
    match builder.columns with
    | .ok columns => builder.records.positionFaults = [] ∧ columns.Holds builder.records
    | .error fault => builder.records.positionFaults.head? = some fault := by
  -- All classes are staged before the first object.
  have classes : ∀ (more before : List (ClassId × ClassInfo)) (staging : Staging),
      staging.Holds ⟨before, [], builder.roots.toList⟩ →
        (more.foldl (fun staging record => staging.stageClass record.1 record.2) staging).Holds
          ⟨before ++ more, [], builder.roots.toList⟩ := by
    intro more
    induction more with
    | nil =>
      intro before staging holds
      rw [List.append_nil]
      exact holds
    | cons record rest ih =>
      intro before staging holds
      have others := ih _ _ (holds.stageClass record)
      rw [List.append_assoc] at others
      exact others
  have staged := (classes builder.classes.toList [] .empty (Staging.holds_empty _)).stageObjects
    builder.objects.toList
  rw [columns]
  cases result : (builder.classes.toList.foldl
    (fun staging record => staging.stageClass record.1 record.2) Staging.empty).stageObjects
      builder.objects.toList with
  | error fault =>
    rw [result] at staged
    exact staged
  | ok last =>
    rw [result] at staged
    obtain ⟨none, holds⟩ := staged
    have aligned := holds.aligned
    exact ⟨none, ⟨aligned.classFields, aligned.edges, aligned.primitives, aligned.labels⟩,
      holds.sound.nodup, holds.rows, rfl⟩

end HeapAtlas
