import Mathlib.Data.Finset.Card
import HeapAtlas.Graph.Columns
import HeapAtlas.Proofs.Graph.Faultless
import HeapAtlas.Proofs.Lists

/-! The records of a heap in the order of their identifiers, and all that is at fault with them. -/

namespace HeapAtlas

/-- The names of a reference, a class or an object, in the order in which they are interned. -/
def EdgeRecord.names (edge : EdgeRecord) : List String :=
  match edge.label with
  | .field name => [name]
  | .element _ => []

def ClassInfo.names (info : ClassInfo) : List String := info.name :: info.fields

def ObjectRecord.names (record : ObjectRecord) : List String :=
  record.edges.flatMap (·.names) ++ record.primitives.map (·.name)

/-- The fault of a reference whose position shares a bit with the indices of names. -/
def EdgeRecord.positionFault? (object : ObjectId) (edge : EdgeRecord) : Option BuildError :=
  match edge.label with
  | .field _ => none
  | .element position =>
    if position < labelLimit then none else some (.positionTooLarge object position)

/-- The faults of an object's references, in their order. -/
def ObjectRecord.positionFaults (object : ObjectId) (record : ObjectRecord) : List BuildError :=
  record.edges.filterMap (·.positionFault? object)

/-- Classes and objects with their identifiers, and roots. -/
structure HeapRecords where
  classes : List (ClassId × ClassInfo)
  objects : List (ObjectId × ObjectRecord)
  roots : List GcRoot

namespace HeapRecords

variable (records : HeapRecords)

/-- All names of the records, with repetitions. -/
def names : List String :=
  records.classes.flatMap (·.2.names) ++ records.objects.flatMap (·.2.names)

/-- The record of a class. -/
def class? (id : ClassId) : Option ClassInfo := records.classes.lookup id

/-- The record of an object. -/
def object? (id : ObjectId) : Option ObjectRecord := records.objects.lookup id

/-- Array positions that are too large, by objects and then by their references. -/
def positionFaults : List BuildError :=
  records.objects.flatMap fun (id, record) => record.positionFaults id

/-- Superclasses without a record, by classes. -/
def superclassFaults : List BuildError :=
  records.classes.filterMap fun (id, info) =>
    info.superclass.bind fun superclass =>
      if (records.class? superclass).isSome then none else some (.unknownSuperclass id superclass)

/-- Classes of objects without a record, by objects. -/
def classFaults : List BuildError :=
  records.objects.filterMap fun (id, record) =>
    if (records.class? record.classId).isSome then none
    else some (.unknownClass id record.classId)

/-- Roots whose object has no record, in the order of the roots. -/
def rootFaults : List BuildError :=
  records.roots.filterMap fun root =>
    if (records.object? root.object).isSome then none else some (.unknownRoot root.object)

/-- All that is at fault, in the order in which it is looked for. -/
def faults : List BuildError :=
  records.positionFaults ++
    (records.superclassFaults ++ (records.classFaults ++ records.rootFaults))

/-- The records stand in ascending order, each identifier once. -/
structure Ascend : Prop where
  classes : (records.classes.map (·.1.raw)).Pairwise (· < ·)
  objects : (records.objects.map (·.1.raw)).Pairwise (· < ·)

/-- Records of which a heap can be made: all that they name is there, and positions are small. -/
structure Sound : Prop where
  positions : ∀ id record, records.object? id = some record → ∀ edge ∈ record.edges,
    ∀ position, edge.label = .element position → position < labelLimit
  superclasses : ∀ id info, records.class? id = some info → ∀ superclass,
    info.superclass = some superclass → (records.class? superclass).isSome
  classes : ∀ id record, records.object? id = some record →
    (records.class? record.classId).isSome
  roots : ∀ root ∈ records.roots, (records.object? root.object).isSome

variable {records}

/-- Classes that ascend are all different. -/
theorem Ascend.nodup_classes (ascend : records.Ascend) : (records.classes.map (·.1)).Nodup := by
  have raws : ((records.classes.map (·.1)).map ClassId.raw).Nodup := by
    rw [List.map_map]
    exact ascend.classes.imp UInt64.ne_of_lt
  exact raws.of_map

/-- Objects that ascend are all different. -/
theorem Ascend.nodup_objects (ascend : records.Ascend) : (records.objects.map (·.1)).Nodup := by
  have raws : ((records.objects.map (·.1)).map ObjectId.raw).Nodup := by
    rw [List.map_map]
    exact ascend.objects.imp UInt64.ne_of_lt
  exact raws.of_map

/-- A class is found under its identifier when it is recorded, and as it is recorded. -/
theorem Ascend.class?_eq_some_iff (ascend : records.Ascend) {id : ClassId} {info : ClassInfo} :
    records.class? id = some info ↔ (id, info) ∈ records.classes :=
  lookup_eq_some_iff ascend.nodup_classes

/-- An object is found under its identifier when it is recorded, and as it is recorded. -/
theorem Ascend.object?_eq_some_iff (ascend : records.Ascend) {id : ObjectId}
    {record : ObjectRecord} :
    records.object? id = some record ↔ (id, record) ∈ records.objects :=
  lookup_eq_some_iff ascend.nodup_objects

/-- A position is at fault when a label has no room for it. -/
theorem positionFault?_eq_none_iff {object : ObjectId} {edge : EdgeRecord} :
    edge.positionFault? object = none ↔
      ∀ position, edge.label = .element position → position < labelLimit := by
  rw [EdgeRecord.positionFault?]
  cases edge.label with
  | field name => simp
  | element position => simp

/-- Nothing is at fault with just the sound records. -/
theorem Ascend.faults_eq_nil_iff (ascend : records.Ascend) :
    records.faults = [] ↔ records.Sound := by
  -- Each kind of fault is missing when its own part of what is sound holds.
  have positions : records.positionFaults = [] ↔ ∀ id record,
      records.object? id = some record → ∀ edge ∈ record.edges, ∀ position,
        edge.label = .element position → position < labelLimit := by
    simp only [positionFaults, ObjectRecord.positionFaults, List.flatMap_eq_nil_iff,
      List.filterMap_eq_nil_iff, positionFault?_eq_none_iff, Prod.forall,
      ascend.object?_eq_some_iff]
  have superclasses : records.superclassFaults = [] ↔ ∀ id info,
      records.class? id = some info → ∀ superclass, info.superclass = some superclass →
        (records.class? superclass).isSome := by
    simp only [superclassFaults, List.filterMap_eq_nil_iff, Option.bind_eq_none_iff,
      Columns.ite_none_some_eq_none_iff, Prod.forall, ascend.class?_eq_some_iff]
  have classes : records.classFaults = [] ↔ ∀ id record,
      records.object? id = some record → (records.class? record.classId).isSome := by
    simp only [classFaults, List.filterMap_eq_nil_iff, Columns.ite_none_some_eq_none_iff,
      Prod.forall, ascend.object?_eq_some_iff]
  have roots : records.rootFaults = [] ↔ ∀ root ∈ records.roots,
      (records.object? root.object).isSome := by
    simp only [rootFaults, List.filterMap_eq_nil_iff, Columns.ite_none_some_eq_none_iff]
  rw [faults, List.append_eq_nil_iff, List.append_eq_nil_iff, List.append_eq_nil_iff, positions,
    superclasses, classes, roots]
  constructor
  · intro each
    exact ⟨each.1, each.2.1, each.2.2.1, each.2.2.2⟩
  · intro sound
    exact ⟨sound.positions, sound.superclasses, sound.classes, sound.roots⟩

end HeapRecords

end HeapAtlas
