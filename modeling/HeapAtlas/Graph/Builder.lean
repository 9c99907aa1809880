import Std.Data.TreeMap
import HeapAtlas.Graph.Basic

/-! Collecting the records of a heap in any order. -/

namespace HeapAtlas

/-- The last record put in for each class and object, and the roots in the order they came. -/
structure HeapBuilder where
  classes : Std.TreeMap ClassId ClassInfo
  objects : Std.TreeMap ObjectId ObjectRecord
  roots : Array GcRoot

/-- Columns that grow as records are staged in identifier order. -/
structure Staging where
  interner : Interner
  classes : Array ClassRow
  classFields : Ragged Nat
  objects : Array ObjectRow
  edges : Ragged EdgeRow
  primitives : Ragged PrimitiveRow

namespace Staging

/-- Nothing staged. -/
def empty : Staging := ⟨.empty, #[], .empty, #[], .empty, .empty⟩

/-- Stages a class: its name is interned before its fields. -/
def stageClass (staging : Staging) (id : ClassId) (info : ClassInfo) : Staging :=
  let (name, interner) := staging.interner.intern info.name
  let (fields, interner) := interner.internAll info.fields
  { staging with
    interner := interner
    classes := staging.classes.push ⟨id, name, info.superclass⟩
    classFields := staging.classFields.push fields }

/-- The rows of an object's references; a position that does not fit in a label is refused. -/
def edgeRows (object : ObjectId) (interner : Interner) :
    List EdgeRecord → Except BuildError (List EdgeRow × Interner)
  | [] => .ok ([], interner)
  | edge :: rest => do
    let (label, interner) ← match edge.label with
      | .field name =>
        let (index, interner) := interner.intern name
        .ok (LabelRef.name index, interner)
      | .element position =>
        -- Positions share their word with the indices of names, so the top bit has to be free.
        if position < labelLimit then .ok (LabelRef.element position, interner)
        else .error (.positionTooLarge object position)
    let (rows, interner) ← edgeRows object interner rest
    return (⟨edge.target, label, FieldType.tagOf edge.fieldType⟩ :: rows, interner)

/-- The rows of an object's primitive fields. -/
def primitiveRows (interner : Interner) : List PrimitiveField → List PrimitiveRow × Interner
  | [] => ([], interner)
  | field :: rest =>
    let (name, interner) := interner.intern field.name
    let (rows, interner) := primitiveRows interner rest
    (⟨name, field.value.fieldType.tag, field.value.bits⟩ :: rows, interner)

/-- Stages an object: the fields of its references are interned before its primitive fields. -/
def stageObject (staging : Staging) (id : ObjectId) (record : ObjectRecord) :
    Except BuildError Staging := do
  -- A position that is too large ends the staging before the primitive fields are looked at.
  let (edges, interner) ← edgeRows id staging.interner record.edges
  let (primitives, interner) := primitiveRows interner record.primitives
  return { staging with
    interner := interner
    objects := staging.objects.push ⟨id, record.classId, record.size⟩
    edges := staging.edges.push edges
    primitives := staging.primitives.push primitives }

/-- Stages objects from left to right, up to the first that is refused. -/
def stageObjects (staging : Staging) : List (ObjectId × ObjectRecord) → Except BuildError Staging
  | [] => .ok staging
  | (id, record) :: rest =>
    match staging.stageObject id record with
    | .error fault => .error fault
    | .ok staging => staging.stageObjects rest

end Staging

namespace HeapBuilder

/-- No records. -/
def empty : HeapBuilder := ⟨∅, ∅, #[]⟩

instance : Inhabited HeapBuilder := ⟨empty⟩

/-- Puts in a class, in place of an earlier one with the same identifier. -/
def insertClass (builder : HeapBuilder) (id : ClassId) (info : ClassInfo) : HeapBuilder :=
  { builder with classes := builder.classes.insert id info }

/-- Puts in an object, in place of an earlier one with the same identifier. -/
def insertObject (builder : HeapBuilder) (id : ObjectId) (record : ObjectRecord) : HeapBuilder :=
  { builder with objects := builder.objects.insert id record }

/-- Adds a root; an object may be a root several times. -/
def addRoot (builder : HeapBuilder) (object : ObjectId) (kind : RootKind) : HeapBuilder :=
  { builder with roots := builder.roots.push ⟨object, kind⟩ }

/-- The columns of the records in identifier order. -/
def columns (builder : HeapBuilder) : Except BuildError Columns := do
  -- All classes are staged before the first object, so that their names come first.
  let classes := builder.classes.toList.foldl
    (fun staging (id, info) => staging.stageClass id info) Staging.empty
  let staging ← classes.stageObjects builder.objects.toList
  return {
    names := staging.interner.table
    classes := staging.classes
    classFields := staging.classFields
    objects := staging.objects
    edges := staging.edges
    primitives := staging.primitives
    roots := builder.roots }

/-- The heap that the records make up, or their first fault. -/
def build (builder : HeapBuilder) : Except BuildError HeapGraph := do
  HeapGraph.ofColumns (← builder.columns)

end HeapBuilder

end HeapAtlas
