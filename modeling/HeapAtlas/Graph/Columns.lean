import HeapAtlas.Record
import HeapAtlas.NameTable
import HeapAtlas.SlotIndex
import HeapAtlas.Graph.Error
import HeapAtlas.Graph.Ragged

/-! The records of a heap side by side, keyed by identifiers that are not yet resolved. -/

namespace HeapAtlas

/-- How a reference is held, with the field's name as an index. -/
inductive LabelRef where
  | name (index : Nat)
  | element (position : Nat)
  deriving DecidableEq, Repr, Inhabited

/-- Labels have 31 bits for an index or a position. -/
def labelLimit : Nat := 1 <<< 31

/-- Slots are numbered with 32 bits, of which the two largest numbers are kept free. -/
def slotLimit : Nat := (1 <<< 32) - 2

/-- A class, its name given by index. -/
structure ClassRow where
  id : ClassId
  name : Nat
  superclass : Option ClassId
  deriving DecidableEq, Repr, Inhabited

/-- An object without its references and fields. -/
structure ObjectRow where
  id : ObjectId
  classId : ClassId
  size : UInt64
  deriving DecidableEq, Repr, Inhabited

/-- A reference, its type byte zero where no type is recorded. -/
structure EdgeRow where
  target : ObjectId
  label : LabelRef
  typeTag : UInt8
  deriving DecidableEq, Repr, Inhabited

/-- A primitive field as its type byte and word. -/
structure PrimitiveRow where
  name : Nat
  tag : UInt8
  bits : UInt64
  deriving DecidableEq, Repr, Inhabited

/-- The records of a heap; the groups of the ragged columns go with the classes and objects. -/
structure Columns where
  names : NameTable
  classes : Array ClassRow
  classFields : Ragged Nat
  objects : Array ObjectRow
  edges : Ragged EdgeRow
  primitives : Ragged PrimitiveRow
  roots : Array GcRoot
  deriving DecidableEq, Inhabited

/-- The index of the first word that is not above the word before it. -/
def descent? : Nat → List UInt64 → Option Nat
  | index, first :: second :: rest =>
    -- Equal neighbours are refused as well.
    if first < second then descent? (index + 1) (second :: rest) else some (index + 1)
  | _, _ => none

namespace Columns

/-- The slot of a class. -/
def classSlot? (columns : Columns) (id : ClassId) : Option Slot :=
  bisect? (orderOf (fun slot => (columns.classes[slot]?).map (·.id)) id) 0 columns.classes.size

/-- The way from identifiers to slots. -/
def slotIndex (columns : Columns) : SlotIndex := .build (columns.objects.map (·.id))

/-- The slot of an object, by an index made before. -/
def objectSlot? (columns : Columns) (index : SlotIndex) (id : ObjectId) : Option Slot :=
  index.lookup (fun slot => (columns.objects[slot]?).map (·.id)) columns.objects.size id

/-- The fault of a name index that is past the end of the names. -/
def nameFault? (columns : Columns) (column : Column) (index : Nat) : Option BuildError :=
  if index < columns.names.size then none
  else some (.nameOutOfRange column index columns.names.size)

/-- More names or objects than can be numbered. -/
def sizeFault? (columns : Columns) : Option BuildError :=
  if labelLimit ≤ columns.names.size then some (.tooManyNames columns.names.size)
  else if slotLimit ≤ columns.objects.size then some (.tooManyObjects columns.objects.size)
  else none

/-- The first fault of the classes: their order, then their names, then their superclasses. -/
def classFault? (columns : Columns) : Option BuildError :=
  -- The slots of classes are searched for by halving, so the order comes first.
  ((descent? 0 (columns.classes.toList.map (·.id.raw))).map (.unordered .classes))
    <|> ((columns.classes.toList.map (·.name) ++ columns.classFields.items.toList).findSome?
      (columns.nameFault? .classNames))
    <|> columns.classes.toList.findSome? fun row =>
      match row.superclass with
      | none => none
      | some superclass =>
        if (columns.classSlot? superclass).isSome then none
        else some (.unknownSuperclass row.id superclass)

/-- The first fault of the objects: their order, then their classes. -/
def objectFault? (columns : Columns) : Option BuildError :=
  -- Likewise for objects.
  ((descent? 0 (columns.objects.toList.map (·.id.raw))).map (.unordered .objects))
    <|> columns.objects.toList.findSome? fun row =>
      if (columns.classSlot? row.classId).isSome then none
      else some (.unknownClass row.id row.classId)

/-- The fault of one reference: its field's name, then its type. -/
def edgeRowFault? (columns : Columns) (row : EdgeRow) (index : Nat) : Option BuildError :=
  -- A position in an array is no index, so there is nothing to look for.
  (match row.label with
    | .name name => columns.nameFault? .edgeLabels name
    | .element _ => none)
    <|> if row.typeTag = 0 ∨ (FieldType.ofTag? row.typeTag).isSome then none
      else some (.unknownTag .edgeTypes row.typeTag index)

/-- The first fault of the references. -/
def edgeFault? (columns : Columns) : Option BuildError :=
  columns.edges.items.toList.zipIdx.findSome? fun (row, index) => columns.edgeRowFault? row index

/-- The fault of one primitive field: its name, then its type. -/
def primitiveRowFault? (columns : Columns) (row : PrimitiveRow) (index : Nat) :
    Option BuildError :=
  columns.nameFault? .primitiveNames row.name
    <|> if (PrimitiveValue.ofBits? row.tag row.bits).isSome then none
      else some (.unknownTag .primitiveTags row.tag index)

/-- The first fault of the primitive fields. -/
def primitiveFault? (columns : Columns) : Option BuildError :=
  columns.primitives.items.toList.zipIdx.findSome? fun (row, index) =>
    columns.primitiveRowFault? row index

/-- The first root whose object is missing. -/
def rootFault? (columns : Columns) : Option BuildError :=
  -- The index is made once for all roots.
  let index := columns.slotIndex
  columns.roots.toList.findSome? fun root =>
    if (columns.objectSlot? index root.object).isSome then none else some (.unknownRoot root.object)

/-- The first fault that keeps the records from making up a heap. -/
def fault? (columns : Columns) : Option BuildError :=
  columns.sizeFault? <|> columns.classFault? <|> columns.objectFault? <|> columns.edgeFault?
    <|> columns.primitiveFault? <|> columns.rootFault?

end Columns

end HeapAtlas
