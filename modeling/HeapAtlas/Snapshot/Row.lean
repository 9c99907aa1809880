import HeapAtlas.Bytes

/-! The rows of a snapshot's tables: fixed numbers of bytes with little-endian fields. -/

namespace HeapAtlas.Snapshot

/-- A kind of row that takes the same number of bytes every time. -/
class Row (α : Type) where
  width : Nat
  put : α → Bytes
  take : Bytes → α

/-- A run of rows or bytes of another table. -/
structure Span where
  start : UInt64
  count : UInt64
  deriving DecidableEq, Repr, Inhabited

namespace Span

/-- Whether a span holds nothing. -/
def isEmpty (span : Span) : Bool := span.count = 0

/-- Where a span ends, unless that is past the largest word. -/
def stop? (span : Span) : Option UInt64 :=
  if span.start.toNat + span.count.toNat < 1 <<< 64 then some (span.start + span.count) else none

end Span

instance : Row Span where
  width := 16
  put span := Bytes.ofNat 8 span.start.toNat ++ Bytes.ofNat 8 span.count.toNat
  take bytes := ⟨bytes.word64 0, bytes.word64 8⟩

/-- A class; its superclass counts only under a flag, and its spare bytes have to be zero. -/
structure StoredClass where
  id : UInt64
  superclass : UInt64
  name : UInt32
  flags : UInt8
  spare : Nat
  fields : Span
  deriving DecidableEq, Repr, Inhabited

namespace StoredClass

/-- The flag under which the superclass counts. -/
def superFlag : UInt8 := 1

/-- The superclass, if it counts. -/
def superclass? (row : StoredClass) : Option UInt64 :=
  if row.flags &&& superFlag != 0 then some row.superclass else none

end StoredClass

instance : Row StoredClass where
  width := 40
  put row :=
    Bytes.ofNat 8 row.id.toNat ++ Bytes.ofNat 8 row.superclass.toNat
      ++ Bytes.ofNat 4 row.name.toNat ++ [row.flags] ++ Bytes.ofNat 3 row.spare
      ++ Row.put row.fields
  take bytes :=
    { id := bytes.word64 0
      superclass := bytes.word64 8
      name := bytes.word32 16
      flags := bytes.byteAt 20
      spare := (bytes.slice 21 3).toNat
      fields := Row.take (bytes.drop 24) }

/-- A declared field of a class. -/
structure StoredField where
  name : UInt32
  spare : Nat
  deriving DecidableEq, Repr, Inhabited

instance : Row StoredField where
  width := 8
  put row := Bytes.ofNat 4 row.name.toNat ++ Bytes.ofNat 4 row.spare
  take bytes := ⟨bytes.word32 0, (bytes.slice 4 4).toNat⟩

/-- An object. -/
structure StoredObject where
  id : UInt64
  classId : UInt64
  size : UInt64
  edges : Span
  primitives : Span
  deriving DecidableEq, Repr, Inhabited

instance : Row StoredObject where
  width := 56
  put row :=
    Bytes.ofNat 8 row.id.toNat ++ Bytes.ofNat 8 row.classId.toNat ++ Bytes.ofNat 8 row.size.toNat
      ++ Row.put row.edges ++ Row.put row.primitives
  take bytes :=
    { id := bytes.word64 0
      classId := bytes.word64 8
      size := bytes.word64 16
      edges := Row.take (bytes.drop 24)
      primitives := Row.take (bytes.drop 40) }

/-- A reference; its label is a name's index or a position, as the kind says. -/
structure StoredEdge where
  target : UInt64
  label : UInt32
  typeTag : UInt8
  labelKind : UInt8
  spare : Nat
  deriving DecidableEq, Repr, Inhabited

instance : Row StoredEdge where
  width := 16
  put row :=
    Bytes.ofNat 8 row.target.toNat ++ Bytes.ofNat 4 row.label.toNat ++ [row.typeTag, row.labelKind]
      ++ Bytes.ofNat 2 row.spare
  take bytes :=
    { target := bytes.word64 0
      label := bytes.word32 8
      typeTag := bytes.byteAt 12
      labelKind := bytes.byteAt 13
      spare := (bytes.slice 14 2).toNat }

/-- A primitive field. -/
structure StoredPrimitive where
  bits : UInt64
  name : UInt32
  tag : UInt8
  spare : Nat
  deriving DecidableEq, Repr, Inhabited

instance : Row StoredPrimitive where
  width := 16
  put row :=
    Bytes.ofNat 8 row.bits.toNat ++ Bytes.ofNat 4 row.name.toNat ++ [row.tag]
      ++ Bytes.ofNat 3 row.spare
  take bytes :=
    { bits := bytes.word64 0
      name := bytes.word32 8
      tag := bytes.byteAt 12
      spare := (bytes.slice 13 3).toNat }

/-- A root. -/
structure StoredRoot where
  object : UInt64
  kind : UInt8
  spare : Nat
  deriving DecidableEq, Repr, Inhabited

instance : Row StoredRoot where
  width := 16
  put row := Bytes.ofNat 8 row.object.toNat ++ [row.kind] ++ Bytes.ofNat 7 row.spare
  take bytes := ⟨bytes.word64 0, bytes.byteAt 8, (bytes.slice 9 7).toNat⟩

/-- The bytes of a table. -/
def putRows {α : Type} [Row α] (rows : List α) : Bytes := rows.flatMap Row.put

/-- The first `count` rows of a table. -/
def takeRows {α : Type} [Row α] : (count : Nat) → Bytes → List α
  | 0, _ => []
  | count + 1, bytes =>
    Row.take (bytes.take (Row.width α)) :: takeRows count (bytes.drop (Row.width α))

end HeapAtlas.Snapshot
