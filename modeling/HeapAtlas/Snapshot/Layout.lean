import HeapAtlas.Digest.Blake3
import HeapAtlas.Snapshot.Row
import HeapAtlas.Snapshot.Error

/-! Where the tables of a snapshot lie: header, directory and sections. -/

namespace HeapAtlas.Snapshot

/-- A table's place: its offset from the beginning and its number of rows. -/
structure Section where
  offset : UInt64
  count : UInt64
  deriving DecidableEq, Repr, Inhabited

instance : Row Section where
  width := 16
  put place := Bytes.ofNat 8 place.offset.toNat ++ Bytes.ofNat 8 place.count.toNat
  take bytes := ⟨bytes.word64 0, bytes.word64 8⟩

/-- The places of all tables; for the bytes of the names, rows are bytes. -/
structure Directory where
  nameSpans : Section
  nameBytes : Section
  classes : Section
  classFields : Section
  objects : Section
  edges : Section
  primitives : Section
  roots : Section
  deriving DecidableEq, Repr, Inhabited

instance : Row Directory where
  width := 128
  put directory :=
    putRows [directory.nameSpans, directory.nameBytes, directory.classes, directory.classFields,
      directory.objects, directory.edges, directory.primitives, directory.roots]
  take bytes :=
    { nameSpans := Row.take bytes
      nameBytes := Row.take (bytes.drop 16)
      classes := Row.take (bytes.drop 32)
      classFields := Row.take (bytes.drop 48)
      objects := Row.take (bytes.drop 64)
      edges := Row.take (bytes.drop 80)
      primitives := Row.take (bytes.drop 96)
      roots := Row.take (bytes.drop 112) }

/-- What the header says besides the magic bytes. -/
structure Header where
  digest : Bytes
  directoryOffset : UInt64
  fileSize : UInt64
  deriving DecidableEq, Repr

/-- The bytes of a header. -/
def Header.put (header : Header) : Bytes :=
  magic ++ header.digest ++ Bytes.ofNat 8 header.directoryOffset.toNat
    ++ Bytes.ofNat 8 header.fileSize.toNat ++ Bytes.zeros 72

/-- Reads the header: enough bytes, the magic ones, the true length and zeros at the end. -/
def Header.read (bytes : Bytes) : Except DecodeError Header :=
  -- Each check relies on those before it.
  if bytes.length < headerSize then .error (.tooSmall bytes.length)
  else if bytes.take 8 ≠ magic then .error (.badMagic (bytes.take 8))
  else if (bytes.word64 48).toNat ≠ bytes.length then
    .error (.lengthMismatch (bytes.word64 48) bytes.length)
  else if bytes.slice 56 72 ≠ Bytes.zeros 72 then .error (.spareInUse .header 0)
  else .ok ⟨bytes.slice 8 32, bytes.word64 40, bytes.word64 48⟩

/-- The bytes of a part that takes `length` bytes, if they are all there. -/
def readBytes (bytes : Bytes) (part : Part) (offset : UInt64) (length : Nat) :
    Except DecodeError Bytes :=
  -- The end is reckoned without wrapping around, and only told as a word.
  if bytes.length < offset.toNat + length then
    .error (.outOfBounds part offset (min wordMax length) bytes.length)
  else .ok (bytes.slice offset.toNat length)

/-- The rows of a table that begins at a multiple of eight. -/
def readTable (α : Type) [Row α] (bytes : Bytes) (part : Part) (place : Section) :
    Except DecodeError (List α) := do
  -- The beginning of the table is judged first, and then its end.
  if place.offset.toNat % 8 ≠ 0 then
    throw (.misaligned part place.offset)
  let table ← readBytes bytes part place.offset (place.count.toNat * Row.width α)
  return takeRows place.count.toNat table

/-- The directory, wherever the header says that it lies. -/
def Directory.read (bytes : Bytes) (header : Header) : Except DecodeError Directory := do
  let found ← readBytes bytes .directory header.directoryOffset headerSize
  return Row.take found

/-- The tables of a snapshot. -/
structure Tables where
  nameSpans : List Span
  nameBytes : Bytes
  classes : List StoredClass
  classFields : List StoredField
  objects : List StoredObject
  edges : List StoredEdge
  primitives : List StoredPrimitive
  roots : List StoredRoot
  deriving DecidableEq, Repr, Inhabited

/-- Reads the tables, in the order of the directory. -/
def Tables.read (bytes : Bytes) (directory : Directory) : Except DecodeError Tables := do
  -- The order is seen where two tables are at fault: the first of them is named.
  let nameSpans ← readTable Span bytes .nameSpans directory.nameSpans
  let nameBytes ← readBytes bytes .nameBytes directory.nameBytes.offset
    directory.nameBytes.count.toNat
  let classes ← readTable StoredClass bytes .classes directory.classes
  let classFields ← readTable StoredField bytes .classFields directory.classFields
  let objects ← readTable StoredObject bytes .objects directory.objects
  let edges ← readTable StoredEdge bytes .edges directory.edges
  let primitives ← readTable StoredPrimitive bytes .primitives directory.primitives
  let roots ← readTable StoredRoot bytes .roots directory.roots
  return ⟨nameSpans, nameBytes, classes, classFields, objects, edges, primitives, roots⟩

/-- Fills bytes up with zeros to a multiple of eight. -/
def padded (bytes : Bytes) : Bytes := bytes ++ Bytes.zeros ((8 - bytes.length % 8) % 8)

/-- The tables' row counts and bytes, in the order of the directory. -/
def Tables.blocks (tables : Tables) : List (Nat × Bytes) :=
  [(tables.nameSpans.length, putRows tables.nameSpans),
    (tables.nameBytes.length, padded tables.nameBytes),
    (tables.classes.length, putRows tables.classes),
    (tables.classFields.length, putRows tables.classFields),
    (tables.objects.length, putRows tables.objects),
    (tables.edges.length, putRows tables.edges),
    (tables.primitives.length, putRows tables.primitives),
    (tables.roots.length, putRows tables.roots)]

/-- The places of blocks that lie end to end from an offset on. -/
def placed : Nat → List (Nat × Bytes) → List Section
  | _, [] => []
  | offset, (count, block) :: rest =>
    ⟨UInt64.ofNat offset, UInt64.ofNat count⟩ :: placed (offset + block.length) rest

/-- What follows the header: the directory and the tables, end to end. -/
def Tables.body (tables : Tables) : Bytes :=
  -- The tables begin behind the header and the directory, which take as much as each other.
  putRows (placed (2 * headerSize) tables.blocks) ++ tables.blocks.flatMap (·.2)

/-- A snapshot of tables: the header, which holds the digest of all that follows, and the rest. -/
def Tables.put (tables : Tables) : Bytes :=
  -- The digest is that of all that follows the header.
  let body := tables.body
  Header.put ⟨Blake3.digest body, UInt64.ofNat headerSize,
    UInt64.ofNat (headerSize + body.length)⟩ ++ body

end HeapAtlas.Snapshot
