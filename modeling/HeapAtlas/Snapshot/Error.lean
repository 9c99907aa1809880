import HeapAtlas.Graph.Error
import HeapAtlas.Bytes
import HeapAtlas.Capped

/-! Why bytes are not a snapshot. -/

namespace HeapAtlas.Snapshot

/-- The parts that a snapshot is made of. -/
inductive Part where
  | header | directory | nameSpans | nameBytes | classes | classFields | objects | edges
  | primitives | roots
  deriving DecidableEq, Repr

/-- The name of a part. -/
def Part.name : Part → String
  | header => "header" | directory => "directory" | nameSpans => "string_spans"
  | nameBytes => "string_bytes" | classes => "classes" | classFields => "class_fields"
  | objects => "objects" | edges => "edges" | primitives => "prims" | roots => "roots"

/-- The bytes of a row that stand for one of several things. -/
inductive TagColumn where
  | classFlags | labelKind | rootKind
  deriving DecidableEq, Repr

/-- The name of such a byte. -/
def TagColumn.name : TagColumn → String
  | classFlags => "class_flags" | labelKind => "edge_label_kind" | rootKind => "root_kind"

/-- The bytes of the header, and also those of the directory. -/
def headerSize : Nat := 128

/-- The bytes that a snapshot of this format begins with. -/
def magic : Bytes := [72, 83, 67, 0, 1, 0, 0, 0]

/-- Why bytes are not a snapshot. -/
inductive DecodeError where
  /-- Not even room for the header. -/
  | tooSmall (size : Nat)
  /-- Another format or version. -/
  | badMagic (found : Bytes)
  /-- The header speaks of another number of bytes. -/
  | lengthMismatch (declared : UInt64) (actual : Nat)
  /-- The bytes after the header are not those that the digest was taken of. -/
  | digestMismatch
  /-- A part reaches past the end. -/
  | outOfBounds (part : Part) (offset : UInt64) (length fileSize : Nat)
  /-- A table does not begin at a multiple of eight. -/
  | misaligned (part : Part) (offset : UInt64)
  /-- The spans of a table do not lie end to end over another. -/
  | badSpan (table : Part) (index start stop : Nat) (data : Part) (length : Nat)
  /-- Spare bytes are in use. -/
  | spareInUse (part : Part) (index : Nat)
  /-- A byte stands for nothing known. -/
  | unknownTag (column : TagColumn) (tag : UInt8) (index : Nat)
  /-- A name is not text. -/
  | notText (index : Nat)
  /-- The records do not make up a heap. -/
  | graph (fault : BuildError)
  deriving DecidableEq, Repr

/-- Bytes as decimal numbers in brackets. -/
def renderBytes (bytes : Bytes) : String :=
  "[" ++ ", ".intercalate (bytes.map fun byte => toString byte.toNat) ++ "]"

/-- The wording of a decode error. -/
def DecodeError.message : DecodeError → String
  | tooSmall size =>
    "input too small: " ++ toString size ++ " bytes, minimum " ++ toString headerSize
  | badMagic found =>
    "invalid magic: expected " ++ renderBytes magic ++ ", got " ++ renderBytes found
  | lengthMismatch declared actual =>
    "header declares " ++ toString declared.toNat ++ " bytes, input has " ++ toString actual
  | digestMismatch => "body digest mismatch"
  | outOfBounds part offset length fileSize =>
    "section " ++ part.name ++ " out of bounds: offset " ++ toString offset.toNat ++ ", length "
      ++ toString length ++ ", file size " ++ toString fileSize
  | misaligned part offset =>
    "section " ++ part.name ++ " at offset " ++ toString offset.toNat ++ " is not 8-byte aligned"
  | badSpan table index start stop data length =>
    table.name ++ "[" ++ toString index ++ "] range (" ++ toString start ++ ".." ++ toString stop
      ++ ") is invalid for " ++ data.name ++ " of length " ++ toString length
  | spareInUse part index =>
    "non-zero reserved bytes in " ++ part.name ++ " at index " ++ toString index
  | unknownTag column tag index =>
    "invalid " ++ column.name ++ " tag " ++ toString tag.toNat ++ " at index " ++ toString index
  | notText index => "string " ++ toString index ++ " is not valid UTF-8"
  | graph fault => "graph: " ++ fault.message

end HeapAtlas.Snapshot
