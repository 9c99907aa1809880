import HeapAtlas.Ident

/-! Why records do not make up a heap. -/

namespace HeapAtlas

/-- The two kinds of identifiers, each of which has to ascend. -/
inductive IdKind where
  | classes | objects
  deriving DecidableEq, Repr

/-- The name of a kind of identifiers. -/
def IdKind.name : IdKind → String
  | classes => "class" | objects => "object"

/-- The columns that refer to names or hold type bytes. -/
inductive Column where
  | classNames | edgeLabels | edgeTypes | primitiveNames | primitiveTags
  deriving DecidableEq, Repr

/-- The name of a column. -/
def Column.name : Column → String
  | classNames => "class names" | edgeLabels => "edge_labels" | edgeTypes => "edge_types"
  | primitiveNames => "prim_names" | primitiveTags => "prim_tags"

/-- Why records do not make up a heap. -/
inductive BuildError where
  /-- The identifier at an index is not above the one before it. -/
  | unordered (kind : IdKind) (index : Nat)
  /-- An object's class is missing. -/
  | unknownClass (object : ObjectId) (classId : ClassId)
  /-- A class's superclass is missing. -/
  | unknownSuperclass (classId superclass : ClassId)
  /-- A root's object is missing. -/
  | unknownRoot (object : ObjectId)
  /-- A position of an array does not fit beside the names in a label. -/
  | positionTooLarge (object : ObjectId) (position : Nat)
  /-- More names than a label can tell apart. -/
  | tooManyNames (count : Nat)
  /-- A column refers past the end of the names. -/
  | nameOutOfRange (column : Column) (index count : Nat)
  /-- A type byte that stands for no type. -/
  | unknownTag (column : Column) (tag : UInt8) (index : Nat)
  /-- More objects than there are slots. -/
  | tooManyObjects (count : Nat)
  deriving DecidableEq, Repr

/-- The wording of a build error. -/
def BuildError.message : BuildError → String
  | unordered kind index =>
    kind.name ++ " identifiers not strictly ascending at index " ++ toString index
  | unknownClass object classId =>
    "object " ++ object.render ++ " has unknown class " ++ classId.render
  | unknownSuperclass classId superclass =>
    "class " ++ classId.render ++ " has unknown superclass " ++ superclass.render
  | unknownRoot object => "gc root references unknown object " ++ object.render
  | positionTooLarge object position =>
    "object " ++ object.render ++ " has array index " ++ toString position
      ++ " beyond the supported range"
  | tooManyNames count =>
    "string table has " ++ toString count ++ " entries, exceeding the label encoding limit"
  | nameOutOfRange column index count =>
    column.name ++ " references string " ++ toString index ++ ", table has " ++ toString count
  | unknownTag column tag index =>
    "invalid " ++ column.name ++ " tag " ++ toString tag.toNat ++ " at index " ++ toString index
  | tooManyObjects count => toString count ++ " objects exceed the slot address space"

end HeapAtlas
