import Std.Data.TreeMap
import HeapAtlas.Graph.Access
import HeapAtlas.Json.Codec

/-! Declared field types that come with a heap on the side, by class. -/

namespace HeapAtlas

/-- A field with its declared type. -/
structure DeclaredField where
  name : String
  typeName : String
  deriving DecidableEq, Repr, Inhabited

/-- Why a text gives no layout. -/
inductive LayoutError where
  /-- It is no JSON of the right shape. -/
  | json (fault : JsonText.Fault)
  /-- A class is named by a text that is no identifier. -/
  | classId (text : String) (fault : IdentError)
  deriving DecidableEq, Repr

/-- The wording of a layout error about a class. -/
def LayoutError.message : LayoutError → String
  | json _ => "layout json"
  | classId text fault => "layout class id " ++ Text.quoted text ++ ": " ++ fault.message

/-- The declared fields of classes. -/
structure ClassLayout where
  classes : Std.TreeMap ClassId (List DeclaredField)

namespace ClassLayout

/-- No classes. -/
def empty : ClassLayout := ⟨∅⟩

/-- Puts in the fields of a class, in place of earlier ones. -/
def insert (layout : ClassLayout) (id : ClassId) (fields : List DeclaredField) : ClassLayout :=
  ⟨layout.classes.insert id fields⟩

/-- Number of classes. -/
def size (layout : ClassLayout) : Nat := layout.classes.size

/-- The declared fields of a class, none for one that is not listed. -/
def fields (layout : ClassLayout) (id : ClassId) : List DeclaredField :=
  layout.classes.getD id []

/-- A field is given by its name and its type. -/
def fieldCodec : JsonCodec DeclaredField :=
  .record
    [JsonCodec.field "name" true .text fun name field => { field with name := name },
      JsonCodec.field "type" true .text fun type field => { field with typeName := type }]
    ⟨"", ""⟩

/-- A class is given by its identifier and, unless there are none, its fields. -/
def classCodec : JsonCodec (String × List DeclaredField) :=
  .record
    [JsonCodec.field "class_id" true .text fun id entry => (id, entry.2),
      JsonCodec.field "fields" false (.list fieldCodec) fun fields entry => (entry.1, fields)]
    ("", [])

/-- A layout is given by its classes. -/
def codec : JsonCodec (List (String × List DeclaredField)) :=
  .record [JsonCodec.field "classes" true (.list classCodec) fun classes _ => classes] []

/-- Puts in classes from left to right, up to the first that is not named by an identifier. -/
def insertAll (layout : ClassLayout) :
    List (String × List DeclaredField) → Except LayoutError ClassLayout
  | [] => .ok layout
  | (text, fields) :: rest =>
    match ClassId.parse text with
    | .ok id => (layout.insert id fields).insertAll rest
    | .error fault => .error (.classId text fault)

/-- Reads a layout from a JSON text. -/
def parse (bytes : Bytes) : Except LayoutError ClassLayout :=
  match codec.parse bytes with
  | .ok classes => empty.insertAll classes
  | .error fault => .error (.json fault)

/-- The declared type of a field in a class or the nearest class above it, within `room` classes. -/
def typeAbove (layout : ClassLayout) (graph : HeapGraph) (field : String) :
    (room : Nat) → Option Slot → Option String
  | 0, _ | _, none => none
  | room + 1, some slot =>
    -- A chain of superclasses may be a circle: the room ends the climb.
    match (layout.fields (graph.classId slot)).find? (·.name = field) with
    | some found => some found.typeName
    | none => typeAbove layout graph field room (graph.superclass? slot)

/-- The declared type of a field; the walk up visits a class more than there are and then ends. -/
def fieldType? (layout : ClassLayout) (graph : HeapGraph) (classSlot : Slot) (field : String) :
    Option String :=
  layout.typeAbove graph field (graph.classCount + 1) (some classSlot)

end ClassLayout

end HeapAtlas
