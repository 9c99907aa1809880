import HeapAtlas.Graph.Access
import HeapAtlas.Json.Value

/-! The JSON form of a heap: its records one by one, its counts, and all of it. -/

namespace HeapAtlas

open JsonValue (ofNat ofOption ofTexts)

/-- A word in hexadecimal after `0x`, padded with zeros to a number of digits. -/
def JsonValue.ofBits (width value : Nat) : JsonValue :=
  let digits := Nat.toDigits 16 value
  .text (String.ofList ('0' :: 'x' :: List.replicate (width - digits.length) '0' ++ digits))

/-- An identifier is shown as text. -/
def ObjectId.toJson (id : ObjectId) : JsonValue := .text id.render

/-- An identifier is shown as text. -/
def ClassId.toJson (id : ClassId) : JsonValue := .text id.render

/-- A type is shown by its name. -/
def FieldType.toJson (type : FieldType) : JsonValue := .text type.name

/-- A kind of root is shown by its name. -/
def RootKind.toJson (kind : RootKind) : JsonValue := .text kind.name

/-- The type of a value, and the value; a floating value as its bits. -/
def PrimitiveValue.members (value : PrimitiveValue) : List (String × JsonValue) :=
  [("type", value.fieldType.toJson),
    match value with
    | boolean value => ("value", .bool value)
    | char unit => ("value", ofNat unit.toNat)
    | float bits => ("bits", .ofBits 8 bits.toNat)
    | double bits => ("bits", .ofBits 16 bits.toNat)
    | byte value => ("value", .integer value.toInt)
    | short value => ("value", .integer value.toInt)
    | int value => ("value", .integer value.toInt)
    | long value => ("value", .integer value.toInt)]

/-- A value with its type. -/
def PrimitiveValue.toJson (value : PrimitiveValue) : JsonValue := .object value.members

/-- A field with its name, type and value. -/
def PrimitiveField.toJson (field : PrimitiveField) : JsonValue :=
  .object (("name", .text field.name) :: field.value.members)

/-- How a reference is held, where it leads and its type. -/
def EdgeRecord.members (edge : EdgeRecord) : List (String × JsonValue) :=
  [match edge.label with
    | .field name => ("field", .text name)
    | .element position => ("index", ofNat position),
    ("to", edge.target.toJson), ("type", ofOption FieldType.toJson edge.fieldType)]

/-- A class without its identifier. -/
def ClassInfo.members (info : ClassInfo) : List (String × JsonValue) :=
  [("name", .text info.name), ("super", ofOption ClassId.toJson info.superclass),
    ("fields", ofTexts info.fields)]

/-- An object without its identifier. -/
def ObjectRecord.members (record : ObjectRecord) : List (String × JsonValue) :=
  [("class", record.classId.toJson), ("size", ofNat record.size.toNat),
    ("edges", .array (record.edges.map fun edge => .object edge.members)),
    ("prims", .array (record.primitives.map PrimitiveField.toJson))]

/-- A root is shown as a pair. -/
def GcRoot.toJson (root : GcRoot) : JsonValue := .array [root.object.toJson, root.kind.toJson]

/-- The numbers of a heap's parts. -/
def Counts.members (counts : Counts) : List (String × JsonValue) :=
  [("classes", ofNat counts.classes), ("objects", ofNat counts.objects),
    ("edges", ofNat counts.edges), ("primitives", ofNat counts.primitives),
    ("roots", ofNat counts.roots), ("string_bytes", ofNat counts.nameBytes)]

/-- The numbers of a heap's parts. -/
def Counts.toJson (counts : Counts) : JsonValue := .object counts.members

/-- A reference by its number: its record, its label as text and the slot that it leads to. -/
def HeapGraph.edgeJson (graph : HeapGraph) (edge : Nat) : JsonValue :=
  .object ((graph.edgeRecord edge).members ++
    [("edge", ofNat edge), ("label", .text (graph.label edge).render),
      ("slot", ofOption ofNat (graph.edgeAt edge).target)])

/-- An arriving reference is shown as a pair. -/
def InEdge.toJson (arrival : InEdge) : JsonValue :=
  .array [ofNat arrival.source, ofNat arrival.edge]

/-- Slots as numbers. -/
def JsonValue.ofSlots (slots : List Slot) : JsonValue := .array (slots.map ofNat)

namespace HeapGraph

/-- Objects by their identifiers. -/
def idsJson (graph : HeapGraph) (slots : List Slot) : JsonValue :=
  .array (slots.map fun slot => (graph.objectId slot).toJson)

/-- A class with its slot and the slot of its superclass. -/
def classJson (graph : HeapGraph) (slot : Slot) : JsonValue :=
  .object ((graph.classInfo slot).members ++
    [("slot", ofNat slot), ("super_slot", ofOption ofNat (graph.superclass? slot))])

/-- The references of an object. -/
def outgoingJson (graph : HeapGraph) (slot : Slot) : JsonValue :=
  .object
    [("degree", ofNat (graph.outDegree slot)),
      ("edges", .array ((graph.outEdges slot).map graph.edgeJson)),
      ("referents", .ofSlots (graph.referents slot)),
      ("targets", .array ((graph.outTargets slot).map (ofOption ofNat)))]

/-- The references that arrive at an object. -/
def incomingJson (graph : HeapGraph) (slot : Slot) : JsonValue :=
  .object
    [("degree", ofNat (graph.inDegree slot)), ("sources", .ofSlots (graph.inSources slot)),
      ("edges", .array ((graph.inEdges slot).map InEdge.toJson))]

/-- Whether an object is a root, and the kinds of root that it is. -/
def rootJson (graph : HeapGraph) (slot : Slot) : JsonValue :=
  .object
    [("root", .bool (graph.isRoot slot)),
      ("kinds", .array ((graph.rootKinds slot).map RootKind.toJson))]

/-- The roots by slot. -/
def rootsJson (graph : HeapGraph) : JsonValue :=
  .array (graph.roots.toList.map fun (slot, kind) => .array [ofNat slot, kind.toJson])

/-- The counts, the number of dangling references and the expected bytes of the heap. -/
def sizeJson (graph : HeapGraph) : JsonValue :=
  .object (graph.counts.members ++
    [("dangling", ofNat graph.danglingCount), ("estimated_bytes", ofNat graph.estimatedBytes)])

/-- All classes and objects with their identifiers in the order of their slots, and all roots. -/
def toJson (graph : HeapGraph) : JsonValue :=
  .object
    [("classes", .array ((List.range graph.classCount).map fun slot =>
      .object (("id", (graph.classId slot).toJson) :: (graph.classInfo slot).members))),
    ("objects", .array ((List.range graph.objectCount).map fun slot =>
      .object (("id", (graph.objectId slot).toJson) :: (graph.objectRecord slot).members))),
    ("roots", .array (graph.gcRoots.map GcRoot.toJson))]

end HeapGraph

end HeapAtlas
