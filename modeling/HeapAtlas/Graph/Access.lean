import HeapAtlas.Graph.Basic

/-! Reading a heap: by slot, by identifier and by name, and as the records it was made from. -/

namespace HeapAtlas.HeapGraph

variable (graph : HeapGraph)

/-- Number of objects. -/
def objectCount : Nat := graph.objects.size

/-- Number of classes. -/
def classCount : Nat := graph.classes.size

/-- Number of references, dangling ones included. -/
def edgeCount : Nat := graph.edges.items.size

/-- Number of references to objects that the heap does not hold. -/
def danglingCount : Nat := graph.dangling.size

/-- The numbers of the heap's parts. -/
def counts : Counts :=
  ⟨graph.classCount, graph.objectCount, graph.edgeCount, graph.primitives.items.size,
    graph.roots.size, graph.names.byteCount⟩

/-- Expected bytes of the heap, the table of its identifiers included. -/
def estimatedBytes : Nat :=
  Capped.add graph.counts.graphBytes graph.slotIndex.byteCount

/-- The slot of an object. -/
def slotOf? (id : ObjectId) : Option Slot :=
  graph.slotIndex.lookup (fun slot => (graph.objects[slot]?).map (·.id)) graph.objectCount id

/-- The object in a slot. -/
def objectAt (slot : Slot) : ObjectEntry := graph.objects.getD slot default

/-- The identifier of the object in a slot. -/
def objectId (slot : Slot) : ObjectId := (graph.objectAt slot).id

/-- The slot of an object's class. -/
def classOf (slot : Slot) : Slot := (graph.objectAt slot).classSlot

/-- The bytes that an object takes by itself. -/
def shallowSize (slot : Slot) : Nat := (graph.objectAt slot).size.toNat

/-- Positions of an object's references among all edges, ascending. -/
def outEdges (slot : Slot) : List Nat := graph.edges.positions slot

/-- Number of an object's references. -/
def outDegree (slot : Slot) : Nat := graph.edges.groupSize slot

/-- The reference at a position among all edges. -/
def edgeAt (edge : Nat) : EdgeEntry := graph.edges.items.getD edge default

/-- The slots that an object's references lead to, none for those that dangle. -/
def outTargets (slot : Slot) : List (Option Slot) := (graph.edges.group slot).map (·.target)

/-- The slots that an object's references lead to, in the order of the references. -/
def referents (slot : Slot) : List Slot := (graph.edges.group slot).filterMap (·.target)

/-- The identifier that a dangling reference holds. -/
def danglingTarget? (edge : Nat) : Option ObjectId :=
  (bisect? (orderOf (fun i => (graph.dangling[i]?).map (·.1)) edge) 0 graph.dangling.size).bind
    fun i => (graph.dangling[i]?).map (·.2)

/-- The identifier of a reference's target, which the heap need not hold. -/
def targetId (edge : Nat) : ObjectId :=
  match (graph.edgeAt edge).target with
  | some slot => graph.objectId slot
  | none => (graph.danglingTarget? edge).getD default

/-- How a reference is held. -/
def label (edge : Nat) : EdgeLabel :=
  match (graph.edgeAt edge).label with
  | .name index => .field (graph.names.get index)
  | .element position => .element position

/-- The type recorded for a reference. -/
def edgeType? (edge : Nat) : Option FieldType := FieldType.ofTag? (graph.edgeAt edge).typeTag

/-- The references that arrive at an object, in ascending order of the edges. -/
def inEdges (slot : Slot) : List InEdge := graph.incoming.group slot

/-- The slots that the arriving references come from. -/
def inSources (slot : Slot) : List Slot := (graph.inEdges slot).map (·.source)

/-- Number of references that arrive at an object. -/
def inDegree (slot : Slot) : Nat := graph.incoming.groupSize slot

/-- An object's primitive fields. -/
def primitivesOf (slot : Slot) : List PrimitiveField :=
  (graph.primitives.group slot).filterMap fun row =>
    (PrimitiveValue.ofBits? row.tag row.bits).map fun value => ⟨graph.names.get row.name, value⟩

/-- The slot of a class. -/
def classSlotOf? (id : ClassId) : Option Slot :=
  bisect? (orderOf (fun slot => (graph.classes[slot]?).map (·.id)) id) 0 graph.classCount

/-- The class in a slot. -/
def classAt (classSlot : Slot) : ClassEntry := graph.classes.getD classSlot default

/-- The identifier of the class in a slot. -/
def classId (classSlot : Slot) : ClassId := (graph.classAt classSlot).id

/-- The name of the class in a slot. -/
def className (classSlot : Slot) : String := graph.names.get (graph.classAt classSlot).name

/-- The slot of the superclass of the class in a slot. -/
def superclass? (classSlot : Slot) : Option Slot := (graph.classAt classSlot).superclass

/-- The fields that a class declares itself. -/
def declaredFields (classSlot : Slot) : List String :=
  (graph.classFields.group classSlot).map graph.names.get

/-- The slots of the classes with a name, ascending. -/
def classesNamed (name : String) : List Slot :=
  (List.range graph.classCount).filter fun classSlot => graph.className classSlot = name

/-- Whether an object is a root. -/
def isRoot (slot : Slot) : Bool := graph.rootMask.test slot

/-- The kinds under which an object was added as a root, in the order of the roots. -/
def rootsAt (slot : Slot) : List RootKind :=
  graph.roots.foldr (fun root kinds => if root.1 = slot then root.2 :: kinds else kinds) []

/-- The kinds of root that an object is, each once, in the order of their bytes. -/
def rootKinds (slot : Slot) : List RootKind :=
  if graph.isRoot slot then
    let held := graph.rootsAt slot
    RootKind.all.filter held.contains
  else []

/-- The record of the class in a slot. -/
def classInfo (classSlot : Slot) : ClassInfo :=
  ⟨graph.className classSlot, (graph.superclass? classSlot).map graph.classId,
    graph.declaredFields classSlot⟩

/-- The record of the reference at a position among all edges. -/
def edgeRecord (edge : Nat) : EdgeRecord :=
  ⟨graph.targetId edge, graph.label edge, graph.edgeType? edge⟩

/-- The record of the object in a slot. -/
def objectRecord (slot : Slot) : ObjectRecord :=
  ⟨graph.classId (graph.classOf slot), (graph.objectAt slot).size,
    (graph.outEdges slot).map graph.edgeRecord, graph.primitivesOf slot⟩

/-- The roots in the order in which they were added. -/
def gcRoots : List GcRoot :=
  graph.roots.toList.map fun (slot, kind) => ⟨graph.objectId slot, kind⟩

end HeapAtlas.HeapGraph

namespace HeapAtlas

/-- A label as a name, or as a position in brackets. -/
def EdgeLabel.render : EdgeLabel → String
  | .field name => name
  | .element position => "[" ++ toString position ++ "]"

end HeapAtlas
