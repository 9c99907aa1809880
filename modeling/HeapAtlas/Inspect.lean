import HeapAtlas.Dominance.Retained
import HeapAtlas.Layout

/-! One object in detail: what it is, and its fields as a reader of its class expects them. -/

namespace HeapAtlas

/-- What an object is. -/
structure ObjectDescriptor where
  id : ObjectId
  classId : ClassId
  className : String
  shallowSize : Nat
  retainedSize : Nat
  reachable : Bool
  dominator : Option ObjectId
  rootKinds : List RootKind
  outgoing : Nat
  incoming : Nat
  deriving DecidableEq, Repr

/-- What a field holds. -/
inductive FieldValue where
  /-- A reference to an object of the heap. -/
  | reference (target : ObjectId) (className : String) (shallowSize retainedSize : Nat)
  /-- A reference to an object that the heap does not hold. -/
  | dangling (target : ObjectId)
  | primitive (value : PrimitiveValue)
  /-- Nothing was recorded for a declared field. -/
  | null
  deriving DecidableEq, Repr, Inhabited

/-- A field with its type, if one is declared or recorded. -/
structure FieldDescriptor where
  name : String
  declaredType : Option String
  value : FieldValue
  deriving DecidableEq, Repr

namespace Inspect

/-- Describes an object. -/
def describe (graph : HeapGraph) (sizes : RetainedSizes) (slot : Slot) : ObjectDescriptor :=
  let classSlot := graph.classOf slot
  { id := graph.objectId slot
    classId := graph.classId classSlot
    className := graph.className classSlot
    shallowSize := graph.shallowSize slot
    retainedSize := sizes.retainedSize slot
    reachable := sizes.isReachable slot
    -- The super-root is no object and so shown as no dominator.
    dominator := match sizes.dominator? slot with
      | some (.object dominator) => some (graph.objectId dominator)
      | _ => none
    rootKinds := graph.rootKinds slot
    outgoing := graph.outDegree slot
    incoming := graph.inDegree slot }

/-- A named value as it was recorded. -/
structure Recorded where
  name : String
  value : FieldValue
  type : Option FieldType
  deriving DecidableEq, Repr

/-- What a reference holds. -/
def referenceValue (graph : HeapGraph) (sizes : RetainedSizes) (edge : Nat) : FieldValue :=
  match (graph.edgeAt edge).target with
  | some slot =>
    .reference (graph.targetId edge) (graph.className (graph.classOf slot))
      (graph.shallowSize slot) (sizes.retainedSize slot)
  | none => .dangling (graph.targetId edge)

/-- The named references of an object and then its primitive fields, as recorded. -/
def named (graph : HeapGraph) (sizes : RetainedSizes) (slot : Slot) : List Recorded :=
  ((graph.outEdges slot).filterMap fun edge =>
      match graph.label edge with
      | .field name => some ⟨name, referenceValue graph sizes edge, graph.edgeType? edge⟩
      | .element _ => none)
    ++ (graph.primitivesOf slot).map fun field =>
      ⟨field.name, .primitive field.value, some field.value.fieldType⟩

/-- The array elements of an object with their positions, as recorded. -/
def elements (graph : HeapGraph) (sizes : RetainedSizes) (slot : Slot) :
    List (Nat × FieldDescriptor) :=
  (graph.outEdges slot).filterMap fun edge =>
    match graph.label edge with
    | .field _ => none
    | .element position =>
      some (position, ⟨(EdgeLabel.element position).render,
        (graph.edgeType? edge).map FieldType.name, referenceValue graph sizes edge⟩)

/-- Walks up from the class in front while there is room, up to a class that was met before. -/
def climb (graph : HeapGraph) : (room : Nat) → List Slot → List Slot
  | 0, chain => chain
  | room + 1, chain =>
    match chain.head?.bind graph.superclass? with
    | none => chain
    -- Superclasses may lead in a circle, which is walked once.
    | some above => if chain.contains above then chain else climb graph room (above :: chain)

/-- A class and the classes above it, each once, the topmost first. -/
def classChain (graph : HeapGraph) (classSlot : Slot) : List Slot :=
  climb graph graph.classCount [classSlot]

/-- The fields that a class and the classes above it declare, those of the topmost class first. -/
def declaredNames (graph : HeapGraph) (classSlot : Slot) : List String :=
  (classChain graph classSlot).flatMap graph.declaredFields

/-- Takes the first recorded value of a name out of a list. -/
def takeNamed (name : String) : List Recorded → Option Recorded × List Recorded
  | [] => (none, [])
  | first :: rest =>
    -- A name may be recorded twice: the second one stays for the next declaration of the name.
    if first.name = name then (some first, rest)
    else
      let (found, others) := takeNamed name rest
      (found, first :: others)

/-- Gives each declared name the first recorded value that is left for it. -/
def assign : List String → List Recorded → List (String × Option Recorded) × List Recorded
  | [], recorded => ([], recorded)
  | name :: names, recorded =>
    let (found, recorded) := takeNamed name recorded
    let (assigned, recorded) := assign names recorded
    ((name, found) :: assigned, recorded)

/-- The type to show for a named field: the declared one, or else the recorded one. -/
def shownType (graph : HeapGraph) (layout : Option ClassLayout) (classSlot : Slot)
    (name : String) (recorded : Option FieldType) : Option String :=
  (layout.bind fun layout => layout.fieldType? graph classSlot name)
    <|> recorded.map FieldType.name

/--
The fields of an object: declared ones, then other named ones, then array elements by position.
-/
def fields (graph : HeapGraph) (sizes : RetainedSizes) (layout : Option ClassLayout)
    (slot : Slot) : List FieldDescriptor :=
  let classSlot := graph.classOf slot
  let (assigned, others) :=
    assign (declaredNames graph classSlot) (named graph sizes slot)
  let shown := shownType graph layout classSlot
  -- A declared field without a recorded value is null.
  (assigned.map fun (name, found) =>
      ⟨name, shown name (found.bind (·.type)), (found.map (·.value)).getD .null⟩)
    ++ (others.map fun entry => ⟨entry.name, shown entry.name entry.type, entry.value⟩)
    ++ ((elements graph sizes slot).mergeSort fun one other => one.1 ≤ other.1).map (·.2)

end Inspect

end HeapAtlas
