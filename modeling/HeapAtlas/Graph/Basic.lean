import HeapAtlas.BitSet.Dense
import HeapAtlas.Graph.Columns
import HeapAtlas.Graph.Counts

/-! The heap as a graph: records under slots, references in both directions, and roots. -/

namespace HeapAtlas

/-- A class, its superclass given by slot. -/
structure ClassEntry where
  id : ClassId
  name : Nat
  superclass : Option Slot
  deriving DecidableEq, Repr, Inhabited

/-- An object, its class given by slot. -/
structure ObjectEntry where
  id : ObjectId
  classSlot : Slot
  size : UInt64
  deriving DecidableEq, Repr, Inhabited

/-- A reference; it has no target slot when it dangles. -/
structure EdgeEntry where
  target : Option Slot
  label : LabelRef
  typeTag : UInt8
  deriving DecidableEq, Repr, Inhabited

/-- A reference seen from its target: the slot that holds it and its position among all edges. -/
structure InEdge where
  source : Slot
  edge : Nat
  deriving DecidableEq, Repr, Inhabited

/--
An immutable heap.

Edges are numbered through all objects. The identifiers of the few targets that the heap does not
hold are kept apart, in ascending order of their edges.
-/
structure HeapGraph where
  names : NameTable
  classes : Array ClassEntry
  classFields : Ragged Nat
  objects : Array ObjectEntry
  edges : Ragged EdgeEntry
  dangling : Array (Nat × ObjectId)
  incoming : Ragged InEdge
  primitives : Ragged PrimitiveRow
  roots : Array (Slot × RootKind)
  rootMask : DenseBitSet
  slotIndex : SlotIndex
  deriving DecidableEq, Inhabited

/-- Every resolved reference under its target, in ascending order of the edges. -/
def arrivals (edges : Ragged EdgeEntry) : List (Slot × InEdge) :=
  (List.range edges.groupCount).flatMap fun source =>
    -- References that dangle have no target to arrive at.
    (edges.positions source).filterMap fun edge =>
      ((edges.items[edge]?).bind (·.target)).map fun target => (target, ⟨source, edge⟩)

/-- Counts a reference under its target; one that dangles has none. -/
def countArrival (counts : Array Nat) (entry : EdgeEntry) : Array Nat :=
  match entry.target with
  | some target => counts.modify target (· + 1)
  | none => counts

/-- How many references lead to each of `count` objects. -/
def arrivalCounts (count : Nat) (edges : Ragged EdgeEntry) : Array Nat :=
  edges.items.foldl countArrival (Array.replicate count 0)

/-- Incoming references while they are placed: where the next one of each object goes. -/
structure Placing where
  cursors : Array Nat
  placed : Array InEdge

/-- Places one arrival, and moves the cursor of its target behind it. -/
def Placing.place : Placing → Slot × InEdge → Placing
  | ⟨cursors, placed⟩, (target, arrival) =>
    let position := cursors.getD target 0
    ⟨cursors.modify target (· + 1), placed.setIfInBounds position arrival⟩

/--
The references that arrive at each of `count` objects, sorted by counting.

Every cursor begins where the group of its object does, and all arrivals are placed in the order of
their edges, so that the groups come out in that order too.
-/
def incomingOf (count : Nat) (edges : Ragged EdgeEntry) : Ragged InEdge :=
  let offsets := Ragged.offsetsOf (arrivalCounts count edges).toList
  -- The last offset tells how many references lead somewhere.
  let room := Array.replicate (offsets.back?.getD 0) ⟨0, 0⟩
  let filled := (arrivals edges).foldl Placing.place ⟨offsets, room⟩
  ⟨offsets, filled.placed⟩

/-- The identifiers of the targets without a slot, each with its edge. -/
def danglingOf (slot? : ObjectId → Option Slot) (edges : Ragged EdgeRow) :
    Array (Nat × ObjectId) :=
  (edges.items.toList.zipIdx.filterMap fun (row, edge) =>
    if (slot? row.target).isNone then some (edge, row.target) else none).toArray

/-- The heap of records that have no fault. -/
def Columns.resolved (columns : Columns) : HeapGraph :=
  let index := columns.slotIndex
  let slot? := columns.objectSlot? index
  -- References keep their places, so that edges have the numbers of their rows.
  let edges := columns.edges.map fun row => ⟨slot? row.target, row.label, row.typeTag⟩
  -- The objects of roots are there when the records have no fault.
  let roots := columns.roots.map fun root => ((slot? root.object).getD 0, root.kind)
  { names := columns.names
    classes := columns.classes.map fun row =>
      ⟨row.id, row.name, row.superclass.bind columns.classSlot?⟩
    classFields := columns.classFields
    objects := columns.objects.map fun row =>
      ⟨row.id, (columns.classSlot? row.classId).getD 0, row.size⟩
    edges := edges
    dangling := danglingOf slot? columns.edges
    incoming := incomingOf columns.objects.size edges
    primitives := columns.primitives
    roots := roots
    rootMask := roots.foldl (fun mask (slot, _) => mask.mark slot) (.ofCount columns.objects.size)
    slotIndex := index }

/-- Resolves records into a heap, or tells their first fault. -/
def HeapGraph.ofColumns (columns : Columns) : Except BuildError HeapGraph :=
  match columns.fault? with
  | some fault => .error fault
  | none => .ok columns.resolved

end HeapAtlas
