import HeapAtlas.Graph.Access
import HeapAtlas.Snapshot.Layout

/-! Writing a heap as a snapshot. -/

namespace HeapAtlas.Snapshot

/-- A span from native numbers. -/
def Span.ofNat (start count : Nat) : Span := ⟨UInt64.ofNat start, UInt64.ofNat count⟩

/-- The span of a group's items. -/
def Span.ofGroup {α : Type} (ragged : Ragged α) (index : Nat) : Span :=
  .ofNat (ragged.start index) (ragged.groupSize index)

/-- The spans of names that lie end to end from an offset on. -/
def nameSpansFrom : Nat → List String → List Span
  | _, [] => []
  | start, name :: rest =>
    -- Names stand one behind another without anything between them.
    let count := name.utf8ByteSize
    .ofNat start count :: nameSpansFrom (start + count) rest

/-- The kind and the number of a label. -/
def storedLabel : LabelRef → UInt8 × UInt32
  | .name index => (0, UInt32.ofNat index)
  | .element position => (1, UInt32.ofNat position)

/-- The tables of a heap. -/
def tablesOf (graph : HeapGraph) : Tables :=
  -- Every identifier that was resolved is written again as it was recorded.
  let names := graph.names.names.toList
  { nameSpans := nameSpansFrom 0 names
    nameBytes := names.flatMap Bytes.ofText
    classes := (List.range graph.classCount).map fun slot =>
      let entry := graph.classAt slot
      let superclass := entry.superclass.map fun slot => (graph.classId slot).raw
      { id := entry.id.raw
        superclass := superclass.getD 0
        name := UInt32.ofNat entry.name
        flags := if superclass.isSome then StoredClass.superFlag else 0
        spare := 0
        fields := .ofGroup graph.classFields slot }
    classFields := graph.classFields.items.toList.map fun name => ⟨UInt32.ofNat name, 0⟩
    objects := (List.range graph.objectCount).map fun slot =>
      let entry := graph.objectAt slot
      { id := entry.id.raw
        classId := (graph.classId entry.classSlot).raw
        size := entry.size
        edges := .ofGroup graph.edges slot
        primitives := .ofGroup graph.primitives slot }
    edges := (List.range graph.edgeCount).map fun edge =>
      let entry := graph.edgeAt edge
      let (kind, label) := storedLabel entry.label
      { target := (graph.targetId edge).raw
        label := label
        typeTag := entry.typeTag
        labelKind := kind
        spare := 0 }
    primitives := graph.primitives.items.toList.map fun row =>
      { bits := row.bits, name := UInt32.ofNat row.name, tag := row.tag, spare := 0 }
    roots := graph.gcRoots.map fun root => ⟨root.object.raw, root.kind.tag, 0⟩ }

/-- The snapshot of a heap. -/
def encode (graph : HeapGraph) : Bytes := (tablesOf graph).put

end HeapAtlas.Snapshot
