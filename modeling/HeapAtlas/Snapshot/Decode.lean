import HeapAtlas.Graph.Basic
import HeapAtlas.Snapshot.Layout

/-! Reading a snapshot: every row is checked before the records are resolved into a heap. -/

namespace HeapAtlas.Snapshot

/--
The offsets at which spans end, when each begins where the one before it ended, from `cursor` on,
and the last ends with the data.
-/
def tileFrom (table data : Part) (length : Nat) :
    (index cursor : Nat) → List Span → Except DecodeError (List Nat)
  | index, cursor, [] =>
    -- Behind the last span no data may be left.
    if cursor = length then .ok []
    else .error (.badSpan table index cursor length data length)
  | index, cursor, span :: rest =>
    match span.stop? with
    | some stop =>
      -- A gap is refused like an overlap.
      if span.start.toNat = cursor ∧ stop.toNat ≤ length then
        (tileFrom table data length (index + 1) stop.toNat rest).map (stop.toNat :: ·)
      else .error (.badSpan table index span.start.toNat stop.toNat data length)
    -- The end is past the largest word, which is given in its place.
    | none => .error (.badSpan table index span.start.toNat wordMax data length)

/-- The offsets of groups whose spans tile the data. -/
def tile (table data : Part) (length : Nat) (spans : List Span) :
    Except DecodeError (List Nat) :=
  (tileFrom table data length 0 0 spans).map (0 :: ·)

/-- The texts of names of the given byte counts that lie end to end. -/
def textsFrom : (index : Nat) → List Span → Bytes → Except DecodeError (List String)
  | _, [], _ => .ok []
  | index, span :: rest, bytes =>
    -- The spans were found to tile the bytes, so only the counts are looked at.
    match Bytes.text? (bytes.take span.count.toNat) with
    | some text => (textsFrom (index + 1) rest (bytes.drop span.count.toNat)).map (text :: ·)
    | none => .error (.notText index)

/-- The record of a class row. -/
def StoredClass.toRow (row : StoredClass) (index : Nat) : Except DecodeError ClassRow :=
  if row.spare ≠ 0 then .error (.spareInUse .classes index)
  -- Only the one flag is known, and others may not be set.
  else if row.flags &&& ~~~ StoredClass.superFlag ≠ 0 then
    .error (.unknownTag .classFlags row.flags index)
  else .ok ⟨⟨row.id⟩, row.name.toNat, row.superclass?.map ClassId.mk⟩

/-- The name of a declared field. -/
def StoredField.toName (row : StoredField) (index : Nat) : Except DecodeError Nat :=
  if row.spare ≠ 0 then .error (.spareInUse .classFields index) else .ok row.name.toNat

/-- The record of an object row. -/
def StoredObject.toRow (row : StoredObject) : ObjectRow := ⟨⟨row.id⟩, ⟨row.classId⟩, row.size⟩

/-- A label held in one word, whose top bit marks the position of an array. -/
def labelOfWord (word : UInt32) : LabelRef :=
  -- The top bit alone tells positions from indices.
  if word.toNat < labelLimit then .name word.toNat else .element (word.toNat - labelLimit)

/--
The label of a reference.

Kind 0 gives the label as a word, which is a name's index below the top bit; kind 1 gives the
position of an array, which has to stay below the top bit.
-/
def StoredEdge.toLabel (row : StoredEdge) (index : Nat) : Except DecodeError LabelRef :=
  -- The word is taken as it is, so that a top bit that is set makes it a position.
  if row.labelKind = 0 then .ok (labelOfWord row.label)
  -- A position is held against the limit before the top bit would be set.
  else if row.labelKind = 1 ∧ row.label.toNat < labelLimit then .ok (.element row.label.toNat)
  else .error (.unknownTag .labelKind row.labelKind index)

/-- The record of a reference row. -/
def StoredEdge.toRow (row : StoredEdge) (index : Nat) : Except DecodeError EdgeRow :=
  if row.spare ≠ 0 then .error (.spareInUse .edges index)
  else (row.toLabel index).map fun label => ⟨⟨row.target⟩, label, row.typeTag⟩

/-- The record of a primitive row. -/
def StoredPrimitive.toRow (row : StoredPrimitive) (index : Nat) :
    Except DecodeError PrimitiveRow :=
  if row.spare ≠ 0 then .error (.spareInUse .primitives index)
  else .ok ⟨row.name.toNat, row.tag, row.bits⟩

/-- The record of a root row. -/
def StoredRoot.toRoot (row : StoredRoot) (index : Nat) : Except DecodeError GcRoot :=
  if row.spare ≠ 0 then .error (.spareInUse .roots index)
  else
    match RootKind.ofTag? row.kind with
    | some kind => .ok ⟨⟨row.object⟩, kind⟩
    | none => .error (.unknownTag .rootKind row.kind index)

/-- Checks rows from left to right, each with its index. -/
def checkRows {α β : Type} (check : α → Nat → Except DecodeError β) :
    (index : Nat) → List α → Except DecodeError (List β)
  | _, [] => .ok []
  | index, row :: rest => do
    -- The first row at fault is the one that is named.
    let first ← check row index
    let others ← checkRows check (index + 1) rest
    return first :: others

/-- The records that tables hold. -/
def Tables.columns (tables : Tables) : Except DecodeError Columns := do
  -- The names are cut by their lengths alone, so their offsets are not kept.
  let _ ← tile .nameSpans .nameBytes tables.nameBytes.length tables.nameSpans
  let names ← textsFrom 0 tables.nameSpans tables.nameBytes
  let classes ← checkRows StoredClass.toRow 0 tables.classes
  let fieldOffsets ← tile .classes .classFields tables.classFields.length
    (tables.classes.map (·.fields))
  let fields ← checkRows StoredField.toName 0 tables.classFields
  -- The spans of all objects are looked at before any row of references is.
  let edgeOffsets ← tile .objects .edges tables.edges.length (tables.objects.map (·.edges))
  let primitiveOffsets ← tile .objects .primitives tables.primitives.length
    (tables.objects.map (·.primitives))
  let edges ← checkRows StoredEdge.toRow 0 tables.edges
  let primitives ← checkRows StoredPrimitive.toRow 0 tables.primitives
  let roots ← checkRows StoredRoot.toRoot 0 tables.roots
  return {
    names := .ofNames names
    classes := classes.toArray
    classFields := ⟨fieldOffsets.toArray, fields.toArray⟩
    objects := (tables.objects.map (·.toRow)).toArray
    edges := ⟨edgeOffsets.toArray, edges.toArray⟩
    primitives := ⟨primitiveOffsets.toArray, primitives.toArray⟩
    roots := roots.toArray }

/-- The heap of a snapshot, if the bytes are one. -/
def decode (bytes : Bytes) : Except DecodeError HeapGraph := do
  let header ← Header.read bytes
  -- The digest covers everything behind the header, the directory included.
  if Blake3.digest (bytes.drop headerSize) ≠ header.digest then
    throw .digestMismatch
  let directory ← Directory.read bytes header
  let tables ← Tables.read bytes directory
  let columns ← tables.columns
  -- What can only be judged from all records together is left to resolving them.
  match HeapGraph.ofColumns columns with
  | .ok graph => return graph
  | .error fault => throw (.graph fault)

/-- The number of rows of a table that lies within the bytes. -/
def peekRows (bytes : Bytes) (part : Part) (width : Nat) (place : Section) :
    Except DecodeError Nat := do
  let _ ← readBytes bytes part place.offset (place.count.toNat * width)
  return place.count.toNat

/-- The numbers of a heap's parts from the directory alone, without a look at the tables. -/
def peek (bytes : Bytes) : Except DecodeError Counts := do
  let header ← Header.read bytes
  let directory ← Directory.read bytes header
  -- Every table has to lie within the bytes, though no row of it is read.
  let _ ← peekRows bytes .nameSpans (Row.width Span) directory.nameSpans
  let _ ← peekRows bytes .classFields (Row.width StoredField) directory.classFields
  let classes ← peekRows bytes .classes (Row.width StoredClass) directory.classes
  let objects ← peekRows bytes .objects (Row.width StoredObject) directory.objects
  let edges ← peekRows bytes .edges (Row.width StoredEdge) directory.edges
  let primitives ← peekRows bytes .primitives (Row.width StoredPrimitive) directory.primitives
  let roots ← peekRows bytes .roots (Row.width StoredRoot) directory.roots
  let nameBytes ← peekRows bytes .nameBytes 1 directory.nameBytes
  return ⟨classes, objects, edges, primitives, roots, nameBytes⟩

end HeapAtlas.Snapshot
