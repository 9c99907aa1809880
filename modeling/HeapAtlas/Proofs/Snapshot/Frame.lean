import HeapAtlas.Proofs.Snapshot.Columns

/-! Where the tables of a snapshot lie, and when bytes hold them at all. -/

namespace HeapAtlas.Snapshot

/-- The rows of a table, each cut out of the bytes where it lies. -/
def rowsAt (α : Type) [Row α] (bytes : Bytes) (place : Section) : List α :=
  (List.range place.count.toNat).map fun index =>
    Row.take (bytes.slice (place.offset.toNat + index * Row.width α) (Row.width α))

/-- The directory, where the header says that it lies. -/
def directoryAt (bytes : Bytes) : Directory :=
  Row.take (bytes.slice (bytes.word64 40).toNat headerSize)

/-- The tables, where a directory says that they lie. -/
def Directory.tables (directory : Directory) (bytes : Bytes) : Tables where
  nameSpans := rowsAt Span bytes directory.nameSpans
  nameBytes := bytes.slice directory.nameBytes.offset.toNat directory.nameBytes.count.toNat
  classes := rowsAt StoredClass bytes directory.classes
  classFields := rowsAt StoredField bytes directory.classFields
  objects := rowsAt StoredObject bytes directory.objects
  edges := rowsAt StoredEdge bytes directory.edges
  primitives := rowsAt StoredPrimitive bytes directory.primitives
  roots := rowsAt StoredRoot bytes directory.roots

/-- The tables, where the directory that the header names says that they lie. -/
def tablesAt (bytes : Bytes) : Tables := (directoryAt bytes).tables bytes

/-- Rows of a width lie in the bytes, wherever else, from a multiple of eight on. -/
structure Section.Within (place : Section) (width : Nat) (bytes : Bytes) : Prop where
  aligned : place.offset.toNat % 8 = 0
  end_le : place.offset.toNat + place.count.toNat * width ≤ bytes.length

/-- The tables of a directory lie in the bytes; names may lie anywhere, and parts may overlap. -/
structure Directory.Within (directory : Directory) (bytes : Bytes) : Prop where
  nameSpans : directory.nameSpans.Within (Row.width Span) bytes
  nameBytes : directory.nameBytes.offset.toNat + directory.nameBytes.count.toNat ≤ bytes.length
  classes : directory.classes.Within (Row.width StoredClass) bytes
  classFields : directory.classFields.Within (Row.width StoredField) bytes
  objects : directory.objects.Within (Row.width StoredObject) bytes
  edges : directory.edges.Within (Row.width StoredEdge) bytes
  primitives : directory.primitives.Within (Row.width StoredPrimitive) bytes
  roots : directory.roots.Within (Row.width StoredRoot) bytes

/-- A header that speaks of just these bytes, a directory, and tables, all in the bytes. -/
structure Framed (bytes : Bytes) : Prop where
  header_le : headerSize ≤ bytes.length
  magic_eq : bytes.take 8 = magic
  fileSize_eq : (bytes.word64 48).toNat = bytes.length
  spare_eq : bytes.slice 56 72 = Bytes.zeros 72
  digest_eq : Blake3.digest (bytes.drop headerSize) = bytes.slice 8 32
  directory_le : (bytes.word64 40).toNat + headerSize ≤ bytes.length
  tables : (directoryAt bytes).Within bytes

section Reading

variable {bytes : Bytes}

/-- A header is read of bytes that are enough, begin right and are as many as it says. -/
theorem Header.read_eq_ok_iff {header : Header} :
    Header.read bytes = .ok header ↔
      (headerSize ≤ bytes.length ∧ bytes.take 8 = magic ∧ (bytes.word64 48).toNat = bytes.length ∧
        bytes.slice 56 72 = Bytes.zeros 72) ∧
      header = ⟨bytes.slice 8 32, bytes.word64 40, bytes.word64 48⟩ := by
  -- The header is told when all four checks are passed.
  rw [Header.read, guard_eq_ok_iff, guard_eq_ok_iff, guard_eq_ok_iff, guard_eq_ok_iff, not_not,
    not_not, not_not, Nat.not_lt, Except.ok.injEq, eq_comm (b := header)]
  tauto

/-- A part is read when it ends with the bytes at the latest. -/
theorem readBytes_eq_ok_iff {part : Part} {offset : UInt64} {length : Nat} {found : Bytes} :
    readBytes bytes part offset length = .ok found ↔
      offset.toNat + length ≤ bytes.length ∧ found = bytes.slice offset.toNat length := by
  rw [readBytes, guard_eq_ok_iff, Nat.not_lt, Except.ok.injEq, eq_comm (b := found)]

/-- Rows that are taken one behind another are those that each lie at a multiple of the width. -/
theorem takeRows_slice {α : Type} [Row α] (count offset : Nat) :
    takeRows (α := α) count (bytes.slice offset (count * Row.width α))
      = (List.range count).map fun index =>
          Row.take (bytes.slice (offset + index * Row.width α) (Row.width α)) := by
  -- The first row is cut off in front, and the others begin one width further on.
  induction count generalizing offset with
  | zero => rfl
  | succ count ih =>
    have whole : (count + 1) * Row.width α = Row.width α + count * Row.width α := by
      rw [Nat.succ_mul, Nat.add_comm]
    have first : (bytes.slice offset ((count + 1) * Row.width α)).take (Row.width α)
        = bytes.slice offset (Row.width α) := by
      rw [Bytes.slice, List.take_take, whole, Nat.min_eq_left (Nat.le_add_right _ _), Bytes.slice]
    have others : (bytes.slice offset ((count + 1) * Row.width α)).drop (Row.width α)
        = bytes.slice (offset + Row.width α) (count * Row.width α) := by
      rw [Bytes.slice, List.drop_take, whole, Nat.add_sub_cancel_left, List.drop_drop, Bytes.slice]
    rw [takeRows, first, others, ih, List.range_succ_eq_map, List.map_cons, List.map_map,
      Nat.zero_mul, Nat.add_zero]
    congr 1
    refine List.map_congr_left fun index _ => ?_
    rw [Function.comp_apply, Nat.succ_mul, Nat.add_assoc, Nat.add_comm (Row.width α)]

/-- A table is read when it lies within the bytes from a multiple of eight on. -/
theorem readTable_eq_ok_iff {α : Type} [Row α] {part : Part} {place : Section} {rows : List α} :
    readTable α bytes part place = .ok rows ↔
      place.Within (Row.width α) bytes ∧ rows = rowsAt α bytes place := by
  unfold readTable
  split
  · -- A table that begins elsewhere is refused before its end is looked at.
    rename_i misaligned
    refine iff_of_false (fun read => ?_) fun within => misaligned within.1.aligned
    cases read
  · -- Then the bytes of all rows are read at once, and cut into rows afterwards.
    rename_i aligned
    simp only [bind_eq_ok_iff, readBytes_eq_ok_iff, pure, Except.pure, Except.ok.injEq]
    constructor
    · intro read
      obtain ⟨table, ⟨upto, rfl⟩, rfl⟩ := read
      exact ⟨⟨not_not.mp aligned, upto⟩, takeRows_slice _ _⟩
    · intro within
      obtain ⟨within, rfl⟩ := within
      exact ⟨_, ⟨within.end_le, rfl⟩, takeRows_slice _ _⟩

/-- The directory is read when it lies within the bytes. -/
theorem Directory.read_eq_ok_iff {header : Header} {directory : Directory} :
    Directory.read bytes header = .ok directory ↔
      header.directoryOffset.toNat + headerSize ≤ bytes.length ∧
        directory = Row.take (bytes.slice header.directoryOffset.toNat headerSize) := by
  simp only [Directory.read, bind_eq_ok_iff, readBytes_eq_ok_iff, pure, Except.pure,
    Except.ok.injEq]
  -- Reading checks nothing but that the bytes are there.
  constructor
  · intro read
    obtain ⟨_, ⟨upto, rfl⟩, rfl⟩ := read
    exact ⟨upto, rfl⟩
  · intro within
    obtain ⟨upto, rfl⟩ := within
    exact ⟨_, ⟨upto, rfl⟩, rfl⟩

/-- The tables are read when all of them lie within the bytes. -/
theorem Tables.read_eq_ok_iff {directory : Directory} {tables : Tables} :
    Tables.read bytes directory = .ok tables ↔
      directory.Within bytes ∧ tables = directory.tables bytes := by
  -- Every table is read from its own place, and the names are read as bytes.
  simp only [Tables.read, bind_eq_ok_iff, readTable_eq_ok_iff, readBytes_eq_ok_iff, pure,
    Except.pure, Except.ok.injEq]
  constructor
  · intro read
    obtain ⟨_, ⟨nameSpans, rfl⟩, _, ⟨nameBytes, rfl⟩, _, ⟨classes, rfl⟩, _, ⟨classFields, rfl⟩,
      _, ⟨objects, rfl⟩, _, ⟨edges, rfl⟩, _, ⟨primitives, rfl⟩, _, ⟨roots, rfl⟩, rfl⟩ := read
    exact ⟨⟨nameSpans, nameBytes, classes, classFields, objects, edges, primitives, roots⟩, rfl⟩
  · intro within
    obtain ⟨within, rfl⟩ := within
    exact ⟨_, ⟨within.nameSpans, rfl⟩, _, ⟨within.nameBytes, rfl⟩, _, ⟨within.classes, rfl⟩, _,
      ⟨within.classFields, rfl⟩, _, ⟨within.objects, rfl⟩, _, ⟨within.edges, rfl⟩, _,
      ⟨within.primitives, rfl⟩, _, ⟨within.roots, rfl⟩, rfl⟩

/-- Bytes hold tables when they are framed, and then just those found where they lie. -/
theorem stores_iff {tables : Tables} :
    Stores bytes tables ↔ Framed bytes ∧ tables = tablesAt bytes := by
  -- Where the directory lies is told by the header, and where the tables lie by the directory.
  simp only [Stores, Header.read_eq_ok_iff, Directory.read_eq_ok_iff, Tables.read_eq_ok_iff]
  constructor
  · intro stores
    obtain ⟨_, _, ⟨⟨enough, begins, size, spare⟩, rfl⟩, digest, ⟨upto, rfl⟩, within, rfl⟩ := stores
    exact ⟨⟨enough, begins, size, spare, digest, upto, within⟩, rfl⟩
  · intro framed
    obtain ⟨framed, rfl⟩ := framed
    exact ⟨_, _, ⟨⟨framed.header_le, framed.magic_eq, framed.fileSize_eq, framed.spare_eq⟩, rfl⟩,
      framed.digest_eq, ⟨framed.directory_le, rfl⟩, framed.tables, rfl⟩

end Reading

end HeapAtlas.Snapshot
