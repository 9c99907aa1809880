import HeapAtlas.Proofs.NameBuffer
import HeapAtlas.Proofs.Snapshot.Grammar

/-! The counts in the header of a snapshot are those of the heap that is read from it. -/

namespace HeapAtlas

namespace Snapshot

/-- The numbers of rows that a directory tells. -/
def Directory.counts (directory : Directory) : Counts :=
  ⟨directory.classes.count.toNat, directory.objects.count.toNat, directory.edges.count.toNat,
    directory.primitives.count.toNat, directory.roots.count.toNat,
    directory.nameBytes.count.toNat⟩

section Peeking

variable {bytes : Bytes}

/-- Rows are counted when they lie within the bytes, wherever they begin. -/
theorem peekRows_eq_ok_iff {part : Part} {width count : Nat} {place : Section} :
    peekRows bytes part width place = .ok count ↔
      place.offset.toNat + place.count.toNat * width ≤ bytes.length ∧
        count = place.count.toNat := by
  simp only [peekRows, bind_eq_ok_iff, readBytes_eq_ok_iff, pure, Except.pure, Except.ok.injEq]
  -- The rows are read for their number only, so all that counts is that they are there.
  constructor
  · intro read
    obtain ⟨_, ⟨upto, _⟩, rfl⟩ := read
    exact ⟨upto, rfl⟩
  · intro within
    obtain ⟨upto, rfl⟩ := within
    exact ⟨_, ⟨upto, rfl⟩, rfl⟩

/-- Of bytes that are framed, the counts are told by the directory. -/
theorem peek_of_framed (framed : Framed bytes) : peek bytes = .ok (directoryAt bytes).counts := by
  -- No table is looked for that decoding would not have to find as well.
  have within := framed.tables
  simp only [peek, bind_eq_ok_iff, Header.read_eq_ok_iff, Directory.read_eq_ok_iff,
    peekRows_eq_ok_iff, pure, Except.pure, Except.ok.injEq]
  refine ⟨_, ⟨⟨framed.header_le, framed.magic_eq, framed.fileSize_eq, framed.spare_eq⟩, rfl⟩,
    _, ⟨framed.directory_le, rfl⟩, ?_⟩
  exact ⟨_, ⟨within.nameSpans.end_le, rfl⟩, _, ⟨within.classFields.end_le, rfl⟩,
    _, ⟨within.classes.end_le, rfl⟩, _, ⟨within.objects.end_le, rfl⟩,
    _, ⟨within.edges.end_le, rfl⟩, _, ⟨within.primitives.end_le, rfl⟩,
    _, ⟨within.roots.end_le, rfl⟩, _, ⟨by rw [Nat.mul_one]; exact within.nameBytes, rfl⟩, rfl⟩

/-- A table has as many rows as its place tells. -/
theorem length_rowsAt (α : Type) [Row α] (bytes : Bytes) (place : Section) :
    (rowsAt α bytes place).length = place.count.toNat := by
  rw [rowsAt, List.length_map, List.length_range]

/-- Names that are read one behind another take the bytes that their spans count. -/
theorem sum_sizes_textsFrom {index : Nat} {spans : List Span} {texts : List String}
    (read : textsFrom index spans bytes = .ok texts)
    (within : (spans.map (·.count.toNat)).sum ≤ bytes.length) :
    (texts.map (·.utf8ByteSize)).sum = (spans.map (·.count.toNat)).sum := by
  induction spans generalizing index bytes texts with
  | nil =>
    cases read
    rfl
  | cons span rest ih =>
    rw [List.map_cons, List.sum_cons] at within ⊢
    rw [textsFrom] at read
    split at read
    · rename_i text first
      obtain ⟨others, readRest, rfl⟩ := map_eq_ok_iff.mp read
      -- A name was read from as many bytes as its span tells.
      have size : text.utf8ByteSize = span.count.toNat := by
        rw [← Bytes.length_ofText, Bytes.text?_eq_some_iff.mp first, List.length_take]
        omega
      rw [List.map_cons, List.sum_cons, size, ih readRest (by rw [List.length_drop]; omega)]
    · cases read

/-- Records that tables spell out are as many as there are rows. -/
theorem Tables.Spell.counts_resolved {tables : Tables} {columns : Columns}
    (counted : tables.Counted) (spell : tables.Spell columns) :
    columns.resolved.counts = ⟨tables.classes.length, tables.objects.length, tables.edges.length,
      tables.primitives.length, tables.roots.length, tables.nameBytes.length⟩ := by
  have size {α β : Type} {items : Array β} {rows : List α} {f : α → β}
      (made : items.toList = rows.map f) : items.size = rows.length := by
    rw [← Array.length_toList, made, List.length_map]
  have edges := size ((checkRows_eq_ok_iff StoredEdge.toRow_eq_ok_iff).mp spell.edges).2
  have primitives :=
    size ((checkRows_eq_ok_iff StoredPrimitive.toRow_eq_ok_iff).mp spell.primitives).2
  have roots := size ((checkRows_eq_ok_iff StoredRoot.toRoot_eq_ok_iff).mp spell.roots).2
  -- The spans of the names tile the bytes, so that no byte is left out or counted twice.
  have tiles := (exists_tile_iff counted.nameBytes_lt).mp spell.nameSpans
  have names : columns.names.byteCount = tables.nameBytes.length := by
    rw [NameTable.byteCount_eq_sum, sum_sizes_textsFrom spell.names (Nat.le_of_eq tiles.total_eq),
      tiles.total_eq]
  rw [HeapGraph.counts, Counts.mk.injEq]
  refine ⟨?_, ?_, ?_, primitives, ?_, names⟩
  · exact (Array.size_map ..).trans (size spell.toList_classes)
  · exact (Array.size_map ..).trans (size spell.objects)
  · exact (Array.size_map ..).trans edges
  · exact (Array.size_map ..).trans roots

/-- Of bytes that are a snapshot, the counts in the header are those of its heap. -/
theorem peek_of_decode {graph : HeapGraph} (accepted : decode bytes = .ok graph) :
    peek bytes = .ok graph.counts := by
  obtain ⟨tables, columns, stores, spell, _, rfl⟩ := decode_eq_ok_iff.mp accepted
  obtain ⟨framed, rfl⟩ := stores_iff.mp stores
  rw [peek_of_framed framed, spell.counts_resolved (counted_tablesAt bytes)]
  -- The bytes of the names are as many as the directory says, as they lie within the file.
  have names : (tablesAt bytes).nameBytes.length = (directoryAt bytes).nameBytes.count.toNat := by
    have within := framed.tables.nameBytes
    show (Bytes.slice bytes _ _).length = _
    rw [Bytes.slice, List.length_take, List.length_drop]
    omega
  rw [names, Directory.counts]
  simp only [tablesAt, Directory.tables, length_rowsAt]

end Peeking

end Snapshot

end HeapAtlas
