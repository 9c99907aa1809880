import HeapAtlas.Proofs.Graph.Made
import HeapAtlas.Proofs.Snapshot.Spelling
import HeapAtlas.Proofs.Snapshot.Tables

/-! A heap is read back from its snapshot, column by column and bit by bit. -/

namespace HeapAtlas.Snapshot

/-- The rows written of a heap leave their spare bytes zero. -/
theorem fit_tablesOf (graph : HeapGraph) : (tablesOf graph).Fit := by
  -- Where a row has spare bytes, they are written as zero.
  refine ⟨?_, ?_, ?_, ?_, ?_⟩
  all_goals
    intro row member
    obtain ⟨item, _, rfl⟩ := List.mem_map.mp member
    show 0 < 256 ^ _
    decide

/-- No table of a snapshot is longer than the snapshot. -/
theorem Tables.length_block_le (tables : Tables) :
    ∀ block ∈ tables.blocks, block.2.length ≤ tables.put.length := by
  intro block member
  -- The blocks stand end to end at the end of the snapshot.
  have within : block.2.length ≤ (tables.blocks.flatMap (·.2)).length := by
    obtain ⟨front, rest, split⟩ := List.append_of_mem member
    rw [split, List.flatMap_append, List.flatMap_cons, List.length_append, List.length_append]
    omega
  unfold Tables.put Tables.body
  simp only [List.length_append]
  omega

/-- The rows of a table can be counted in words when the bytes of the snapshot can. -/
theorem Tables.length_rows_lt {α : Type} [Row α] [LawfulRow α] {tables : Tables} {rows : List α}
    (member : (rows.length, putRows rows) ∈ tables.blocks) (small : tables.put.length < 2 ^ 64) :
    rows.length < 2 ^ 64 := by
  -- Every row takes at least a byte of the block that it stands in.
  have block : (putRows rows).length ≤ tables.put.length := tables.length_block_le _ member
  have width : 0 < Row.width α := LawfulRow.width_pos
  rw [length_putRows] at block
  have fewer : rows.length ≤ tables.put.length :=
    Nat.le_trans (Nat.le_mul_of_pos_right _ width) block
  exact Nat.lt_of_le_of_lt fewer small

/-- A snapshot whose length is a word gives back the heap of aligned and faultless columns. -/
theorem decode_encode_resolved {columns : Columns} (aligned : columns.Aligned)
    (faultless : columns.Faultless) (small : (encode columns.resolved).length < 2 ^ 64) :
    decode (encode columns.resolved) = .ok columns.resolved := by
  -- Each column that is counted in words has no more items than the snapshot has bytes.
  have nameBytes : (tablesOf columns.resolved).nameBytes.length < 2 ^ 64 := by
    have block := (tablesOf columns.resolved).length_block_le (_, padded _)
      (List.mem_cons_of_mem _ List.mem_cons_self)
    exact Nat.lt_of_le_of_lt (Nat.le_trans (length_le_padded _) block) small
  have fields : columns.classFields.items.size < 2 ^ 64 := by
    rw [← length_classFields]
    exact Tables.length_rows_lt (by simp [Tables.blocks]) small
  have edges : columns.edges.items.size < 2 ^ 64 := by
    rw [← length_edges]
    exact Tables.length_rows_lt (by simp [Tables.blocks]) small
  have primitives : columns.primitives.items.size < 2 ^ 64 := by
    rw [← length_primitives]
    exact Tables.length_rows_lt (by simp [Tables.blocks]) small
  -- With all counts words, the tables spell out the columns that the heap was made from.
  have spell := spell_tablesOf aligned faultless nameBytes fields edges primitives
  exact decode_eq_ok_iff.mpr
    ⟨_, columns, stores_put (fit_tablesOf _) small, spell, faultless, rfl⟩

/-- A heap is what its snapshot is read as, however the heap came about. -/
theorem decode_of_made {graph : HeapGraph} (made : graph.Made)
    (small : (encode graph).length < 2 ^ 64) : decode (encode graph) = .ok graph := by
  obtain ⟨columns, aligned, faultless, rfl⟩ := made.exists_columns
  exact decode_encode_resolved aligned faultless small

/--
Every heap is read back from its snapshot as it was.

The snapshot's length has to be a word, as that of everything held in memory is. So a heap that was
read is written as the same bytes again, and different heaps never share a snapshot.
-/
theorem decode_encode {graph : HeapGraph} (made : graph.Made)
    (small : (encode graph).length < 2 ^ 64) :
    decode (encode graph) = .ok graph ∧
      (∀ read, decode (encode graph) = .ok read → encode read = encode graph) ∧
      ∀ other : HeapGraph, other.Made → encode other = encode graph → other = graph := by
  have back := decode_of_made made small
  refine ⟨back, fun read equal => ?_, fun other madeOther same => ?_⟩
  · have same : graph = read := Except.ok.inj (back.symm.trans equal)
    rw [same]
  · -- Two heaps with one snapshot are both what that snapshot is read as.
    have first : decode (encode other) = .ok other :=
      decode_of_made madeOther (by rw [same]; exact small)
    rw [same] at first
    exact Except.ok.inj (first.symm.trans back)

/-- The ring is short enough to be read back. -/
theorem length_encode_ring : (encode Columns.ring.resolved).length < 2 ^ 64 := by
  have body : (tablesOf Columns.ring.resolved).body.length = 528 := by decide +kernel
  rw [encode, Tables.length_put, body]
  decide

/-- The ring is read back from its snapshot, and no other heap has the same one. -/
theorem ring_decode_encode : Columns.ring.resolved.Made ∧
    decode (encode Columns.ring.resolved) = .ok Columns.ring.resolved ∧
    (∀ read, decode (encode Columns.ring.resolved) = .ok read →
      encode read = encode Columns.ring.resolved) ∧
    ∀ other : HeapGraph, other.Made → encode other = encode Columns.ring.resolved →
      other = Columns.ring.resolved :=
  ⟨HeapGraph.made_ring, decode_encode HeapGraph.made_ring length_encode_ring⟩

end HeapAtlas.Snapshot
