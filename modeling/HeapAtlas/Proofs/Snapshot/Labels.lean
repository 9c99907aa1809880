import HeapAtlas.Proofs.Snapshot.RoundTrip

/-! What becomes of the labels of references when a snapshot is read. -/

namespace HeapAtlas.Snapshot

/-- A reference keeps the kind of its label: a name that exists, or a position of an array. -/
def StoredEdge.KeepsLabel (row : StoredEdge) (graph : HeapGraph) (edge : Nat) : Prop :=
  (row.labelKind = 0 → row.label.toNat < graph.names.size ∧
    graph.label edge = .field (graph.names.get row.label.toNat)) ∧
  (row.labelKind = 1 → graph.label edge = .element row.label.toNat)

variable {bytes : Bytes} {tables : Tables} {graph : HeapGraph} {edge : Nat} {row : StoredEdge}

/-- Every reference of an accepted snapshot has the label that its row was read as. -/
theorem exists_toLabel (accepted : decode bytes = .ok graph) (stores : Stores bytes tables)
    (held : tables.edges[edge]? = some row) :
    ∃ label, row.toLabel edge = .ok label ∧
      (∀ name, label = .name name →
        name < graph.names.size ∧ graph.label edge = .field (graph.names.get name)) ∧
      (∀ position, label = .element position → graph.label edge = .element position) := by
  obtain ⟨others, columns, storesOthers, spell, faultless, rfl⟩ := decode_eq_ok_iff.mp accepted
  cases storesOthers.unique stores
  -- The row was checked where it stands, and the check reads its label.
  obtain ⟨_, found⟩ := checkRows_getElem? spell.edges
  obtain ⟨record, at_, good⟩ := found edge row held
  rw [Nat.zero_add] at good
  unfold StoredEdge.toRow at good
  split at good
  · cases good
  · obtain ⟨label, read, rfl⟩ := map_eq_ok_iff.mp good
    -- The record in the same place has this label, and it is kept when targets are resolved.
    have stands : columns.edges.items[edge]? = some ⟨⟨row.target⟩, label, row.typeTag⟩ := by
      simpa using at_
    have member := Array.mem_of_getElem? stands
    refine ⟨label, read, fun name equal => ⟨faultless.labelName_lt _ member name equal, ?_⟩, ?_⟩
    · unfold HeapGraph.label
      rw [Columns.edgeAt_resolved stands, equal]
    · intro position equal
      unfold HeapGraph.label
      rw [Columns.edgeAt_resolved stands, equal]

/--
A reference of an accepted snapshot keeps its label unless a name is given with the top bit set.

Such a number is never held against the names: the reference has the position of an array that the
other bits write.
-/
theorem keepsLabel_iff (accepted : decode bytes = .ok graph) (stores : Stores bytes tables)
    (held : tables.edges[edge]? = some row) :
    (row.KeepsLabel graph edge ↔ (row.labelKind = 0 → row.label.toNat < labelLimit)) ∧
      (row.labelKind = 0 ∨ row.labelKind = 1) ∧
      (row.labelKind = 0 → labelLimit ≤ row.label.toNat →
        graph.label edge = .element (row.label.toNat - labelLimit)) := by
  obtain ⟨label, read, named, placed⟩ := exists_toLabel accepted stores held
  unfold StoredEdge.toLabel at read
  by_cases field : row.labelKind = 0
  · rw [if_pos field, labelOfWord] at read
    have other : row.labelKind ≠ 1 := by rw [field]; decide
    by_cases small : row.label.toNat < labelLimit
    · -- Below the top bit the number was held against the names.
      rw [if_pos small] at read
      obtain ⟨within, kept⟩ := named _ (Except.ok.inj read).symm
      refine ⟨⟨fun _ _ => small, fun _ => ⟨fun _ => ⟨within, kept⟩, fun index => ?_⟩⟩, .inl field,
        fun _ large => ?_⟩
      · exact absurd index other
      · omega
    · -- With the top bit set the word was taken for a position, which is no name.
      rw [if_neg small] at read
      have lost := placed _ (Except.ok.inj read).symm
      refine ⟨⟨fun keeps => ?_, fun below => absurd (below field) small⟩, .inl field,
        fun _ _ => lost⟩
      have kept := (keeps.1 field).2
      rw [lost] at kept
      cases kept
  · rw [if_neg field] at read
    split at read
    · -- A position was held against the limit, and is kept as it is.
      rename_i index
      have kept := placed _ (Except.ok.inj read).symm
      exact ⟨⟨fun _ name => absurd name field, fun _ => ⟨fun name => absurd name field,
        fun _ => kept⟩⟩, .inr index.1, fun name => absurd name field⟩
    · cases read

/-- The ring with a name for its first label, whose number has the top bit set. -/
def forgedTables : Tables :=
  { tablesOf Columns.ring.resolved with
    edges := (tablesOf Columns.ring.resolved).edges.set 0 ⟨2, 2147483653, 0, 0, 0⟩ }

/-- The columns that are read of the forged ring: the name has become a position. -/
def forgedColumns : Columns :=
  { Columns.ring with
    edges := ⟨Columns.ring.edges.offsets, Columns.ring.edges.items.set 0 ⟨⟨2⟩, .element 5, 0⟩⟩ }

/-- The forged ring is stored by its snapshot. -/
theorem stores_forged : Stores forgedTables.put forgedTables := by
  have ring := fit_tablesOf Columns.ring.resolved
  have fit : forgedTables.Fit := by
    refine { ring with edges := fun row member => ?_ }
    rcases List.mem_or_eq_of_mem_set member with held | rfl
    · exact ring.edges row held
    · show 0 < 256 ^ _
      decide
  -- Its length does not depend on the digest.
  have body : forgedTables.body.length = 528 := by decide +kernel
  apply stores_put fit
  rw [Tables.length_put, body]
  decide

/-- The first row of the forged ring's references is the forged one. -/
theorem edges_forged : forgedTables.edges[0]? = some ⟨2, 2147483653, 0, 0, 0⟩ := by
  decide +kernel

/-- The forged ring is accepted, whatever the digest of its bytes is. -/
theorem decode_forged : decode forgedTables.put = .ok forgedColumns.resolved := by
  have columns : forgedTables.columns = .ok forgedColumns := by with_unfolding_all rfl
  have spell : forgedTables.Spell forgedColumns := Tables.columns_eq_ok_iff.mp columns
  have faultless : forgedColumns.Faultless :=
    Columns.fault?_eq_none_iff.mp (by decide +kernel)
  exact decode_eq_ok_iff.mpr ⟨_, _, stores_forged, spell, faultless, rfl⟩

/-- The forged ring is accepted although its first label is the number of no name. -/
theorem forged_not_keepsLabel : decode forgedTables.put = .ok forgedColumns.resolved ∧
    Stores forgedTables.put forgedTables ∧
    forgedTables.edges[0]? = some ⟨2, 2147483653, 0, 0, 0⟩ ∧
    ¬ StoredEdge.KeepsLabel ⟨2, 2147483653, 0, 0, 0⟩ forgedColumns.resolved 0 := by
  refine ⟨decode_forged, stores_forged, edges_forged, fun keeps => ?_⟩
  -- The number would have to be that of the only name.
  have within : 2147483653 < 1 := (keeps.1 rfl).1
  omega

/-- The forged label has become the position that its other bits write; the others are kept. -/
theorem forged_keepsLabel_iff : decode forgedTables.put = .ok forgedColumns.resolved ∧
    Stores forgedTables.put forgedTables ∧
    forgedTables.edges[0]? = some ⟨2, 2147483653, 0, 0, 0⟩ ∧
    forgedColumns.resolved.label 0 = .element 5 ∧
    forgedTables.edges[3]? = some ⟨9, 1, 0, 1, 0⟩ ∧
    StoredEdge.KeepsLabel ⟨9, 1, 0, 1, 0⟩ forgedColumns.resolved 3 := by
  have other : forgedTables.edges[3]? = some ⟨9, 1, 0, 1, 0⟩ := by decide +kernel
  refine ⟨decode_forged, stores_forged, edges_forged, ?_, other, ?_⟩
  · exact (keepsLabel_iff decode_forged stores_forged edges_forged).2.2 rfl (by decide)
  · exact (keepsLabel_iff decode_forged stores_forged other).1.mpr (fun name => by cases name)

end HeapAtlas.Snapshot
