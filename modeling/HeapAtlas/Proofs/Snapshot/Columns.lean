import HeapAtlas.Proofs.Graph.Aligned
import HeapAtlas.Proofs.Graph.Faultless
import HeapAtlas.Snapshot.Decode

/-! What is checked of the tables of a snapshot before their records are resolved. -/

namespace HeapAtlas.Snapshot

/-- Every row that was checked is found in its place among the results. -/
theorem checkRows_getElem? {α β : Type} {check : α → Nat → Except DecodeError β} {first : Nat}
    {rows : List α} {results : List β} (checked : checkRows check first rows = .ok results) :
    results.length = rows.length ∧
      ∀ index row, rows[index]? = some row →
        ∃ result, results[index]? = some result ∧ check row (first + index) = .ok result := by
  -- The induction goes through the rows while their index grows.
  induction rows generalizing first results with
  | nil =>
    cases checked
    exact ⟨rfl, fun index row held => by cases held⟩
  | cons row rest ih =>
    simp only [checkRows, bind_eq_ok_iff, pure, Except.pure, Except.ok.injEq] at checked
    -- The first row is good, and so are all that follow it.
    obtain ⟨result, good, others, checkedRest, rfl⟩ := checked
    obtain ⟨sameLength, found⟩ := ih checkedRest
    refine ⟨by simp [sameLength], fun index row' held => ?_⟩
    cases index with
    | zero =>
      cases held
      exact ⟨result, rfl, good⟩
    | succ index =>
      obtain ⟨result', at_, good'⟩ := found index row' (by simpa using held)
      exact ⟨result', by simpa using at_, by rwa [Nat.add_right_comm, Nat.add_assoc] at good'⟩

/-- A span that ends somewhere ends as far behind its start as it is long. -/
theorem Span.toNat_stop {span : Span} {stop : UInt64} (stops : span.stop? = some stop) :
    stop.toNat = span.start.toNat + span.count.toNat := by
  unfold Span.stop? at stops
  split at stops
  · -- The sum is a word, so that nothing is lost when it is made one.
    rename_i small
    cases stops
    exact (UInt64.toNat_add _ _).trans (Nat.mod_eq_of_lt small)
  · cases stops

/-- Spans that tile end one after another, the last with the data. -/
theorem tileFrom_ascends {table data : Part} {length index cursor : Nat} {spans : List Span}
    {offsets : List Nat} (tiled : tileFrom table data length index cursor spans = .ok offsets) :
    offsets.length = spans.length ∧ (cursor :: offsets).Pairwise (· ≤ ·) ∧
      (cursor :: offsets).getLast? = some length := by
  -- Each span ends no earlier than it begins, and begins where the one before it ended.
  induction spans generalizing index cursor offsets with
  | nil =>
    rw [tileFrom] at tiled
    split at tiled
    · cases tiled
      rename_i ends
      exact ⟨rfl, List.pairwise_singleton _ _, by rw [ends]; rfl⟩
    · cases tiled
  | cons span rest ih =>
    rw [tileFrom] at tiled
    split at tiled
    · rename_i stop stops
      split at tiled
      · rename_i fits
        obtain ⟨others, tiledRest, rfl⟩ := map_eq_ok_iff.mp tiled
        obtain ⟨sameLength, ascends, last⟩ := ih tiledRest
        -- The offset where the span ends is not before the cursor, where it begins.
        have forward : cursor ≤ stop.toNat := by
          rw [Span.toNat_stop stops]
          omega
        refine ⟨by simp [sameLength], List.pairwise_cons.mpr ⟨fun offset member => ?_, ascends⟩, ?_⟩
        · rcases List.mem_cons.mp member with rfl | later
          · exact forward
          · exact Nat.le_trans forward ((List.pairwise_cons.mp ascends).1 offset later)
        · rw [List.getLast?_cons_cons]
          exact last
      · cases tiled
    · cases tiled

/-- The offsets of tiling spans make tiled groups of the data. -/
theorem tiled_of_tile {α : Type} {table data : Part} {spans : List Span} {items : Array α}
    {offsets : List Nat} (tiled : tile table data items.size spans = .ok offsets) :
    (Ragged.mk offsets.toArray items).Tiled spans.length := by
  -- In front of the ends stands zero, where the first span begins.
  obtain ⟨others, tiledFrom, rfl⟩ := map_eq_ok_iff.mp tiled
  obtain ⟨sameLength, ascends, last⟩ := tileFrom_ascends tiledFrom
  refine ⟨by simp [sameLength], rfl, fun i j order within => ?_, ?_⟩
  · have inside : j < (0 :: others).length := by simp [sameLength]; omega
    have below : i < (0 :: others).length := by omega
    simp only [Array.getD_eq_getD_getElem?, List.getElem?_toArray, List.getElem?_eq_getElem inside,
      List.getElem?_eq_getElem below, Option.getD_some]
    -- Different offsets stand in the order of the ends, which ascend.
    rcases Nat.lt_or_eq_of_le order with less | rfl
    · exact List.pairwise_iff_getElem.mp ascends i j below inside less
    · exact Nat.le_refl _
  · -- The last end is the length of the data, and stands behind all the others.
    rw [List.getLast?_eq_getElem?] at last
    simpa [sameLength] using last

/-- Columns that are spelled out by tables, which pass all checks made row by row. -/
structure Tables.Spell (tables : Tables) (columns : Columns) : Prop where
  nameSpans : ∃ offsets,
    tile .nameSpans .nameBytes tables.nameBytes.length tables.nameSpans = .ok offsets
  names : textsFrom 0 tables.nameSpans tables.nameBytes = .ok columns.names.names.toList
  classes : checkRows StoredClass.toRow 0 tables.classes = .ok columns.classes.toList
  fieldOffsets : tile .classes .classFields tables.classFields.length
    (tables.classes.map (·.fields)) = .ok columns.classFields.offsets.toList
  fields : checkRows StoredField.toName 0 tables.classFields = .ok columns.classFields.items.toList
  objects : columns.objects.toList = tables.objects.map (·.toRow)
  edgeOffsets : tile .objects .edges tables.edges.length (tables.objects.map (·.edges))
    = .ok columns.edges.offsets.toList
  primitiveOffsets : tile .objects .primitives tables.primitives.length
    (tables.objects.map (·.primitives)) = .ok columns.primitives.offsets.toList
  edges : checkRows StoredEdge.toRow 0 tables.edges = .ok columns.edges.items.toList
  primitives : checkRows StoredPrimitive.toRow 0 tables.primitives
    = .ok columns.primitives.items.toList
  roots : checkRows StoredRoot.toRoot 0 tables.roots = .ok columns.roots.toList

/-- Reading columns from tables succeeds exactly with those that the tables spell out. -/
theorem Tables.columns_eq_ok_iff {tables : Tables} {columns : Columns} :
    tables.columns = .ok columns ↔ tables.Spell columns := by
  -- Each step of reading gives one of the columns.
  simp only [Tables.columns, NameTable.ofNames_eq, bind_eq_ok_iff, pure, Except.pure,
    Except.ok.injEq]
  constructor
  · intro read
    obtain ⟨spans, tiled, names, texts, classes, classRows, fieldOffsets, tiledFields, fields,
      fieldRows, edgeOffsets, tiledEdges, primitiveOffsets, tiledPrimitives, edges, edgeRows,
      primitives, primitiveRows, roots, rootRows, rfl⟩ := read
    exact ⟨⟨spans, tiled⟩, texts, classRows, tiledFields, fieldRows, by simp, tiledEdges,
      tiledPrimitives, edgeRows, primitiveRows, rootRows⟩
  · intro spell
    obtain ⟨spans, tiled⟩ := spell.nameSpans
    refine ⟨spans, tiled, _, spell.names, _, spell.classes, _, spell.fieldOffsets, _, spell.fields,
      _, spell.edgeOffsets, _, spell.primitiveOffsets, _, spell.edges, _, spell.primitives, _,
      spell.roots, ?_⟩
    rw [← spell.objects]

/-- A label held in one word fits beside the names. -/
theorem labelOfWord_fits (word : UInt32) : (labelOfWord word).Fits := by
  intro position equal
  rw [labelOfWord] at equal
  split at equal
  · cases equal
  · -- Without its top bit a word is below the limit.
    have here := LabelRef.element.inj equal
    have bound : word.toNat < 2 ^ 32 := word.toNat_lt
    have limit : labelLimit + labelLimit = 2 ^ 32 := by decide
    omega

/-- Labels that are read back always fit beside the names. -/
theorem StoredEdge.toLabel_fits {row : StoredEdge} {index : Nat} {label : LabelRef}
    (read : row.toLabel index = .ok label) : label.Fits := by
  rw [StoredEdge.toLabel] at read
  -- The kind decides between the word as it stands and a position held against the limit.
  split at read
  · exact Except.ok.inj read ▸ labelOfWord_fits row.label
  · split at read
    · rename_i small
      intro position equal
      have here := LabelRef.element.inj ((Except.ok.inj read).trans equal)
      exact here ▸ small.2
    · cases read

/-- Columns that tables spell out are aligned. -/
theorem Tables.Spell.aligned {tables : Tables} {columns : Columns} (spell : tables.Spell columns) :
    columns.Aligned := by
  -- A table has as many rows as there are results of the check of its rows.
  have lengthOf {α β : Type} {check : α → Nat → Except DecodeError β} {rows : List α}
      {results : Array β} (checked : checkRows check 0 rows = .ok results.toList) :
      rows.length = results.size := by
    rw [← Array.length_toList, (checkRows_getElem? checked).1]
  have objects : tables.objects.length = columns.objects.size := by
    rw [← Array.length_toList, spell.objects, List.length_map]
  refine ⟨?_, ?_, ?_, ?_⟩
  · have tiled := spell.fieldOffsets
    rw [lengthOf spell.fields] at tiled
    simpa [lengthOf spell.classes] using tiled_of_tile tiled
  · have tiled := spell.edgeOffsets
    rw [lengthOf spell.edges] at tiled
    simpa [objects] using tiled_of_tile tiled
  · have tiled := spell.primitiveOffsets
    rw [lengthOf spell.primitives] at tiled
    simpa [objects] using tiled_of_tile tiled
  · intro row member
    -- Every reference was read from a row in the same place, with a label that fits.
    obtain ⟨index, held⟩ := List.mem_iff_getElem?.mp (Array.mem_toList_iff.mpr member)
    obtain ⟨sameLength, found⟩ := checkRows_getElem? spell.edges
    have inside : index < tables.edges.length := by
      rw [← sameLength]
      exact (List.getElem?_eq_some_iff.mp held).1
    obtain ⟨result, at_, good⟩ := found index _ (List.getElem?_eq_getElem inside)
    rw [held] at at_
    cases at_
    rw [StoredEdge.toRow] at good
    split at good
    · cases good
    · obtain ⟨label, read, rfl⟩ := map_eq_ok_iff.mp good
      exact StoredEdge.toLabel_fits read

/-- The tables that bytes hold behind a header that speaks of just these bytes. -/
def Stores (bytes : Bytes) (tables : Tables) : Prop :=
  ∃ header directory, Header.read bytes = .ok header ∧
    Blake3.digest (bytes.drop headerSize) = header.digest ∧
    Directory.read bytes header = .ok directory ∧ Tables.read bytes directory = .ok tables

/-- Bytes hold no more than one lot of tables. -/
theorem Stores.unique {bytes : Bytes} {first second : Tables} (held : Stores bytes first)
    (again : Stores bytes second) : first = second := by
  obtain ⟨header, directory, readHeader, _, readDirectory, readTables⟩ := held
  obtain ⟨header', directory', readHeader', _, readDirectory', readTables'⟩ := again
  -- Each step of reading has one result.
  have sameHeader : header = header' := Except.ok.inj (readHeader.symm.trans readHeader')
  subst sameHeader
  have sameDirectory : directory = directory' :=
    Except.ok.inj (readDirectory.symm.trans readDirectory')
  subst sameDirectory
  exact Except.ok.inj (readTables.symm.trans readTables')

/-- A snapshot is accepted when its tables spell out faultless records, which make the heap. -/
theorem decode_eq_ok_iff {bytes : Bytes} {graph : HeapGraph} :
    decode bytes = .ok graph ↔
      ∃ tables columns, Stores bytes tables ∧ tables.Spell columns ∧ columns.Faultless ∧
        graph = columns.resolved := by
  -- The steps of reading succeed one after another, and the last one looks for a fault.
  rw [decode, bind_eq_ok_iff]
  constructor
  · intro accepted
    obtain ⟨header, readHeader, continued⟩ := accepted
    -- The digest is compared before the tables are looked at.
    split at continued
    · simp [throw, throwThe, MonadExceptOf.throw, bind, Except.bind] at continued
    · rename_i same
      simp only [bind_eq_ok_iff, Tables.columns_eq_ok_iff] at continued
      obtain ⟨directory, readDirectory, tables, readTables, columns, spell, resolved⟩ := continued
      have stores : Stores bytes tables :=
        ⟨header, directory, readHeader, not_not.mp same, readDirectory, readTables⟩
      split at resolved
      · rename_i found made
        cases resolved
        obtain ⟨faultless, equal⟩ := Columns.ofColumns_eq_ok_iff.mp made
        exact ⟨tables, columns, stores, spell, faultless, equal⟩
      · cases resolved
  · intro accepted
    -- Every step succeeds with what the tables are said to hold.
    obtain ⟨tables, columns, stores, spell, faultless, equal⟩ := accepted
    obtain ⟨header, directory, readHeader, same, readDirectory, readTables⟩ := stores
    refine ⟨header, readHeader, ?_⟩
    rw [if_neg (not_not.mpr same)]
    simp only [bind_eq_ok_iff, Tables.columns_eq_ok_iff]
    refine ⟨directory, readDirectory, tables, readTables, columns, spell, ?_⟩
    rw [Columns.ofColumns_eq_ok_iff.mpr ⟨faultless, equal⟩]
    rfl

end HeapAtlas.Snapshot
