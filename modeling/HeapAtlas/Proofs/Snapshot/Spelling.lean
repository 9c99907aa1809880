import HeapAtlas.Proofs.Graph.Resolved
import HeapAtlas.Proofs.Snapshot.Columns
import HeapAtlas.Proofs.Snapshot.Rows
import HeapAtlas.Snapshot.Encode

/-! The tables that are written of a heap spell out the records that it was made from. -/

namespace HeapAtlas

/-- Reading an array index by index gives its items. -/
theorem map_range_eq_toList {α : Type} {items : Array α} {item : Nat → α}
    (same : ∀ (index : Nat) (held : α), items[index]? = some held → item index = held) :
    (List.range items.size).map item = items.toList := by
  apply List.ext_getElem?
  intro index
  have held : items.toList[index]? = items[index]? := Array.getElem?_toList
  rw [held, List.getElem?_map]
  -- Within the array both give its item, and past its end neither gives one.
  by_cases within : index < items.size
  · have found := Array.getElem?_eq_getElem within
    rw [List.getElem?_range within, found, Option.map_some, same index _ found]
  · have past : (List.range items.size)[index]? = none :=
      List.getElem?_eq_none (by simpa using within)
    rw [past, Array.getElem?_eq_none (Nat.le_of_not_lt within)]
    rfl

namespace Snapshot

/-- Rows that are each good for a result, wherever they stand, are good for all results. -/
theorem checkRows_map {ι α β : Type} {check : α → Nat → Except DecodeError β} {make : ι → α}
    {result : ι → β} {items : List ι} {first : Nat}
    (good : ∀ item ∈ items, ∀ index, check (make item) index = .ok (result item)) :
    checkRows check first (items.map make) = .ok (items.map result) := by
  induction items generalizing first with
  | nil => rfl
  | cons item rest ih =>
    -- A row is good wherever it stands, so the others are good one place further on.
    have others : checkRows check (first + 1) (rest.map make) = .ok (rest.map result) :=
      ih fun later member => good later (List.mem_cons_of_mem _ member)
    rw [List.map_cons, checkRows, good item List.mem_cons_self, others]
    rfl

/-- Rows that are each good for what they were made of are good for all of it. -/
theorem checkRows_items {α β : Type} {check : α → Nat → Except DecodeError β} {make : β → α}
    {items : List β} (good : ∀ item ∈ items, ∀ index, check (make item) index = .ok item) :
    checkRows check 0 (items.map make) = .ok items := by
  have back : checkRows check 0 (items.map make) = .ok (items.map id) := checkRows_map good
  rwa [List.map_id] at back

/-- Rows made index by index are good for the items of an array when each is for its item. -/
theorem checkRows_range {α β : Type} [Inhabited β] {check : α → Nat → Except DecodeError β}
    {make : Nat → α} {results : Array β}
    (good : ∀ (index : Nat) (result : β), results[index]? = some result →
      ∀ position, check (make index) position = .ok result) :
    checkRows check 0 ((List.range results.size).map make) = .ok results.toList := by
  -- Every index of the range has an item, so the default is never taken.
  have items : (List.range results.size).map (fun index => results.getD index default)
      = results.toList := by
    apply map_range_eq_toList
    intro index held found
    rw [Array.getD_eq_getD_getElem?, found, Option.getD_some]
  rw [← items]
  apply checkRows_map
  intro index member position
  have within : index < results.size := List.mem_range.mp member
  rw [Array.getD_eq_getD_getElem?, Array.getElem?_eq_getElem within, Option.getD_some]
  exact good index _ (Array.getElem?_eq_getElem within) position

section Spans

variable {table data : Part}

/-- A span of words ends where its length says. -/
theorem Span.stop?_ofNat (start count : Nat) (small : start + count < 2 ^ 64) :
    (Span.ofNat start count).stop? = some (UInt64.ofNat (start + count)) ∧
      (Span.ofNat start count).start.toNat = start := by
  -- Start, count and their sum are words, so that nothing wraps around.
  have starts : (UInt64.ofNat start).toNat = start := toNat_ofNat64 (by omega)
  have counts : (UInt64.ofNat count).toNat = count := toNat_ofNat64 (by omega)
  have sum : UInt64.ofNat start + UInt64.ofNat count = UInt64.ofNat (start + count) :=
    (UInt64.ofNat_add start count).symm
  refine ⟨?_, starts⟩
  unfold Span.stop? Span.ofNat
  dsimp only
  rw [starts, counts, sum]
  exact if_pos small

/-- A span that begins at the cursor and ends within the data is passed. -/
theorem tileFrom_cons {length index start count : Nat} {rest : List Span} {offsets : List Nat}
    (small : length < 2 ^ 64) (within : start + count ≤ length)
    (tiled : tileFrom table data length (index + 1) (start + count) rest = .ok offsets) :
    tileFrom table data length index start (Span.ofNat start count :: rest)
      = .ok ((start + count) :: offsets) := by
  obtain ⟨stops, starts⟩ := Span.stop?_ofNat start count (by omega)
  -- The span begins at the cursor, and its end becomes the next one.
  have stop : (UInt64.ofNat (start + count)).toNat = start + count := toNat_ofNat64 (by omega)
  rw [tileFrom, stops]
  dsimp only
  rw [starts, stop, if_pos ⟨rfl, within⟩, tiled]
  rfl

/-- The spans of groups tile the items, and give the offsets of the groups. -/
theorem tile_ofGroup {α : Type} {ragged : Ragged α} {groups : Nat} (tiled : ragged.Tiled groups)
    (small : ragged.items.size < 2 ^ 64) :
    tile table data ragged.items.size ((List.range groups).map (Span.ofGroup ragged))
      = .ok ragged.offsets.toList := by
  -- The induction is on the groups that are left, each of which begins where the last one ended.
  have from_ : ∀ left index, index + left = groups →
      tileFrom table data ragged.items.size index (ragged.start index)
        ((List.range' index left).map (Span.ofGroup ragged))
        = .ok ((List.range' (index + 1) left).map ragged.start) := by
    intro left
    induction left with
    | zero =>
      intro index all
      -- Without a group left, the cursor stands behind the last item.
      have last : ragged.start index = ragged.items.size := by
        rw [show index = groups by omega, tiled.start_last]
      rw [List.range'_zero, List.map_nil, tileFrom, if_pos last]
      rfl
    | succ left ih =>
      intro index all
      -- The group that comes next begins at the cursor and ends where the following one begins.
      have forward : ragged.start index ≤ ragged.start (index + 1) :=
        tiled.start_mono (Nat.le_succ index) (by omega)
      have size : ragged.start index + ragged.groupSize index = ragged.start (index + 1) := by
        show _ + (ragged.start (index + 1) - _) = _
        omega
      have upto : ragged.start (index + 1) ≤ ragged.items.size := by
        rw [← tiled.start_last]
        exact tiled.start_mono (by omega) (Nat.le_refl _)
      have others := ih (index + 1) (by omega)
      rw [← size] at others upto
      rw [List.range'_succ, List.map_cons, Span.ofGroup, tileFrom_cons small upto others,
        List.range'_succ, List.map_cons, size]
  -- The starts of the groups are the offsets themselves.
  have starts : (List.range ragged.offsets.size).map ragged.start = ragged.offsets.toList := by
    apply map_range_eq_toList
    intro index held found
    rw [Ragged.start, Array.getD_eq_getD_getElem?, found, Option.getD_some]
  have whole := from_ groups 0 (Nat.zero_add _)
  rw [tiled.start_zero_eq, ← List.range_eq_range'] at whole
  -- Before the offsets where groups end stands the one where the first begins.
  rw [tile, whole, ← starts, tiled.size_offsets, List.range_eq_range', List.range'_succ,
    List.map_cons, tiled.start_zero_eq]
  rfl

/-- The spans of names that lie end to end tile the bytes of these. -/
theorem exists_tile_nameSpansFrom (names : List String)
    (small : (names.flatMap Bytes.ofText).length < 2 ^ 64) :
    ∃ offsets, tile table data (names.flatMap Bytes.ofText).length (nameSpansFrom 0 names)
      = .ok offsets := by
  -- The induction is on the names that are left, with what they add to the bytes before.
  have from_ : ∀ (rest : List String) (index start length : Nat), length < 2 ^ 64 →
      start + (rest.flatMap Bytes.ofText).length = length →
      ∃ offsets, tileFrom table data length index start (nameSpansFrom start rest)
        = .ok offsets := by
    intro rest
    induction rest with
    | nil =>
      intro index start length _ all
      exact ⟨[], by rw [nameSpansFrom, tileFrom, if_pos (by simpa using all)]⟩
    | cons name rest ih =>
      intro index start length small all
      rw [List.flatMap_cons, List.length_append, Bytes.length_ofText, ← Nat.add_assoc] at all
      -- A name is as long as its span says, so the others begin where it ends.
      obtain ⟨offsets, tiled⟩ := ih (index + 1) (start + name.utf8ByteSize) length small all
      exact ⟨_, tileFrom_cons small (by omega) tiled⟩
  obtain ⟨offsets, tiled⟩ := from_ names 0 0 _ small (Nat.zero_add _)
  exact ⟨0 :: offsets, by rw [tile, tiled]; rfl⟩

/-- Names are read back from their bytes by their spans. -/
theorem textsFrom_nameSpansFrom {names : List String} {index start : Nat}
    (small : (names.flatMap Bytes.ofText).length < 2 ^ 64) :
    textsFrom index (nameSpansFrom start names) (names.flatMap Bytes.ofText) = .ok names := by
  -- The induction is on the names, and each is taken from the front of the bytes.
  induction names generalizing index start with
  | nil => rfl
  | cons name rest ih =>
    rw [List.flatMap_cons, List.length_append] at small
    have count : (Span.ofNat start name.utf8ByteSize).count.toNat = (Bytes.ofText name).length := by
      rw [Bytes.length_ofText] at small ⊢
      exact toNat_ofNat64 (by omega)
    have others : textsFrom (index + 1) (nameSpansFrom (start + name.utf8ByteSize) rest)
        (rest.flatMap Bytes.ofText) = .ok rest := ih (by omega)
    -- The bytes of the name are its text, and the others stand behind them.
    rw [nameSpansFrom, textsFrom, List.flatMap_cons, count, List.take_left' rfl,
      List.drop_left' rfl, Bytes.text?_ofText]
    dsimp only
    rw [others]
    rfl

end Spans

/-- What is below the limit of labels fits into the four bytes that a row has for it. -/
theorem toNat_ofNat_of_lt_labelLimit {number : Nat} (small : number < labelLimit) :
    (UInt32.ofNat number).toNat = number :=
  toNat_ofNat32 (Nat.lt_of_lt_of_le small (by decide))

/-- A label is read back from its kind and its number when it can be held in 31 bits. -/
theorem toLabel_storedLabel {label : LabelRef} {row : StoredEdge} {index : Nat} (fits : label.Fits)
    (named : ∀ name, label = .name name → name < labelLimit)
    (stored : storedLabel label = (row.labelKind, row.label)) : row.toLabel index = .ok label := by
  unfold StoredEdge.toLabel
  cases label with
  | name name =>
    -- The index of a name keeps the top bit clear, so that it stays a name.
    have small := named name rfl
    have number : (UInt32.ofNat name).toNat = name := toNat_ofNat_of_lt_labelLimit small
    obtain ⟨kind, label⟩ := Prod.mk.inj stored
    rw [← kind, ← label, if_pos rfl, labelOfWord, number, if_pos small]
  | element position =>
    -- A position is below the same limit, and its kind tells it apart.
    have small := fits position rfl
    have number : (UInt32.ofNat position).toNat = position := toNat_ofNat_of_lt_labelLimit small
    obtain ⟨kind, label⟩ := Prod.mk.inj stored
    rw [← kind, ← label, if_neg (by decide), number, if_pos ⟨rfl, small⟩]

section Heaps

variable {columns : Columns}

/-- There are few enough names for their indices to be written in rows. -/
theorem toNat_ofNat_of_lt_names (faultless : columns.Faultless) {name : Nat}
    (small : name < columns.names.size) : (UInt32.ofNat name).toNat = name :=
  toNat_ofNat_of_lt_labelLimit (Nat.lt_trans small faultless.names_lt)

/-- Rows of classes are read back: the superclass stands in its slot under its identifier. -/
theorem checkRows_classes (faultless : columns.Faultless) :
    checkRows StoredClass.toRow 0 (tablesOf columns.resolved).classes
      = .ok columns.classes.toList := by
  unfold tablesOf
  dsimp only
  rw [Columns.classCount_resolved]
  apply checkRows_range
  intro slot row held position
  have member := Array.mem_of_getElem? held
  have name : (UInt32.ofNat row.name).toNat = row.name :=
    toNat_ofNat_of_lt_names faultless (faultless.className_lt row member)
  rw [Columns.classAt_resolved held]
  unfold StoredClass.toRow
  cases above : row.superclass with
  | none =>
    -- Without the flag no superclass is read, whatever number stands in its place.
    obtain ⟨id, _, _⟩ := row
    cases above
    simp [StoredClass.superclass?, name]
  | some superclass =>
    -- The superclass was found, and the class in its slot has the identifier looked for.
    obtain ⟨slot, found⟩ := Option.isSome_iff_exists.mp
      (faultless.superclass_isSome row member superclass above)
    obtain ⟨id, _, _⟩ := row
    cases above
    simp [StoredClass.superclass?, StoredClass.superFlag, name, found,
      Columns.classId_of_classSlot? found]

/-- Names of declared fields are read back. -/
theorem checkRows_classFields (faultless : columns.Faultless) :
    checkRows StoredField.toName 0 (tablesOf columns.resolved).classFields
      = .ok columns.classFields.items.toList := by
  apply checkRows_items
  intro name member position
  have small := faultless.fieldName_lt name (Array.mem_toList_iff.mp member)
  simp [StoredField.toName, toNat_ofNat_of_lt_names faultless small]

/-- Rows of objects are read back: the class stands in its slot under its identifier. -/
theorem toRow_objects (faultless : columns.Faultless) :
    (tablesOf columns.resolved).objects.map (·.toRow) = columns.objects.toList := by
  unfold tablesOf
  dsimp only
  rw [Columns.objectCount_resolved, List.map_map]
  apply map_range_eq_toList
  intro slot row held
  -- The class was found, and the class in its slot has the identifier looked for.
  obtain ⟨kind, found⟩ := Option.isSome_iff_exists.mp
    (faultless.objectClass_isSome row (Array.mem_of_getElem? held))
  simp [StoredObject.toRow, Columns.objectAt_resolved held, found,
    Columns.classId_of_classSlot? found]

/-- Rows of references are read back, those that dangle with the target recorded. -/
theorem checkRows_edges (aligned : columns.Aligned) (faultless : columns.Faultless) :
    checkRows StoredEdge.toRow 0 (tablesOf columns.resolved).edges
      = .ok columns.edges.items.toList := by
  unfold tablesOf
  dsimp only
  rw [Columns.edgeCount_resolved]
  apply checkRows_range
  intro edge row held position
  have member := Array.mem_of_getElem? held
  -- Whether a label is a name or a position, it is below the limit.
  have named : ∀ name, row.label = .name name → name < labelLimit := fun name equal =>
    Nat.lt_trans (faultless.labelName_lt row member name equal) faultless.names_lt
  have label (stored : StoredEdge)
      (same : storedLabel row.label = (stored.labelKind, stored.label)) :
      stored.toLabel position = .ok row.label :=
    toLabel_storedLabel (aligned.labels row member) named same
  rw [Columns.edgeAt_resolved held, faultless.targetId_resolved held]
  unfold StoredEdge.toRow
  rw [if_neg (by simp), label _ rfl]
  rfl

/-- Rows of primitive fields are read back, with the very bits recorded. -/
theorem checkRows_primitives (faultless : columns.Faultless) :
    checkRows StoredPrimitive.toRow 0 (tablesOf columns.resolved).primitives
      = .ok columns.primitives.items.toList := by
  apply checkRows_items
  intro row member position
  have small := faultless.primitiveName_lt row (Array.mem_toList_iff.mp member)
  simp [StoredPrimitive.toRow, toNat_ofNat_of_lt_names faultless small]

/-- Rows of roots are read back in their order. -/
theorem checkRows_roots (faultless : columns.Faultless) :
    checkRows StoredRoot.toRoot 0 (tablesOf columns.resolved).roots
      = .ok columns.roots.toList := by
  -- Every kind of root has a tag that tells it.
  unfold tablesOf
  dsimp only
  rw [faultless.gcRoots_resolved]
  apply checkRows_items
  intro root member position
  simp [StoredRoot.toRoot]

/-- There is a row for every declared field. -/
theorem length_classFields :
    (tablesOf columns.resolved).classFields.length = columns.classFields.items.size :=
  List.length_map _

/-- There is a row for every reference, those that dangle included. -/
theorem length_edges : (tablesOf columns.resolved).edges.length = columns.edges.items.size := by
  simp [tablesOf]

/-- There is a row for every primitive field. -/
theorem length_primitives :
    (tablesOf columns.resolved).primitives.length = columns.primitives.items.size :=
  List.length_map _

/-- The tables of a heap whose columns can be counted in words spell out its records. -/
theorem spell_tablesOf (aligned : columns.Aligned) (faultless : columns.Faultless)
    (nameBytes : (tablesOf columns.resolved).nameBytes.length < 2 ^ 64)
    (fields : columns.classFields.items.size < 2 ^ 64)
    (edges : columns.edges.items.size < 2 ^ 64)
    (primitives : columns.primitives.items.size < 2 ^ 64) :
    (tablesOf columns.resolved).Spell columns := by
  refine ⟨exists_tile_nameSpansFrom _ nameBytes, ?_, checkRows_classes faultless, ?_,
    checkRows_classFields faultless, (toRow_objects faultless).symm, ?_, ?_,
    checkRows_edges aligned faultless, checkRows_primitives faultless, checkRows_roots faultless⟩
  · exact textsFrom_nameSpansFrom nameBytes
  · -- The spans of the classes are those of the groups of their fields.
    have spans : (tablesOf columns.resolved).classes.map (·.fields)
        = (List.range columns.classes.size).map (Span.ofGroup columns.classFields) := by
      unfold tablesOf
      dsimp only
      rw [Columns.classCount_resolved, List.map_map]
      rfl
    rw [spans, length_classFields]
    exact tile_ofGroup aligned.classFields fields
  · -- Resolving references moves none of them.
    have spans : (tablesOf columns.resolved).objects.map (·.edges)
        = (List.range columns.objects.size).map (Span.ofGroup columns.edges) := by
      unfold tablesOf
      dsimp only
      rw [Columns.objectCount_resolved, List.map_map]
      rfl
    rw [spans, length_edges]
    exact tile_ofGroup aligned.edges edges
  · have spans : (tablesOf columns.resolved).objects.map (·.primitives)
        = (List.range columns.objects.size).map (Span.ofGroup columns.primitives) := by
      unfold tablesOf
      dsimp only
      rw [Columns.objectCount_resolved, List.map_map]
      rfl
    rw [spans, length_primitives]
    exact tile_ofGroup aligned.primitives primitives

end Heaps

end Snapshot

end HeapAtlas
