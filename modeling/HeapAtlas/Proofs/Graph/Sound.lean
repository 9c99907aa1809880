import HeapAtlas.Proofs.Graph.Mirror
import HeapAtlas.Proofs.Graph.ReadBack
import HeapAtlas.Proofs.NameBuffer

/-! What every heap keeps to, whether it was built from records or read from a snapshot. -/

namespace HeapAtlas

namespace NameTable

/-- The names lie end to end in one text, and none begins or ends inside a character. -/
structure Laid (table : NameTable) : Prop where
  tiled : table.buffer.bytes.Tiled table.size
  /-- The text is that of all names, one behind the other. -/
  text : table.buffer.text = String.join table.names.toList
  boundary : ∀ index ≤ table.size,
    String.Pos.Raw.IsValid table.buffer.text ⟨table.buffer.bytes.start index⟩
  name : ∀ index < table.size, table.buffer.bytes.group index = Bytes.ofText (table.get index)
  /-- What is cut out of the text is the name that the table gives, at any index. -/
  read : ∀ index, table.buffer.get? index = some (table.get index)

/-- A name is there for every index below the number of names. -/
theorem get?_eq_some_get {table : NameTable} {index : Nat} (within : index < table.size) :
    table.get? index = some (table.get index) :=
  getElem?_eq_some_getD within ""

/-- However a table came to its names, they lie so. -/
theorem laid (table : NameTable) : table.Laid where
  tiled := table.lays.tiled
  text := table.lays.text_eq
  boundary := by
    intro index upto
    rw [table.lays.start_eq upto]
    exact table.lays.isValid index
  name := by
    intro index within
    -- The bytes of a name are a group of their own.
    rw [table.lays.bytes_eq, (Ragged.tiled_ofGroups _).2, List.getElem?_map, Array.getElem?_toList,
      ← get?, get?_eq_some_get within]
    rfl
  read := table.get?_buffer

end NameTable

namespace HeapGraph

/-- What holds of every heap: all that is stored leads to something else that is stored. -/
structure Sound (graph : HeapGraph) : Prop where
  classes_ascend : (graph.classes.toList.map (·.id.raw)).Pairwise (· < ·)
  objects_ascend : (graph.objects.toList.map (·.id.raw)).Pairwise (· < ·)
  /-- Identifiers lead to the slots in which they stand, and to no others. -/
  lookup : ∀ id slot, graph.slotOf? id = some slot ↔
    (graph.objects[slot]?).map (·.id) = some id
  classFields : graph.classFields.Tiled graph.classCount
  edges : graph.edges.Tiled graph.objectCount
  incoming : graph.incoming.Tiled graph.objectCount
  primitives : graph.primitives.Tiled graph.objectCount
  target_lt : ∀ entry ∈ graph.edges.items, ∀ slot, entry.target = some slot →
    slot < graph.objectCount
  classSlot_lt : ∀ entry ∈ graph.objects, entry.classSlot < graph.classCount
  superclass_lt : ∀ entry ∈ graph.classes, ∀ slot, entry.superclass = some slot →
    slot < graph.classCount
  arrival_lt : ∀ arrival ∈ graph.incoming.items,
    arrival.source < graph.objectCount ∧ arrival.edge < graph.edgeCount
  /-- The references kept apart are those without a slot, in the order of the edges. -/
  dangling : graph.dangling.toList.map (·.1)
    = (List.range graph.edgeCount).filter fun edge => (graph.edgeAt edge).target = none
  dangling_absent : ∀ pair ∈ graph.dangling, ∀ entry ∈ graph.objects, entry.id ≠ pair.2
  names : graph.names.Laid
  className_lt : ∀ entry ∈ graph.classes, entry.name < graph.names.size
  fieldName_lt : ∀ name ∈ graph.classFields.items, name < graph.names.size
  labelName_lt : ∀ entry ∈ graph.edges.items, ∀ name, entry.label = .name name →
    name < graph.names.size
  primitiveName_lt : ∀ row ∈ graph.primitives.items, row.name < graph.names.size
  edgeTag : ∀ entry ∈ graph.edges.items,
    entry.typeTag = 0 ∨ (FieldType.ofTag? entry.typeTag).isSome
  primitiveTag : ∀ row ∈ graph.primitives.items,
    (PrimitiveValue.ofBits? row.tag row.bits).isSome
  root_lt : ∀ root ∈ graph.roots, root.1 < graph.objectCount
  rootMask : ∀ slot, graph.rootMask.test slot = true ↔ ∃ kind, (slot, kind) ∈ graph.roots

end HeapGraph

/-- The positions of the rows that are looked for, one by one. -/
theorem map_filterMap_zipIdx {α β : Type} (rows : List α) (wanted : α → Bool) (read : α → β) :
    (rows.zipIdx.filterMap fun (row, position) =>
      if wanted row then some (position, read row) else none).map (·.1)
      = (List.range rows.length).filter fun position => (rows[position]?).any wanted := by
  -- The positions are counted up, so the induction runs from the back.
  induction rows using List.reverseRecOn with
  | nil => rfl
  | append_singleton before last ih =>
    have kept : (List.range before.length).filter
          (fun position => ((before ++ [last])[position]?).any wanted)
        = (List.range before.length).filter fun position => (before[position]?).any wanted := by
      refine List.filter_congr fun position member => ?_
      rw [List.getElem?_append_left (List.mem_range.mp member)]
    rw [List.zipIdx_append, List.filterMap_append, List.map_append, ih, List.length_append,
      List.length_singleton, List.range_succ, List.filter_append, kept]
    congr 1
    by_cases here : wanted last <;> simp [here]

namespace Columns

variable {columns : Columns}

/-- The references kept apart are those of rows whose target has no slot. -/
theorem map_fst_danglingOf :
    columns.resolved.dangling.toList.map (·.1) = (List.range columns.resolved.edgeCount).filter
      fun edge => (columns.resolved.edgeAt edge).target = none := by
  show (danglingOf _ columns.edges).toList.map (·.1) = _
  rw [danglingOf, map_filterMap_zipIdx columns.edges.items.toList
    (fun row => (columns.objectSlot? columns.slotIndex row.target).isNone) (·.target),
    edgeCount_resolved, Array.length_toList]
  refine List.filter_congr fun edge member => ?_
  -- The entry of a reference is that of its row.
  obtain ⟨row, held⟩ : ∃ row, columns.edges.items[edge]? = some row :=
    ⟨_, Array.getElem?_eq_getElem (List.mem_range.mp member)⟩
  rw [edgeAt_resolved held, Array.getElem?_toList, held, Option.any_some]
  cases columns.objectSlot? columns.slotIndex row.target <;> rfl

/-- A target that is kept apart is none of the objects. -/
theorem Faultless.dangling_absent (faultless : columns.Faultless) {pair : Nat × ObjectId}
    (kept : pair ∈ columns.resolved.dangling) {row : ObjectRow} (member : row ∈ columns.objects) :
    row.id ≠ pair.2 := by
  intro same
  -- The object would have been found in its slot.
  obtain ⟨slot, held⟩ := Array.mem_iff_getElem?.mp member
  have found := (objectSlot?_eq_some_iff faultless.objects_ascend).mpr
    (show (columns.objects[slot]?).map (·.id) = some pair.2 by rw [held, ← same]; rfl)
  have listed : pair ∈ danglingOf (columns.objectSlot? columns.slotIndex) columns.edges := kept
  simp only [danglingOf, List.mem_toArray, List.mem_filterMap] at listed
  obtain ⟨⟨edge, position⟩, _, equal⟩ := listed
  split at equal
  · rename_i missing
    cases equal
    rw [found] at missing
    cases missing
  · cases equal

/-- What is said of every row is said of every entry made of one. -/
theorem forall_mem_map {α β : Type} {rows : Array α} {f : α → β} {good : β → Prop}
    (each : ∀ row ∈ rows, good (f row)) : ∀ entry ∈ rows.map f, good entry := by
  intro entry member
  obtain ⟨row, held, rfl⟩ := Array.mem_map.mp member
  exact each row held

/-- A class that was found is one of the heap's. -/
theorem classSlot?_lt {id : ClassId} {slot : Slot} (found : columns.classSlot? id = some slot) :
    slot < columns.resolved.classCount := by
  obtain ⟨row, held, _⟩ := classSlot?_sound found
  rw [classCount_resolved]
  exact (Array.getElem?_eq_some_iff.mp held).1

end Columns

/-- Without a fault in the records the heap is sound. -/
theorem Columns.Faultless.sound {columns : Columns} (faultless : columns.Faultless)
    (aligned : columns.Aligned) (made : columns.resolved.Made) : columns.resolved.Sound where
  classes_ascend := by
    simpa [Columns.resolved, Function.comp_def] using faultless.classes_ascend
  objects_ascend := by
    simpa [Columns.resolved, Function.comp_def] using faultless.objects_ascend
  lookup := by
    intro id slot
    rw [Columns.slotOf?_resolved, Columns.objectSlot?_eq_some_iff faultless.objects_ascend]
    simp only [Columns.resolved, Array.getElem?_map, Option.map_map, Function.comp_def]
  classFields := by
    rw [Columns.classCount_resolved]
    exact aligned.classFields
  edges := made.tiled_edges
  incoming := made.incoming_eq.1
  primitives := by
    rw [Columns.objectCount_resolved]
    exact aligned.primitives
  -- What was looked up has the slot in which it was found.
  target_lt := Columns.forall_mem_map fun _ _ _ found => faultless.objectSlot?_lt found
  classSlot_lt := by
    refine Columns.forall_mem_map fun row member => ?_
    -- The class of an object is found, as otherwise the records would be at fault.
    obtain ⟨slot, found⟩ := Option.isSome_iff_exists.mp (faultless.objectClass_isSome row member)
    rw [found]
    exact Columns.classSlot?_lt found
  superclass_lt := by
    refine Columns.forall_mem_map fun row _ slot above => ?_
    obtain ⟨id, _, found⟩ := Option.bind_eq_some_iff.mp above
    exact Columns.classSlot?_lt found
  arrival_lt := by
    -- An arrival is at some object, and there it mirrors a reference.
    intro arrival member
    obtain ⟨target, within, listed⟩ := made.incoming_eq.1.exists_mem_group member
    obtain ⟨source, _, edge⟩ := made.lt_of_refers ((made.mem_inEdges within).mp listed)
    exact ⟨source, edge⟩
  dangling := Columns.map_fst_danglingOf
  dangling_absent := fun _ kept =>
    Columns.forall_mem_map fun _ member => faultless.dangling_absent kept member
  names := NameTable.laid _
  className_lt := Columns.forall_mem_map faultless.className_lt
  fieldName_lt := faultless.fieldName_lt
  labelName_lt := Columns.forall_mem_map faultless.labelName_lt
  primitiveName_lt := faultless.primitiveName_lt
  edgeTag := Columns.forall_mem_map faultless.edgeTag
  primitiveTag := faultless.primitiveTag
  root_lt := fun root member => @HeapGraph.Made.root_lt _ made _ root.2 member
  rootMask := fun _ => made.isRoot_iff

/-- Every heap is sound. -/
theorem HeapGraph.Made.sound {graph : HeapGraph} (made : graph.Made) : graph.Sound := by
  obtain ⟨columns, aligned, faultless, rfl⟩ := made.exists_columns
  exact faultless.sound aligned made

end HeapAtlas
