import HeapAtlas.NameBuffer
import HeapAtlas.Proofs.Graph.Ragged
import HeapAtlas.Snapshot.Encode

/-! Names lie end to end in one text, however many are added, and are cut out of it again. -/

namespace HeapAtlas

namespace Bytes

/-- The bytes of two texts, one behind the other. -/
theorem ofText_append (first second : String) :
    ofText (first ++ second) = ofText first ++ ofText second := by
  simp [ofText, String.toUTF8_eq_toByteArray]

/-- The bytes of texts one behind the other are those of the texts joined. -/
theorem flatten_map_ofText (names : List String) :
    (names.map ofText).flatten = ofText (String.join names) := by
  induction names with
  | nil => rfl
  | cons name rest ih => rw [List.map_cons, List.flatten_cons, ih, String.join_cons, ofText_append]

end Bytes

namespace NameBuffer

/-- Some names lie in a buffer one behind the other, with an offset between any two of them. -/
structure Lays (buffer : NameBuffer) (names : List String) : Prop where
  text_eq : buffer.text = String.join names
  bytes_eq : buffer.bytes = .ofGroups (names.map Bytes.ofText)

/-- In the buffer without names none lies. -/
theorem lays_empty : empty.Lays [] := ⟨rfl, rfl⟩

/-- A name adds one group of bytes behind the others, once the buffer has its first offset. -/
theorem bytes_push {buffer : NameBuffer} (ready : buffer.offsets.isEmpty = false) (name : String) :
    (buffer.push name).bytes = buffer.bytes.push (Bytes.ofText name) := by
  -- The new last offset is where the new group ends.
  have stop : (buffer.text ++ name).utf8ByteSize
      = (Bytes.ofText buffer.text).toArray.size + (Bytes.ofText name).length := by
    rw [List.size_toArray, Bytes.length_ofText, Bytes.length_ofText, String.utf8ByteSize_append]
  rw [bytes, bytes, push, Ragged.push]
  dsimp only
  rw [ready, if_neg Bool.false_ne_true, stop, Bytes.ofText_append]
  congr 1
  simp

section Laid

variable {buffer : NameBuffer} {names : List String}

/-- The offsets of a buffer tile its bytes. -/
theorem Lays.tiled (lays : buffer.Lays names) : buffer.bytes.Tiled names.length := by
  have tiled := (Ragged.tiled_ofGroups (names.map Bytes.ofText)).1
  rwa [← lays.bytes_eq, List.length_map] at tiled

/-- A name that is added lies behind all others. -/
theorem Lays.push (lays : buffer.Lays names) (name : String) :
    (buffer.push name).Lays (names ++ [name]) where
  text_eq := by
    rw [String.join_append, NameBuffer.push, lays.text_eq]
    simp
  bytes_eq := by
    -- There is always an offset behind the last name, and the empty buffer has its first one.
    have offsets : buffer.offsets.size = names.length + 1 := lays.tiled.size_offsets
    have ready : buffer.offsets.isEmpty = false := by
      rw [Array.isEmpty_eq_false_iff_exists_mem]
      exact ⟨_, Array.getElem_mem (by omega : 0 < buffer.offsets.size)⟩
    rw [bytes_push ready, lays.bytes_eq, List.map_append, Ragged.ofGroups, Ragged.ofGroups,
      List.foldl_append]
    rfl

/-- However many names are added, all of them lie in the buffer. -/
theorem Lays.foldl_push (lays : buffer.Lays names) (more : List String) :
    (more.foldl NameBuffer.push buffer).Lays (names ++ more) := by
  -- Name after name goes behind those that lie there.
  induction more generalizing buffer names with
  | nil => rwa [List.append_nil]
  | cons name rest ih =>
    have onward := ih (lays.push name)
    rwa [List.append_assoc] at onward

/-- A buffer has as many names as lie in it. -/
theorem Lays.size_eq (lays : buffer.Lays names) : buffer.size = names.length := by
  have offsets : buffer.offsets.size = names.length + 1 := lays.tiled.size_offsets
  rw [size, offsets, Nat.add_sub_cancel]

/-- The bytes of a name begin at its offset. -/
theorem Lays.start_eq (lays : buffer.Lays names) {index : Nat} (upto : index ≤ names.length) :
    buffer.bytes.start index = (String.join (names.take index)).utf8ByteSize := by
  have start := Ragged.start_ofGroups (names.map Bytes.ofText) (by simpa using upto)
  rwa [← lays.bytes_eq, ← List.map_take, Bytes.flatten_map_ofText, Bytes.length_ofText] at start

/-- An offset counts the bytes of the names before it. -/
theorem Lays.offset (lays : buffer.Lays names) {index : Nat} (upto : index ≤ names.length) :
    buffer.offsets[index]? = some (String.join (names.take index)).utf8ByteSize := by
  have offsets : buffer.offsets.size = names.length + 1 := lays.tiled.size_offsets
  rw [← lays.start_eq upto, Ragged.start, bytes, Array.getD_eq_getD_getElem?,
    Array.getElem?_eq_getElem (by omega), Option.getD_some]

/-- No offset goes through a character. -/
theorem Lays.isValid (lays : buffer.Lays names) (index : Nat) :
    String.Pos.Raw.IsValid buffer.text ⟨(String.join (names.take index)).utf8ByteSize⟩ := by
  -- The text is that of the names before the place, and then that of the others.
  refine String.Pos.Raw.isValid_iff_exists_append.mpr
    ⟨String.join (names.take index), String.join (names.drop index), ?_, rfl⟩
  rw [← String.join_append, List.take_append_drop, lays.text_eq]

/-- Every name is cut out of the text again; past the last one nothing stands. -/
theorem Lays.get?_eq (lays : buffer.Lays names) (index : Nat) :
    buffer.get? index = some (names.getD index "") := by
  have offsets : buffer.offsets.size = names.length + 1 := lays.tiled.size_offsets
  rw [get?]
  by_cases within : index < names.length
  · -- The bytes between the two offsets are those of the name.
    have group := (Ragged.tiled_ofGroups (names.map Bytes.ofText)).2 index
    rw [← lays.bytes_eq, Ragged.group_eq_take_drop] at group
    have start := lays.offset (Nat.le_of_lt within)
    have stop := lays.offset (Nat.succ_le_of_lt within)
    rw [Ragged.groupSize, Ragged.start, Ragged.stop, Array.getD_eq_getD_getElem?,
      Array.getD_eq_getD_getElem?] at group
    simp only [bytes, start, stop, Option.getD_some] at group
    simp only [start, stop]
    rw [cut?, if_pos, Bytes.slice, group, List.getElem?_map, List.getElem?_eq_getElem within,
      Option.map_some, Option.getD_some, Bytes.text?_ofText, List.getD_eq_getElem?_getD,
      List.getElem?_eq_getElem within, Option.getD_some]
    rw [Bool.and_eq_true, String.Pos.Raw.isValid_eq_true_iff, String.Pos.Raw.isValid_eq_true_iff]
    exact ⟨lays.isValid index, lays.isValid (index + 1)⟩
  · -- There is no offset behind such an index.
    have past : buffer.offsets[index + 1]? = none := Array.getElem?_eq_none (by omega)
    rw [past, List.getD_eq_getElem?_getD, List.getElem?_eq_none (by omega)]
    cases buffer.offsets[index]? <;> rfl

/-- A name begins where those before it end, and takes its own bytes. -/
theorem Lays.getElem?_spans (lays : buffer.Lays names) (index : Nat) :
    buffer.spans[index]? = (names[index]?).map fun name =>
      ((String.join (names.take index)).utf8ByteSize, name.utf8ByteSize) := by
  have offsets : buffer.offsets.size = names.length + 1 := lays.tiled.size_offsets
  rw [spans, List.getElem?_zipWith', List.getElem?_tail, Array.getElem?_toList,
    Array.getElem?_toList]
  -- Between two offsets lies what the names up to the later one have more.
  by_cases within : index < names.length
  · rw [lays.offset (Nat.le_of_lt within), lays.offset (Nat.succ_le_of_lt within),
      List.getElem?_eq_getElem within, List.take_succ_eq_append_getElem within, String.join_append]
    simp
  · rw [show buffer.offsets[index + 1]? = none from Array.getElem?_eq_none (by omega),
      List.getElem?_eq_none (by omega)]
    cases buffer.offsets[index]? <;> rfl

end Laid

end NameBuffer

namespace Snapshot

/-- A name's span begins behind the bytes of the names before it. -/
theorem getElem?_nameSpansFrom (names : List String) (start index : Nat) :
    (nameSpansFrom start names)[index]? = (names[index]?).map fun name =>
      .ofNat (start + (String.join (names.take index)).utf8ByteSize) name.utf8ByteSize := by
  -- The first name moves the start of all others by its own bytes.
  induction names generalizing start index with
  | nil => rfl
  | cons name rest ih =>
    cases index with
    | zero => simp [nameSpansFrom]
    | succ index =>
      rw [nameSpansFrom, List.getElem?_cons_succ, ih, List.getElem?_cons_succ, List.take_succ_cons,
        String.join_cons, String.utf8ByteSize_append, Nat.add_assoc]

end Snapshot

namespace NameTable

/-- The names of a table lie in its buffer. -/
theorem lays (table : NameTable) : table.buffer.Lays table.names.toList :=
  NameBuffer.lays_empty.foldl_push _

/-- A name that joins a table joins its buffer. -/
theorem buffer_push (table : NameTable) (name : String) :
    (table.push name).buffer = table.buffer.push name := by
  rw [buffer, push, Array.toList_push, List.foldl_append]
  rfl

/-- The buffer of names that are added one after another is filled by adding them. -/
theorem buffer_ofNames (names : List String) :
    (ofNames names).buffer = names.foldl NameBuffer.push .empty := by
  rw [ofNames_eq, buffer]

/-- Interning adds a name to the buffer when it is new, and nothing otherwise. -/
theorem buffer_intern (interner : Interner) (name : String) :
    (interner.intern name).2.table.buffer
      = if interner.index[name]?.isSome then interner.table.buffer
        else interner.table.buffer.push name := by
  rw [Interner.intern]
  -- A name that is known has its bytes in the buffer already.
  cases interner.index[name]? with
  | some index => rfl
  | none => exact buffer_push interner.table name

/-- A table has as many names as its buffer. -/
theorem size_buffer (table : NameTable) : table.buffer.size = table.size := by
  rw [table.lays.size_eq, Array.length_toList, size]

/-- The bytes of a table of names are those of all its names together. -/
theorem byteCount_eq_sum (table : NameTable) :
    table.byteCount = (table.names.toList.map (·.utf8ByteSize)).sum := by
  rw [NameTable.byteCount, ← List.foldl_map, ← List.sum_eq_foldl]

/-- The names of a table take as many bytes as the text of its buffer. -/
theorem byteCount_buffer (table : NameTable) : table.buffer.byteCount = table.byteCount := by
  have sizes : List.length ∘ Bytes.ofText = String.utf8ByteSize := funext Bytes.length_ofText
  rw [byteCount_eq_sum, NameBuffer.byteCount, table.lays.text_eq, ← Bytes.length_ofText,
    ← Bytes.flatten_map_ofText, List.length_flatten, List.map_map, sizes]

/-- A name is read from a table as it is cut out of its buffer. -/
theorem get?_buffer (table : NameTable) (index : Nat) :
    table.buffer.get? index = some (table.get index) := by
  rw [table.lays.get?_eq, get]
  simp

end NameTable

namespace Snapshot

/-- The names of a heap are written as its buffer has them: the spans, and then the text. -/
theorem names_tablesOf (graph : HeapGraph) :
    (tablesOf graph).nameSpans
        = graph.names.buffer.spans.map (fun (start, count) => Span.ofNat start count) ∧
      (tablesOf graph).nameBytes = Bytes.ofText graph.names.buffer.text := by
  constructor
  · -- Both spans of a name are told by the bytes of the names before it.
    refine List.ext_getElem? fun index => ?_
    rw [List.getElem?_map, graph.names.lays.getElem?_spans]
    show (nameSpansFrom 0 graph.names.names.toList)[index]? = _
    rw [getElem?_nameSpansFrom, Option.map_map]
    simp [Function.comp_def]
  · rw [graph.names.lays.text_eq, ← Bytes.flatten_map_ofText, ← List.flatMap_def]
    rfl

end Snapshot

end HeapAtlas
