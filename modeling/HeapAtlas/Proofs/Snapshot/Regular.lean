import Mathlib.Algebra.Ring.Nat
import HeapAtlas.Proofs.Lists
import HeapAtlas.Proofs.Snapshot.Columns

/-! Tables that are regular one by one, which is what is checked before records are put together. -/

namespace HeapAtlas

/-- What holds of every place of a list holds of the first one and of every place behind it. -/
theorem forall_getElem?_cons {α : Type} {P : Nat → α → Prop} {first : α} {rest : List α} :
    (∀ index item, (first :: rest)[index]? = some item → P index item) ↔
      P 0 first ∧ ∀ index item, rest[index]? = some item → P (index + 1) item := by
  constructor
  · exact fun each => ⟨each 0 first rfl, fun index item held => each (index + 1) item held⟩
  · intro both index item held
    cases index with
    | zero =>
      cases held
      exact both.1
    | succ index => exact both.2 index item held

/-- Bytes are read as a text exactly when they are the bytes of it. -/
theorem Bytes.text?_eq_some_iff {bytes : Bytes} {text : String} :
    text? bytes = some text ↔ ofText text = bytes := by
  constructor
  · intro read
    unfold text? String.fromUTF8? at read
    -- Bytes that are valid make a text with just these bytes.
    split at read
    · cases read
      simp [ofText, String.fromUTF8]
    · cases read
  · rintro rfl
    exact text?_ofText text

/-- The kinds of root have the first twelve bytes. -/
theorem RootKind.isSome_ofTag?_iff {tag : UInt8} : (ofTag? tag).isSome ↔ tag.toNat ≤ 11 := by
  -- A byte that is none of the twelve is above them.
  unfold ofTag?
  split <;> simp_all [← UInt8.toNat_inj]
  omega

namespace Snapshot

/-- Spans that lie end to end over items: each begins where those before it end. -/
structure Tiles (spans : List Span) (items : Nat) : Prop where
  start_eq : ∀ index span, spans[index]? = some span →
    span.start.toNat = ((spans.take index).map (·.count.toNat)).sum
  total_eq : (spans.map (·.count.toNat)).sum = items

/-- Tables with names, spans and rows that are in order, whatever the rows refer to. -/
structure Tables.Regular (tables : Tables) : Prop where
  nameSpans : Tiles tables.nameSpans tables.nameBytes.length
  names : ∀ span ∈ tables.nameSpans, ∃ text : String,
    tables.nameBytes.slice span.start.toNat span.count.toNat = Bytes.ofText text
  fieldSpans : Tiles (tables.classes.map (·.fields)) tables.classFields.length
  edgeSpans : Tiles (tables.objects.map (·.edges)) tables.edges.length
  primitiveSpans : Tiles (tables.objects.map (·.primitives)) tables.primitives.length
  classes : ∀ row ∈ tables.classes, row.spare = 0 ∧ (row.flags = 0 ∨ row.flags = 1)
  classFields : ∀ row ∈ tables.classFields, row.spare = 0
  edges : ∀ row ∈ tables.edges, row.spare = 0 ∧
    (row.labelKind = 0 ∨ row.labelKind = 1 ∧ row.label.toNat < labelLimit)
  primitives : ∀ row ∈ tables.primitives, row.spare = 0
  roots : ∀ row ∈ tables.roots, row.spare = 0 ∧ row.kind.toNat ≤ 11

section Rows

/-- The record of a class row that is in order. -/
def StoredClass.record (row : StoredClass) : ClassRow :=
  ⟨⟨row.id⟩, row.name.toNat, row.superclass?.map ClassId.mk⟩

/-- The record of a reference row that is in order. -/
def StoredEdge.record (row : StoredEdge) : EdgeRow :=
  ⟨⟨row.target⟩,
    if row.labelKind = 0 then labelOfWord row.label else .element row.label.toNat, row.typeTag⟩

/-- The record of a primitive row that is in order. -/
def StoredPrimitive.record (row : StoredPrimitive) : PrimitiveRow :=
  ⟨row.name.toNat, row.tag, row.bits⟩

/-- The record of a root row that is in order. -/
def StoredRoot.record (row : StoredRoot) : GcRoot :=
  ⟨⟨row.object⟩, (RootKind.ofTag? row.kind).getD default⟩

/-- A class row is in order when its spare bytes are zero and no unknown flag is set. -/
theorem StoredClass.toRow_eq_ok_iff (row : StoredClass) (index : Nat) (result : ClassRow) :
    row.toRow index = .ok result ↔
      (row.spare = 0 ∧ (row.flags = 0 ∨ row.flags = 1)) ∧ result = row.record := by
  -- Besides the known flag, which is the lowest bit, no bit may be set.
  have known : row.flags &&& ~~~ superFlag = 0 ↔ row.flags = 0 ∨ row.flags = 1 := by
    obtain ⟨bits⟩ := row.flags
    simp only [← UInt8.toBitVec_inj, superFlag]
    decide +revert +kernel
  rw [toRow, guard_eq_ok_iff, guard_eq_ok_iff, not_not, not_not, known, and_assoc,
    Except.ok.injEq, record, eq_comm (b := result)]

/-- The row of a declared field is in order when its spare bytes are zero. -/
theorem StoredField.toName_eq_ok_iff (row : StoredField) (index result : Nat) :
    row.toName index = .ok result ↔ row.spare = 0 ∧ result = row.name.toNat := by
  rw [toName, guard_eq_ok_iff, not_not, Except.ok.injEq, eq_comm (b := result)]

/-- A reference row is in order when its spare bytes are zero and its label is of a known kind. -/
theorem StoredEdge.toRow_eq_ok_iff (row : StoredEdge) (index : Nat) (result : EdgeRow) :
    row.toRow index = .ok result ↔
      (row.spare = 0 ∧ (row.labelKind = 0 ∨ row.labelKind = 1 ∧ row.label.toNat < labelLimit)) ∧
        result = row.record := by
  rw [toRow, guard_eq_ok_iff, not_not, map_eq_ok_iff, and_assoc, toLabel, record]
  refine and_congr_right fun _ => ?_
  -- The label is a word that is taken as it stands, a position, or of no known kind.
  by_cases field : row.labelKind = 0
  · simp [field, eq_comm]
  · by_cases position : row.labelKind = 1 ∧ row.label.toNat < labelLimit
    · simp [position, eq_comm]
    · simp [field, position]

/-- A primitive row is in order when its spare bytes are zero. -/
theorem StoredPrimitive.toRow_eq_ok_iff (row : StoredPrimitive) (index : Nat)
    (result : PrimitiveRow) :
    row.toRow index = .ok result ↔ row.spare = 0 ∧ result = row.record := by
  rw [toRow, guard_eq_ok_iff, not_not, Except.ok.injEq, record, eq_comm (b := result)]

/-- A root row is in order when its spare bytes are zero and its kind is known. -/
theorem StoredRoot.toRoot_eq_ok_iff (row : StoredRoot) (index : Nat) (result : GcRoot) :
    row.toRoot index = .ok result ↔
      (row.spare = 0 ∧ row.kind.toNat ≤ 11) ∧ result = row.record := by
  rw [toRoot, guard_eq_ok_iff, not_not, and_assoc, ← RootKind.isSome_ofTag?_iff, record]
  -- The spare bytes are looked at first, the kind after them.
  refine and_congr_right fun _ => ?_
  cases RootKind.ofTag? row.kind with
  | some kind => simp [eq_comm]
  | none => simp

/-- Rows pass their check when each is in order, and then each gives its record. -/
theorem checkRows_eq_ok_iff {α β : Type} {check : α → Nat → Except DecodeError β}
    {good : α → Prop} {record : α → β}
    (judged : ∀ row index result, check row index = .ok result ↔ good row ∧ result = record row)
    {first : Nat} {rows : List α} {results : List β} :
    checkRows check first rows = .ok results ↔
      (∀ row ∈ rows, good row) ∧ results = rows.map record := by
  -- A row is judged the same in every place, so the induction goes through the rows.
  induction rows generalizing first results with
  | nil => simp [checkRows, eq_comm]
  | cons row rest ih =>
    simp only [checkRows, bind_eq_ok_iff, judged, ih, pure, Except.pure, Except.ok.injEq]
    constructor
    · intro passed
      obtain ⟨_, ⟨good, rfl⟩, _, ⟨others, rfl⟩, rfl⟩ := passed
      exact ⟨List.forall_mem_cons.mpr ⟨good, others⟩, rfl⟩
    · intro passed
      obtain ⟨good, rfl⟩ := passed
      obtain ⟨good, others⟩ := List.forall_mem_cons.mp good
      exact ⟨_, ⟨good, rfl⟩, _, ⟨others, rfl⟩, rfl⟩

end Rows

section Spans

/-- A span ends within a length of words where its count says. -/
theorem Span.exists_stop_iff {span : Span} {length : Nat} (small : length < 2 ^ 64) :
    (∃ stop, span.stop? = some stop ∧ stop.toNat ≤ length) ↔
      span.start.toNat + span.count.toNat ≤ length := by
  constructor
  · intro ends
    obtain ⟨stop, stops, within⟩ := ends
    rwa [Span.toNat_stop stops] at within
  · intro within
    -- The end is a word like the length, so that it is not past the largest one.
    have word : span.start.toNat + span.count.toNat < 1 <<< 64 := by
      rw [Nat.one_shiftLeft]
      omega
    have stops : span.stop? = some (span.start + span.count) := if_pos word
    exact ⟨_, stops, by rwa [Span.toNat_stop stops]⟩

/-- Spans pass from a cursor on when each begins behind those before it and all end the data. -/
theorem exists_tileFrom_iff {table data : Part} {length : Nat} (small : length < 2 ^ 64)
    {index cursor : Nat} {spans : List Span} :
    (∃ offsets, tileFrom table data length index cursor spans = .ok offsets) ↔
      (∀ place span, spans[place]? = some span →
        span.start.toNat = cursor + ((spans.take place).map (·.count.toNat)).sum) ∧
      cursor + (spans.map (·.count.toNat)).sum = length := by
  -- With each span, the cursor moves by what the span adds to the sums.
  induction spans generalizing index cursor with
  | nil =>
    -- Without spans, the data has to end at the cursor.
    rw [tileFrom]
    split <;> simp_all
  | cons span rest ih =>
    rw [forall_getElem?_cons]
    simp only [List.take_zero, List.map_nil, List.sum_nil, Nat.add_zero, List.take_succ_cons,
      List.map_cons, List.sum_cons]
    constructor
    · intro passed
      obtain ⟨offsets, tiled⟩ := passed
      rw [tileFrom] at tiled
      split at tiled
      · rename_i stop stops
        split at tiled
        · rename_i fits
          obtain ⟨others, tiledRest, rfl⟩ := map_eq_ok_iff.mp tiled
          obtain ⟨starts, total⟩ := ih.mp ⟨others, tiledRest⟩
          rw [Span.toNat_stop stops, fits.1] at starts total
          refine ⟨⟨fits.1, fun place later held => ?_⟩, by omega⟩
          rw [starts place later held, Nat.add_assoc]
        · cases tiled
      · cases tiled
    · intro both
      obtain ⟨⟨begins, starts⟩, total⟩ := both
      obtain ⟨stop, stops, within⟩ := (Span.exists_stop_iff small).mpr
        (by omega : span.start.toNat + span.count.toNat ≤ length)
      have next : stop.toNat = cursor + span.count.toNat := by rw [Span.toNat_stop stops, begins]
      obtain ⟨offsets, tiled⟩ : ∃ offsets,
          tileFrom table data length (index + 1) stop.toNat rest = .ok offsets := by
        refine ih.mpr ⟨fun place later held => ?_, by omega⟩
        rw [starts place later held, next, Nat.add_assoc]
      refine ⟨stop.toNat :: offsets, ?_⟩
      rw [tileFrom, stops]
      dsimp only
      rw [if_pos ⟨begins, within⟩, tiled]
      rfl

/-- Spans pass as tiling when they lie end to end over the data. -/
theorem exists_tile_iff {table data : Part} {length : Nat} (small : length < 2 ^ 64)
    {spans : List Span} :
    (∃ offsets, tile table data length spans = .ok offsets) ↔ Tiles spans length := by
  have fromStart : (∃ offsets, tileFrom table data length 0 0 spans = .ok offsets) ↔ _ :=
    exists_tileFrom_iff small
  simp only [Nat.zero_add] at fromStart
  -- The walk begins at zero, and its first offset is put in front of the others.
  constructor
  · intro passed
    obtain ⟨offsets, tiled⟩ := passed
    obtain ⟨others, tiledFrom, _⟩ := map_eq_ok_iff.mp tiled
    obtain ⟨starts, total⟩ := fromStart.mp ⟨others, tiledFrom⟩
    exact ⟨starts, total⟩
  · intro tiles
    obtain ⟨offsets, tiled⟩ := fromStart.mpr ⟨tiles.start_eq, tiles.total_eq⟩
    exact ⟨0 :: offsets, map_eq_ok_iff.mpr ⟨offsets, tiled, rfl⟩⟩

/-- Names are read when the bytes of each, behind those of the names before it, are a text. -/
theorem exists_textsFrom_iff {index : Nat} {spans : List Span} {bytes : Bytes} :
    (∃ texts, textsFrom index spans bytes = .ok texts) ↔
      ∀ place span, spans[place]? = some span → ∃ text : String,
        bytes.slice ((spans.take place).map (·.count.toNat)).sum span.count.toNat
          = Bytes.ofText text := by
  -- With each name, its bytes are gone from the front.
  induction spans generalizing index bytes with
  | nil => simp [textsFrom]
  | cons span rest ih =>
    have behind (count : Nat) (offset : Nat) :
        bytes.slice (span.count.toNat + offset) count
          = Bytes.slice (bytes.drop span.count.toNat) offset count := by
      rw [Bytes.slice, Bytes.slice, List.drop_drop]
    rw [forall_getElem?_cons]
    simp only [List.take_zero, List.map_nil, List.sum_nil, List.take_succ_cons, List.map_cons,
      List.sum_cons, behind]
    rw [← @ih (index + 1), textsFrom]
    constructor
    · intro read
      obtain ⟨texts, read⟩ := read
      split at read
      · rename_i text first
        obtain ⟨others, readRest, rfl⟩ := map_eq_ok_iff.mp read
        exact ⟨⟨text, (Bytes.text?_eq_some_iff.mp first).symm⟩, others, readRest⟩
      · cases read
    · intro both
      obtain ⟨⟨text, first⟩, others, readRest⟩ := both
      have here : Bytes.text? (bytes.take span.count.toNat) = some text :=
        Bytes.text?_eq_some_iff.mpr first.symm
      rw [here]
      exact ⟨text :: others, map_eq_ok_iff.mpr ⟨others, readRest, rfl⟩⟩

/-- There are as many names as there are spans of names. -/
theorem length_textsFrom {index : Nat} {spans : List Span} {bytes : Bytes} {texts : List String}
    (read : textsFrom index spans bytes = .ok texts) : texts.length = spans.length := by
  induction spans generalizing index bytes texts with
  | nil =>
    cases read
    rfl
  | cons span rest ih =>
    rw [textsFrom] at read
    -- Each span gives one text, or the reading fails.
    split at read
    · obtain ⟨others, readRest, rfl⟩ := map_eq_ok_iff.mp read
      rw [List.length_cons, ih readRest, List.length_cons]
    · cases read

end Spans

end Snapshot

end HeapAtlas
