import HeapAtlas.Proofs.Inspect.Chain
import HeapAtlas.Proofs.Inspect.Matching
import HeapAtlas.Proofs.Sorting

/-! The fields of an object show everything that was recorded of it, each thing once. -/

namespace HeapAtlas

/-- The primitive field at a position among all of them. -/
def HeapGraph.primitiveAt (graph : HeapGraph) (place : Nat) : PrimitiveField :=
  let row := graph.primitives.items.getD place default
  ⟨graph.names.get row.name, (PrimitiveValue.ofBits? row.tag row.bits).getD default⟩

namespace Inspect

/-- Something recorded of an object, by its position among all references or primitive fields. -/
inductive Source where
  | edge (position : Nat)
  | primitive (position : Nat)
  deriving DecidableEq, Repr

namespace Source

/-- The name of a field, or the position of an array element in brackets. -/
def name (graph : HeapGraph) : Source → String
  | edge position => (graph.label position).render
  | primitive position => (graph.primitiveAt position).name

/-- What is held there. -/
def value (graph : HeapGraph) (sizes : RetainedSizes) : Source → FieldValue
  | edge position => referenceValue graph sizes position
  | primitive position => .primitive (graph.primitiveAt position).value

/-- The recorded type. -/
def type? (graph : HeapGraph) : Source → Option FieldType
  | edge position => graph.edgeType? position
  | primitive position => some (graph.primitiveAt position).value.fieldType

/-- Whether it is a field and no array element. -/
def isNamed (graph : HeapGraph) : Source → Bool
  | edge position => match graph.label position with
    | .field _ => true
    | .element _ => false
  | primitive _ => true

end Source

/-- Everything recorded of an object: its references in order, and then its primitive fields. -/
def sources (graph : HeapGraph) (slot : Slot) : List Source :=
  (graph.outEdges slot).map .edge ++ (graph.primitives.positions slot).map .primitive

/-- The fields recorded of an object. -/
def namedSources (graph : HeapGraph) (slot : Slot) : List Source :=
  (sources graph slot).filter (·.isNamed graph)

/-- The array elements recorded of an object. -/
def elementEdges (graph : HeapGraph) (slot : Slot) : List Nat :=
  (graph.outEdges slot).filter fun edge => !(Source.edge edge).isNamed graph

/-- The position of an array element. -/
def elementPosition (graph : HeapGraph) (edge : Nat) : Nat :=
  match graph.label edge with
  | .field _ => 0
  | .element position => position

/-- Elements go by their positions, and those of one position as they were recorded. -/
def Precedes (graph : HeapGraph) (one other : Nat) : Prop :=
  elementPosition graph one < elementPosition graph other ∨
    elementPosition graph one = elementPosition graph other ∧ one < other

/-- What the fields of an object show: names that its classes declare, each with what was recorded
of it if anything was, then other fields, and then array elements. -/
structure Listing where
  declared : List (String × Option Source)
  others : List Source
  elements : List Nat

namespace Listing

/-- Everything that is shown, in order. -/
def shown (listing : Listing) : List Source :=
  listing.declared.filterMap (·.2) ++ listing.others ++ listing.elements.map .edge

/-- The named entries in order. -/
def named (graph : HeapGraph) (listing : Listing) : List (String × Option Source) :=
  listing.declared ++ listing.others.map fun source => (source.name graph, some source)

/-- A named entry, with the type that a layout tells or else the recorded one. -/
def showNamed (graph : HeapGraph) (sizes : RetainedSizes) (layout : Option ClassLayout)
    (slot : Slot) (entry : String × Option Source) : FieldDescriptor :=
  ⟨entry.1, shownType graph layout (graph.classOf slot) entry.1 (entry.2.bind (·.type? graph)),
    (entry.2.map (·.value graph sizes)).getD .null⟩

/-- An array element, with the recorded type. -/
def showElement (graph : HeapGraph) (sizes : RetainedSizes) (edge : Nat) : FieldDescriptor :=
  ⟨(Source.edge edge).name graph, (graph.edgeType? edge).map FieldType.name,
    referenceValue graph sizes edge⟩

/-- The fields that a listing shows. -/
def fields (graph : HeapGraph) (sizes : RetainedSizes) (layout : Option ClassLayout)
    (slot : Slot) (listing : Listing) : List FieldDescriptor :=
  (listing.named graph).map (showNamed graph sizes layout slot)
    ++ listing.elements.map (showElement graph sizes)

/-- A listing that goes by what the classes of an object declare and what was recorded of it. -/
structure Orderly (graph : HeapGraph) (slot : Slot) (listing : Listing) : Prop where
  /-- Every class declares its fields once, the topmost class first. -/
  declared : listing.declared.map (·.1) =
    (classChain graph (graph.classOf slot)).flatMap graph.declaredFields
  /-- Declared names show what comes first under them, and other fields what is left. -/
  matched : Matched (Source.name graph) (namedSources graph slot) listing.declared listing.others
  elements : listing.elements.Perm (elementEdges graph slot)
  sorted : listing.elements.Pairwise (Precedes graph)

end Listing

end Inspect

namespace HeapGraph

variable {graph : HeapGraph} {slot : Slot}

/-- No primitive field of an object is left out. -/
theorem Made.primitivesOf_eq (made : graph.Made) (within : slot < graph.objectCount) :
    graph.primitivesOf slot = (graph.primitives.positions slot).map graph.primitiveAt := by
  -- Every position has a row, and of every row a field can be made.
  have rows := made.sound.primitives.forall₂_positions within
  have fields := (made.sound.readsObject within).primitivesOf
  symm
  rw [← List.forall₂_eq_eq_eq, List.forall₂_map_left_iff]
  refine forall₂_trans (fun position row field held read => ?_) rows fields
  rw [primitiveAt, Array.getD_eq_getD_getElem?, held, Option.getD_some, NameTable.get_eq read.1,
    read.2, Option.getD_some]

end HeapGraph

namespace Inspect

variable {graph : HeapGraph} {slot : Slot}

/-- Nothing is recorded twice. -/
theorem nodup_sources (graph : HeapGraph) (slot : Slot) : (sources graph slot).Nodup := by
  refine List.Nodup.append ?_ ?_ fun source inEdges inPrimitives => ?_
  · exact List.Nodup.map (fun _ _ same => Source.edge.inj same) List.nodup_range'
  · exact List.Nodup.map (fun _ _ same => Source.primitive.inj same) List.nodup_range'
  · -- A reference is no primitive field, even where their positions are equal.
    obtain ⟨edge, _, rfl⟩ := List.mem_map.mp inEdges
    obtain ⟨position, _, same⟩ := List.mem_map.mp inPrimitives
    cases same

/-- The recorded fields are read off where they were recorded. -/
theorem named_eq (made : graph.Made) (within : slot < graph.objectCount) (sizes : RetainedSizes) :
    named graph sizes slot = (namedSources graph slot).map fun source =>
      ⟨source.name graph, source.value graph sizes, source.type? graph⟩ := by
  rw [named, made.primitivesOf_eq within, namedSources, sources]
  -- Both sides go through the references and then through the primitive fields.
  conv_rhs => rw [← List.filterMap_eq_map, List.filterMap_filter, List.filterMap_append,
    List.filterMap_map, List.filterMap_map]
  congr 1
  · refine List.filterMap_congr fun edge _ => ?_
    cases held : graph.label edge with
    | field name =>
      simp [Source.isNamed, Source.name, Source.value, Source.type?, EdgeLabel.render, held]
    | element position => simp [Source.isNamed, held]
  · rw [List.map_map, ← List.filterMap_eq_map]
    rfl

/-- The recorded elements are read off where they were recorded. -/
theorem elements_eq (graph : HeapGraph) (sizes : RetainedSizes) (slot : Slot) :
    elements graph sizes slot = (elementEdges graph slot).map fun edge =>
      (elementPosition graph edge, Listing.showElement graph sizes edge) := by
  rw [elements, elementEdges, ← List.filterMap_eq_map, List.filterMap_filter]
  refine List.filterMap_congr fun edge _ => ?_
  cases held : graph.label edge with
  | field name => simp [Source.isNamed, held]
  | element position =>
    simp [Source.isNamed, Source.name, elementPosition, Listing.showElement, held]

/-- The array elements can be listed by position, and this is how they are sorted. -/
theorem exists_sorted (graph : HeapGraph) (slot : Slot) :
    ∃ edges : List Nat, edges.Perm (elementEdges graph slot) ∧ edges.Pairwise (Precedes graph) ∧
      ∀ sizes, ((elements graph sizes slot).mergeSort fun one other => one.1 ≤ other.1).map (·.2) =
        edges.map (Listing.showElement graph sizes) := by
  let before (one other : Nat) : Bool := elementPosition graph one ≤ elementPosition graph other
  refine ⟨(elementEdges graph slot).mergeSort before, List.mergeSort_perm _ _, ?_, fun sizes => ?_⟩
  · -- Edges were recorded in ascending order, which sorting keeps where positions are equal.
    have recorded : (elementEdges graph slot).Pairwise (· < ·) :=
      List.Pairwise.filter _ List.pairwise_lt_range'
    exact pairwise_mergeSort_key (elementPosition graph) recorded
  · -- Sorting the entries by their positions sorts the edges that they were made of.
    have together := List.map_mergeSort (r := before) (l := elementEdges graph slot)
      (s := fun one other => one.1 ≤ other.1)
      (f := fun edge => (elementPosition graph edge, Listing.showElement graph sizes edge))
      fun _ _ _ _ => rfl
    rw [elements_eq, ← together, List.map_map]
    rfl

/-- The fields of an object are those of a listing, whatever the sizes and the layout are. -/
theorem exists_listing (made : graph.Made) (within : slot < graph.objectCount) :
    ∃ listing : Listing, listing.Orderly graph slot ∧ ∀ sizes layout,
      fields graph sizes layout slot = listing.fields graph sizes layout slot := by
  obtain ⟨given, left, declared, matched, assigned⟩ := exists_matched (Source.name graph)
    ((nodup_sources graph slot).filter (·.isNamed graph))
    (declaredNames graph (graph.classOf slot))
  obtain ⟨edges, elements, sorted, shown⟩ := exists_sorted graph slot
  refine ⟨⟨given, left, edges⟩, ⟨declared, matched, elements, sorted⟩, fun sizes layout => ?_⟩
  -- The listing knows neither sizes nor types, which come in only where an entry is shown.
  rw [fields, shown, named_eq made within, namedSources, assigned _ fun _ => rfl, Listing.fields,
    Listing.named]
  dsimp only
  rw [List.map_append, List.map_map, List.map_map, List.map_map]
  congr 2
  refine List.map_congr_left fun entry _ => ?_
  obtain ⟨name, found⟩ := entry
  cases found <;> rfl

/-- A listing shows everything that was recorded. -/
theorem Listing.Orderly.shown_perm {listing : Listing} (orderly : listing.Orderly graph slot) :
    listing.shown.Perm (sources graph slot) := by
  -- What has a name is shown under it, and what has none is an array element.
  have named := orderly.matched.perm ((nodup_sources graph slot).filter _)
  have elements : (listing.elements.map Source.edge).Perm
      ((sources graph slot).filter fun source => !source.isNamed graph) := by
    -- Primitive fields are no array elements.
    have fields : ((graph.primitives.positions slot).map Source.primitive).filter
        (fun source => !source.isNamed graph) = [] := by
      simp [Source.isNamed]
    rw [sources, List.filter_append, fields, List.append_nil, List.filter_map]
    exact orderly.elements.map Source.edge
  exact (named.append elements).trans (List.filter_append_perm _ _)

/-- What was recorded is not null. -/
theorem Source.value_ne_null (graph : HeapGraph) (sizes : RetainedSizes) (source : Source) :
    source.value graph sizes ≠ .null := by
  cases source with
  | edge position =>
    rw [Source.value, referenceValue]
    -- A reference leads to an object or dangles, and neither is shown as null.
    split <;> exact nofun
  | primitive position => exact nofun

/-- A named entry is null when nothing was recorded for it. -/
theorem Listing.value_showNamed_eq_null_iff (graph : HeapGraph) (sizes : RetainedSizes)
    (layout : Option ClassLayout) (slot : Slot) (entry : String × Option Source) :
    (showNamed graph sizes layout slot entry).value = .null ↔ entry.2 = none := by
  obtain ⟨name, found⟩ := entry
  cases found with
  | none => simp [showNamed]
  | some source => simpa [showNamed] using source.value_ne_null graph sizes

/--
The fields of an object are those that its classes declare, then other named ones, then elements.

The classes are all above the object's class, each once. Of all that was recorded everything is
shown, once, and only entries that show none of it are null.
-/
theorem fields_eq_listing (made : graph.Made) (within : slot < graph.objectCount) :
    graph.Ancestry (graph.classOf slot) (classChain graph (graph.classOf slot)) ∧
      ∃ listing : Listing, listing.Orderly graph slot ∧
        listing.shown.Perm (sources graph slot) ∧ (sources graph slot).Nodup ∧
        ∀ sizes layout, fields graph sizes layout slot = listing.fields graph sizes layout slot ∧
          (∀ entry ∈ listing.named graph,
            (Listing.showNamed graph sizes layout slot entry).value = .null ↔ entry.2 = none) ∧
          ∀ edge ∈ listing.elements, (Listing.showElement graph sizes edge).value ≠ .null := by
  refine ⟨made.ancestry_classChain (made.classOf_lt within), ?_⟩
  obtain ⟨listing, orderly, shows⟩ := exists_listing made within
  refine ⟨listing, orderly, orderly.shown_perm, nodup_sources graph slot, fun sizes layout => ?_⟩
  -- Only a name that nothing was matched to is shown without a value.
  refine ⟨shows sizes layout, fun entry _ => ?_, fun edge _ => ?_⟩
  · exact Listing.value_showNamed_eq_null_iff graph sizes layout slot entry
  · exact Source.value_ne_null graph sizes (.edge edge)

/-- In the circle a field of the lower class has the name of an upper one and takes what is left. -/
theorem Listing.Orderly.eq_of_circle {listing : Listing}
    (orderly : listing.Orderly Columns.circle.resolved 0) :
    listing = ⟨[("next", some (.edge 0)), ("id", none), ("next", some (.edge 2))],
      [.edge 4, .primitive 0], [3, 1]⟩ := by
  obtain ⟨declared, others, elements⟩ := listing
  obtain ⟨names, matched, perm, sorted⟩ := orderly
  dsimp only at names matched perm sorted
  have three : declared.map (·.1) = ["next", "id", "next"] := names.trans (by decide +kernel)
  obtain ⟨⟨_, upper⟩, _, rfl, rfl, two⟩ := List.map_eq_cons_iff.mp three
  obtain ⟨⟨_, missing⟩, _, rfl, rfl, one⟩ := List.map_eq_cons_iff.mp two
  obtain ⟨⟨_, lower⟩, _, rfl, rfl, zero⟩ := List.map_eq_cons_iff.mp one
  obtain rfl := List.map_eq_nil_iff.mp zero
  -- Every name takes the first value of its name that is left.
  obtain rfl : upper = some (.edge 0) := (matched.first [] _ _ _ rfl).trans (by decide +kernel)
  obtain rfl : missing = none := (matched.first [_] _ _ _ rfl).trans (by decide +kernel)
  obtain rfl : lower = some (.edge 2) :=
    (matched.first [_, _] _ _ _ rfl).trans (by decide +kernel)
  obtain rfl : others = [.edge 4, .primitive 0] := matched.left_eq.trans (by decide +kernel)
  -- The elements were recorded the other way round.
  have recorded : elementEdges Columns.circle.resolved 0 = [1, 3] := by decide +kernel
  have turned : [3, 1].Pairwise (Precedes Columns.circle.resolved) :=
    List.pairwise_pair.mpr (.inl (by decide +kernel))
  rw [recorded] at perm
  have same := (perm.trans (List.Perm.swap 3 1 [])).eq_of_pairwise
    (fun one other _ _ less more => by unfold Precedes at less more; omega) sorted turned
  rw [same]

/-- The circle's first object shows two references of one name, and nothing under another one. -/
theorem circle_fields_eq_listing :
    Columns.circle.resolved.Made ∧ 0 < Columns.circle.resolved.objectCount ∧
      ∀ sizes layout, (fields Columns.circle.resolved sizes layout 0).map
          (fun field => (field.name, field.value)) =
        [("next", referenceValue Columns.circle.resolved sizes 0), ("id", .null),
          ("next", referenceValue Columns.circle.resolved sizes 2),
          ("extra", referenceValue Columns.circle.resolved sizes 4),
          ("size", .primitive (.int (-3))),
          ("[0]", referenceValue Columns.circle.resolved sizes 3),
          ("[1]", referenceValue Columns.circle.resolved sizes 1)] := by
  have within : 0 < Columns.circle.resolved.objectCount := by decide +kernel
  obtain ⟨_, listing, orderly, _, _, shows⟩ := fields_eq_listing HeapGraph.made_circle within
  -- Of the circle only names and one primitive are computed; the rest is the general listing.
  have names : [Source.edge 4, .primitive 0, .edge 3, .edge 1].map
      (Source.name Columns.circle.resolved) = ["extra", "size", "[0]", "[1]"] := by decide +kernel
  have size : (Columns.circle.resolved.primitiveAt 0).value = .int (-3) := by decide +kernel
  refine ⟨HeapGraph.made_circle, within, fun sizes layout => ?_⟩
  rw [(shows sizes layout).1, orderly.eq_of_circle]
  simp only [List.map_cons, List.map_nil, List.cons.injEq, and_true] at names
  simp [Listing.fields, Listing.named, Listing.showNamed, Listing.showElement, Source.value, names,
    size]

end Inspect

end HeapAtlas
