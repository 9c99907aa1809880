import Mathlib.Algebra.Order.BigOperators.Group.Finset
import Mathlib.Algebra.Order.Group.Nat
import HeapAtlas.Graph.Access
import HeapAtlas.Proofs.BitSet.Marks
import HeapAtlas.Proofs.Graph.Incoming
import HeapAtlas.Proofs.Graph.Resolved
import HeapAtlas.Proofs.Snapshot.Columns

/-! Heaps as they come about: what their references, their mirror and their roots keep to. -/

namespace HeapAtlas

namespace HeapGraph

/-- A heap comes about in two ways: it is built from records, or read from a snapshot. -/
inductive Made : HeapGraph → Prop where
  | built {builder : HeapBuilder} {graph : HeapGraph} (done : builder.build = .ok graph) :
    Made graph
  | decoded {bytes : Bytes} {graph : HeapGraph} (done : Snapshot.decode bytes = .ok graph) :
    Made graph

/-- Behind every heap stand aligned columns without a fault. -/
theorem Made.exists_columns {graph : HeapGraph} (made : graph.Made) :
    ∃ columns : Columns, columns.Aligned ∧ columns.Faultless ∧ graph = columns.resolved := by
  -- Both ways end by resolving columns, after the search for a fault was silent.
  cases made with
  | built done =>
    obtain ⟨columns, staged, resolved⟩ := bind_eq_ok_iff.mp done
    exact ⟨columns, HeapBuilder.columns_aligned staged, Columns.ofColumns_eq_ok_iff.mp resolved⟩
  | decoded done =>
    obtain ⟨tables, columns, _, spell, faultless, resolved⟩ := Snapshot.decode_eq_ok_iff.mp done
    exact ⟨columns, spell.aligned, faultless, resolved⟩

/-- A reference, told by its position among all of them, leads from one object to another. -/
def Refers (graph : HeapGraph) (edge : Nat) (source target : Slot) : Prop :=
  edge ∈ graph.outEdges source ∧ (graph.edgeAt edge).target = some target

end HeapGraph

namespace Columns

variable {columns : Columns}

/-- The resolved references are tiled as the records were. -/
theorem Aligned.tiled_edges_resolved (aligned : columns.Aligned) :
    columns.resolved.edges.Tiled columns.resolved.objectCount := by
  rw [objectCount_resolved]
  exact aligned.edges.map _

/-- An object that was found is one of the heap's. -/
theorem Faultless.objectSlot?_lt (faultless : columns.Faultless) {id : ObjectId} {slot : Slot}
    (found : columns.objectSlot? columns.slotIndex id = some slot) :
    slot < columns.resolved.objectCount := by
  obtain ⟨row, held, _⟩ := faultless.objectSlot?_sound found
  rw [objectCount_resolved]
  exact (Array.getElem?_eq_some_iff.mp held).1

/-- What arrives somewhere arrives at an object of the heap. -/
theorem Faultless.arrivals_lt (faultless : columns.Faultless) :
    ∀ pair ∈ arrivals columns.resolved.edges, pair.1 < columns.resolved.objectCount := by
  intro pair member
  obtain ⟨_, _, leads⟩ := mem_arrivals.mp member
  obtain ⟨entry, held, leads⟩ := Option.bind_eq_some_iff.mp leads
  -- A resolved reference leads to the slot where its target was found.
  have resolved : (columns.edges.map _).items[pair.2.edge]? = some entry := held
  rw [Ragged.map, Array.getElem?_map] at resolved
  obtain ⟨row, _, rfl⟩ := Option.map_eq_some_iff.mp resolved
  exact faultless.objectSlot?_lt leads

end Columns

namespace HeapGraph.Made

variable {graph : HeapGraph}

/-- There is a group of references for every object. -/
theorem tiled_edges (made : graph.Made) : graph.edges.Tiled graph.objectCount := by
  obtain ⟨columns, aligned, _, rfl⟩ := made.exists_columns
  exact aligned.tiled_edges_resolved

/-- There is a group of arrivals for every object, and it is what arrives there. -/
theorem incoming_eq (made : graph.Made) :
    graph.incoming.Tiled graph.objectCount ∧ ∀ target < graph.objectCount,
      graph.inEdges target = arrivalsAt graph.edges target := by
  obtain ⟨columns, aligned, faultless, rfl⟩ := made.exists_columns
  -- The mirror was made from the resolved references, as many groups as there are objects.
  have sorted := filled_incomingOf aligned.tiled_edges_resolved faultless.arrivals_lt
  rw [Columns.objectCount_resolved] at sorted ⊢
  exact sorted

/-- Only objects of the heap refer to something. -/
theorem source_lt (made : graph.Made) {source target : Slot}
    (refers : target ∈ graph.referents source) : source < graph.objectCount := by
  -- A group that holds a reference belongs to an object.
  obtain ⟨columns, aligned, _, rfl⟩ := made.exists_columns
  obtain ⟨edge, member, _⟩ := List.mem_filterMap.mp refers
  exact aligned.tiled_edges_resolved.lt_of_mem_group member

/-- References lead to objects of the heap. -/
theorem target_lt (made : graph.Made) {source target : Slot}
    (refers : target ∈ graph.referents source) : target < graph.objectCount := by
  obtain ⟨columns, _, faultless, rfl⟩ := made.exists_columns
  obtain ⟨edge, member, leads⟩ := List.mem_filterMap.mp refers
  -- A resolved reference leads to the slot where its target was found.
  rw [Columns.resolved, Ragged.group_map] at member
  obtain ⟨row, _, rfl⟩ := List.mem_map.mp member
  exact faultless.objectSlot?_lt leads

/-- The sources of an object's incoming references are the objects that refer to it. -/
theorem mem_inSources (made : graph.Made) {source target : Slot}
    (within : target < graph.objectCount) :
    source ∈ graph.inSources target ↔ target ∈ graph.referents source := by
  -- The mirror was made from the resolved references.
  obtain ⟨columns, aligned, faultless, rfl⟩ := made.exists_columns
  have inside := faultless.arrivals_lt
  rw [Columns.objectCount_resolved] at within inside
  exact mem_sources_incomingOf aligned.tiled_edges_resolved inside within

/-- The references that arrive at an object are those that lead to it. -/
theorem mem_inEdges (made : graph.Made) {target : Slot} (within : target < graph.objectCount)
    {arrival : InEdge} :
    arrival ∈ graph.inEdges target ↔ graph.Refers arrival.edge arrival.source target := by
  rw [made.incoming_eq.2 target within, arrivalsAt, mem_meantFor, mem_arrivals]
  -- Both say where the reference stands and where it leads; a missing one leads nowhere.
  unfold Refers edgeAt outEdges
  rw [Array.getD_eq_getD_getElem?]
  constructor
  · intro arrives
    obtain ⟨_, among, leads⟩ := arrives
    obtain ⟨entry, held, same⟩ := Option.bind_eq_some_iff.mp leads
    exact ⟨among, by simpa [held] using same⟩
  · intro refers
    obtain ⟨among, leads⟩ := refers
    cases held : graph.edges.items[arrival.edge]? with
    | none =>
      rw [held] at leads
      cases leads
    | some entry =>
      rw [held] at leads
      have inGroup : entry ∈ graph.edges.group arrival.source :=
        Ragged.mem_group.mpr ⟨arrival.edge, among, held⟩
      refine ⟨?_, among, leads⟩
      rw [made.tiled_edges.groupCount_eq]
      exact made.tiled_edges.lt_of_mem_group inGroup

/-- The references that arrive at an object are listed in the order of the edges, each once. -/
theorem inEdges_ascend (made : graph.Made) {target : Slot} (within : target < graph.objectCount) :
    ((graph.inEdges target).map (·.edge)).Pairwise (· < ·) := by
  rw [made.incoming_eq.2 target within]
  exact arrivalsAt_ascend made.tiled_edges target

/-- What a reference leads from and to are objects of the heap. -/
theorem lt_of_refers (made : graph.Made) {edge : Nat} {source target : Slot}
    (refers : graph.Refers edge source target) :
    source < graph.objectCount ∧ target < graph.objectCount ∧ edge < graph.edgeCount := by
  obtain ⟨among, leads⟩ := refers
  unfold edgeAt at leads
  rw [Array.getD_eq_getD_getElem?] at leads
  -- A reference that is not there leads nowhere.
  cases held : graph.edges.items[edge]? with
  | none =>
    rw [held] at leads
    cases leads
  | some entry =>
    rw [held] at leads
    have member : target ∈ graph.referents source :=
      List.mem_filterMap.mpr ⟨entry, Ragged.mem_group.mpr ⟨edge, among, held⟩, leads⟩
    exact ⟨made.source_lt member, made.target_lt member, (Array.getElem?_eq_some_iff.mp held).1⟩

/-- The class of an object is one of the heap's. -/
theorem classOf_lt (made : graph.Made) {slot : Slot} (within : slot < graph.objectCount) :
    graph.classOf slot < graph.classCount := by
  obtain ⟨columns, _, faultless, rfl⟩ := made.exists_columns
  rw [Columns.objectCount_resolved] at within
  have held := Array.getElem?_eq_getElem within
  -- The class of an object is found, as otherwise the records would be at fault.
  obtain ⟨found, lookup⟩ := Option.isSome_iff_exists.mp
    (faultless.objectClass_isSome _ (Array.getElem_mem within))
  obtain ⟨row, standing, _⟩ := Columns.classSlot?_sound lookup
  rw [classOf, Columns.objectAt_resolved held, lookup, Columns.classCount_resolved]
  exact (Array.getElem?_eq_some_iff.mp standing).1

/-- Objects stand in ascending order of their identifiers. -/
theorem objectId_lt (made : graph.Made) {one other : Slot} (less : one < other)
    (within : other < graph.objectCount) :
    (graph.objectId one).raw < (graph.objectId other).raw := by
  obtain ⟨columns, _, faultless, rfl⟩ := made.exists_columns
  rw [Columns.objectCount_resolved] at within
  have before : one < columns.objects.size := Nat.lt_trans less within
  -- The check of the columns compares neighbours; here any two are compared.
  have ascends := List.pairwise_iff_getElem.mp faultless.objects_ascend one other
    (by simpa using before) (by simpa using within) less
  rw [objectId, objectId, Columns.objectAt_resolved (Array.getElem?_eq_getElem before),
    Columns.objectAt_resolved (Array.getElem?_eq_getElem within)]
  simpa using ascends

/-- Roots are objects of the heap. -/
theorem root_lt (made : graph.Made) {slot : Slot} {kind : RootKind}
    (root : (slot, kind) ∈ graph.roots) : slot < graph.objectCount := by
  obtain ⟨columns, _, faultless, rfl⟩ := made.exists_columns
  obtain ⟨held, member, equal⟩ := Array.mem_map.mp root
  cases equal
  -- The object of a root is found, as otherwise the records would be at fault.
  obtain ⟨found, lookup⟩ := Option.isSome_iff_exists.mp (faultless.root_isSome held member)
  simpa [lookup] using faultless.objectSlot?_lt lookup

/-- The marks of the roots are on the objects in the list of roots. -/
theorem isRoot_iff (made : graph.Made) {slot : Slot} :
    graph.isRoot slot = true ↔ ∃ kind, (slot, kind) ∈ graph.roots := by
  obtain ⟨columns, _, _, rfl⟩ := made.exists_columns
  -- The marks are made root by root, beginning with none.
  have mask : columns.resolved.rootMask = columns.resolved.roots.toList.foldl
      (fun mask root => mask.mark root.1) (.ofCount columns.objects.size) := by
    rw [Array.foldl_toList]
    rfl
  rw [isRoot, mask, DenseBitSet.test_foldl_mark, DenseBitSet.test_ofCount]
  simp only [Bool.false_eq_true, or_false, Array.mem_toList_iff]
  constructor
  · intro marked
    obtain ⟨⟨root, kind⟩, member, rfl⟩ := marked
    exact ⟨kind, member⟩
  · intro listed
    obtain ⟨kind, member⟩ := listed
    exact ⟨(slot, kind), member, rfl⟩

/-- There are no more references that lead somewhere than references. -/
theorem sum_length_referents_le (made : graph.Made) :
    ∑ slot ∈ Finset.range graph.objectCount, (graph.referents slot).length ≤ graph.edgeCount := by
  obtain ⟨columns, aligned, _, rfl⟩ := made.exists_columns
  -- The groups hold all references, and some of these dangle.
  rw [edgeCount, ← aligned.tiled_edges_resolved.sum_length_group]
  exact Finset.sum_le_sum fun slot _ => List.length_filterMap_le _ _

end HeapGraph.Made

/-- A root that refers into a ring of two, from which a reference dangles, and an object besides. -/
def HeapBuilder.ring : HeapBuilder :=
  ((((((HeapBuilder.empty.insertClass ⟨1⟩ ⟨"Node", none, []⟩).insertObject ⟨1⟩
    ⟨⟨1⟩, 16, [.ofElement 0 ⟨2⟩], []⟩).insertObject ⟨2⟩
    ⟨⟨1⟩, 24, [.ofElement 0 ⟨3⟩], []⟩).insertObject ⟨3⟩
    ⟨⟨1⟩, 32, [.ofElement 0 ⟨2⟩, .ofElement 1 ⟨9⟩], []⟩).insertObject ⟨4⟩
    ⟨⟨1⟩, 40, [.ofElement 0 ⟨3⟩], []⟩).addRoot ⟨1⟩ .javaFrame).addRoot ⟨1⟩ .jniLocal

/-- The columns of the ring. -/
def Columns.ring : Columns where
  names := ⟨#["Node"]⟩
  classes := #[⟨⟨1⟩, 0, none⟩]
  classFields := ⟨#[0, 0], #[]⟩
  objects := #[⟨⟨1⟩, ⟨1⟩, 16⟩, ⟨⟨2⟩, ⟨1⟩, 24⟩, ⟨⟨3⟩, ⟨1⟩, 32⟩, ⟨⟨4⟩, ⟨1⟩, 40⟩]
  edges := ⟨#[0, 1, 2, 4, 5], #[⟨⟨2⟩, .element 0, 0⟩, ⟨⟨3⟩, .element 0, 0⟩, ⟨⟨2⟩, .element 0, 0⟩,
    ⟨⟨9⟩, .element 1, 0⟩, ⟨⟨3⟩, .element 0, 0⟩]⟩
  primitives := ⟨#[0, 0, 0, 0, 0], #[]⟩
  roots := #[⟨⟨1⟩, .javaFrame⟩, ⟨⟨1⟩, .jniLocal⟩]

/-- The ring can be built. -/
theorem HeapBuilder.build_ring : HeapBuilder.ring.build = .ok Columns.ring.resolved := by
  have classes : ring.classes.toList = [(⟨1⟩, ⟨"Node", none, []⟩)] := rfl
  have objects : ring.objects.toList = [(⟨1⟩, ⟨⟨1⟩, 16, [.ofElement 0 ⟨2⟩], []⟩),
    (⟨2⟩, ⟨⟨1⟩, 24, [.ofElement 0 ⟨3⟩], []⟩),
    (⟨3⟩, ⟨⟨1⟩, 32, [.ofElement 0 ⟨2⟩, .ofElement 1 ⟨9⟩], []⟩),
    (⟨4⟩, ⟨⟨1⟩, 40, [.ofElement 0 ⟨3⟩], []⟩)] := rfl
  -- The one name is interned by a hash that is not known, which the table does not show.
  have index : (Interner.empty.intern "Node").1 = 0 := by
    simp [Interner.intern, Interner.empty, NameTable.empty, NameTable.size]
  have table : (Interner.empty.intern "Node").2.table = ⟨#["Node"]⟩ := by
    simp [Interner.intern, Interner.empty, NameTable.empty, NameTable.push]
  -- Besides that name nothing is interned, so the rest is computed.
  have columns : ring.columns = .ok .ring := by
    rw [HeapBuilder.columns, classes, objects]
    simp only [List.foldl_cons, List.foldl_nil, Staging.stageClass, Staging.empty, index]
    generalize (Interner.empty.intern "Node").2 = interner at table ⊢
    obtain ⟨names, known⟩ := interner
    cases table
    rfl
  have faultless : Columns.ring.fault? = none := by decide +kernel
  rw [build, columns]
  show HeapGraph.ofColumns .ring = _
  rw [HeapGraph.ofColumns, faultless]

/-- The ring is a heap. -/
theorem HeapGraph.made_ring : Columns.ring.resolved.Made := .built HeapBuilder.build_ring

/-- Two classes above each other, the lower one of the same name as a third, and an object that
holds two fields of one name, elements from the last to the first and fields that no class
declares. -/
def HeapBuilder.circle : HeapBuilder :=
  ((((((HeapBuilder.empty.insertClass ⟨1⟩ ⟨"Base", some ⟨2⟩, ["next", "id"]⟩).insertClass ⟨2⟩
    ⟨"Node", some ⟨1⟩, ["next"]⟩).insertClass ⟨3⟩ ⟨"Node", none, []⟩).insertObject ⟨1⟩
    ⟨⟨2⟩, 16, [.ofField "next" ⟨2⟩, .ofElement 1 ⟨9⟩, .ofField "next" ⟨1⟩, .ofElement 0 ⟨2⟩,
      .ofField "extra" ⟨2⟩], [⟨"size", .int (-3)⟩]⟩).insertObject ⟨2⟩
    ⟨⟨3⟩, 24, [], []⟩).insertObject ⟨3⟩ ⟨⟨1⟩, 40, [], []⟩).addRoot ⟨1⟩ .javaFrame

/-- The columns of the circle. -/
def Columns.circle : Columns where
  names := ⟨#["Base", "next", "id", "Node", "extra", "size"]⟩
  classes := #[⟨⟨1⟩, 0, some ⟨2⟩⟩, ⟨⟨2⟩, 3, some ⟨1⟩⟩, ⟨⟨3⟩, 3, none⟩]
  classFields := ⟨#[0, 2, 3, 3], #[1, 2, 1]⟩
  objects := #[⟨⟨1⟩, ⟨2⟩, 16⟩, ⟨⟨2⟩, ⟨3⟩, 24⟩, ⟨⟨3⟩, ⟨1⟩, 40⟩]
  edges := ⟨#[0, 5, 5, 5], #[⟨⟨2⟩, .name 1, 1⟩, ⟨⟨9⟩, .element 1, 0⟩, ⟨⟨1⟩, .name 1, 1⟩,
    ⟨⟨2⟩, .element 0, 0⟩, ⟨⟨2⟩, .name 4, 1⟩]⟩
  primitives := ⟨#[0, 1, 1, 1],
    #[⟨5, (PrimitiveValue.int (-3)).fieldType.tag, (PrimitiveValue.int (-3)).bits⟩]⟩
  roots := #[⟨⟨1⟩, .javaFrame⟩]

/-- The circle can be built. -/
theorem HeapBuilder.build_circle : HeapBuilder.circle.build = .ok Columns.circle.resolved := by
  have classes : circle.classes.toList = [(⟨1⟩, ⟨"Base", some ⟨2⟩, ["next", "id"]⟩),
    (⟨2⟩, ⟨"Node", some ⟨1⟩, ["next"]⟩), (⟨3⟩, ⟨"Node", none, []⟩)] := rfl
  have objects : circle.objects.toList = [(⟨1⟩,
    ⟨⟨2⟩, 16, [.ofField "next" ⟨2⟩, .ofElement 1 ⟨9⟩, .ofField "next" ⟨1⟩, .ofElement 0 ⟨2⟩,
      .ofField "extra" ⟨2⟩], [⟨"size", .int (-3)⟩]⟩), (⟨2⟩, ⟨⟨3⟩, 24, [], []⟩),
    (⟨3⟩, ⟨⟨1⟩, 40, [], []⟩)] := rfl
  -- What is looked up among the interned names is decided by what was put in.
  have columns : circle.columns = .ok .circle := by
    rw [HeapBuilder.columns, classes, objects]
    simp [Staging.stageClass, Staging.empty, Interner.intern, Interner.internAll, Interner.empty,
      NameTable.empty, NameTable.push, NameTable.size, Staging.stageObjects, Staging.stageObject,
      Staging.edgeRows, Staging.primitiveRows, bind, Except.bind, pure, Except.pure,
      EdgeRecord.ofField, EdgeRecord.ofElement, Std.HashMap.getElem_insert, labelLimit]
    rfl
  have faultless : Columns.circle.fault? = none := by decide +kernel
  rw [build, columns]
  show HeapGraph.ofColumns .circle = _
  rw [HeapGraph.ofColumns, faultless]

/-- The circle is a heap. -/
theorem HeapGraph.made_circle : Columns.circle.resolved.Made := .built HeapBuilder.build_circle

end HeapAtlas
