import HeapAtlas.Proofs.Graph.Calls
import HeapAtlas.Snapshot.Encode

/-! What calls leave in a builder decides what is built, in whatever order they were made. -/

namespace HeapAtlas

namespace HeapCall

/-- Calls that put in the same last record of every class and object, and the same roots in the same
order. -/
structure SameContent (one other : List HeapCall) : Prop where
  classes : ∀ id, latest? (one.filterMap class?) id = latest? (other.filterMap class?) id
  objects : ∀ id, latest? (one.filterMap object?) id = latest? (other.filterMap object?) id
  roots : one.filterMap root? = other.filterMap root?

/-- Calls come to the same records exactly when they have the same content. -/
theorem records_eq_iff {one other : List HeapCall} :
    records one = records other ↔ SameContent one other := by
  -- The latest of each identifier are equal exactly when every identifier has the same.
  rw [records, records, HeapRecords.mk.injEq, latest_eq_iff, latest_eq_iff]
  constructor
  · intro same
    exact ⟨same.1, same.2.1, same.2.2⟩
  · intro same
    exact ⟨same.classes, same.objects, same.roots⟩

end HeapCall

namespace HeapBuilder

/-- Nothing of a builder but its records goes into what is built, not even how it stores them. -/
theorem build_congr {one other : HeapBuilder} (same : one.records = other.records) :
    one.build = other.build := by
  simp only [records, HeapRecords.mk.injEq] at same
  obtain ⟨classes, objects, roots⟩ := same
  -- The names are interned in the order of the records, which is that of their identifiers.
  have columns : one.columns = other.columns := by
    rw [HeapBuilder.columns, HeapBuilder.columns, classes, objects, Array.toList_inj.mp roots]
  rw [build, build, columns]

/-- What was built holds the records of the builder, however many there are. -/
theorem holds_of_build {builder : HeapBuilder} {graph : HeapGraph}
    (built : builder.build = .ok graph) (ascend : builder.records.Ascend) :
    graph.Holds builder.records := by
  obtain ⟨columns, staged, resolved⟩ := bind_eq_ok_iff.mp built
  obtain ⟨faultless, rfl⟩ := Columns.ofColumns_eq_ok_iff.mp resolved
  -- Columns that pass the check hold the records, and resolving them keeps what they hold.
  have spec := builder.columns_spec
  rw [staged] at spec
  exact spec.2.resolved faultless ascend

/-- Every class, object and root of the calls is read back from what they build. -/
theorem sameContent_of_build {one other : List HeapCall} {graph : HeapGraph}
    (here : (ofCalls one).build = .ok graph) (there : (ofCalls other).build = .ok graph) :
    HeapCall.SameContent one other := by
  -- A heap that was built tells its records, so the same heap tells the same ones.
  have holds (calls : List HeapCall) (built : (ofCalls calls).build = .ok graph) :
      graph.Holds (HeapCall.records calls) := by
    rw [← records_ofCalls]
    exact holds_of_build built (by rw [records_ofCalls]; exact HeapCall.ascend_records calls)
  have first := holds one here
  have second := holds other there
  refine ⟨fun id => ?_, fun id => ?_, first.roots.symm.trans second.roots⟩
  · rw [← HeapCall.class?_records, ← HeapCall.class?_records, ← first.classes, second.classes]
  · rw [← HeapCall.object?_records, ← HeapCall.object?_records, ← first.objects, second.objects]

/--
Calls with the same content build the same, be it the same first fault or the same heap in every
column, and so the same snapshot is written; and only such calls build the same heap.
-/
theorem build_of_sameContent (one other : List HeapCall) :
    (HeapCall.SameContent one other →
      (ofCalls one).build = (ofCalls other).build ∧
      (ofCalls one).build.map Snapshot.encode = (ofCalls other).build.map Snapshot.encode) ∧
    ∀ graph, (ofCalls one).build = .ok graph →
      ((ofCalls other).build = .ok graph ↔ HeapCall.SameContent one other) := by
  -- The build reads nothing of the calls but the records that they come to.
  have same (content : HeapCall.SameContent one other) :
      (ofCalls one).build = (ofCalls other).build := by
    apply build_congr
    rw [records_ofCalls, records_ofCalls]
    exact HeapCall.records_eq_iff.mpr content
  refine ⟨fun content => ⟨same content, by rw [same content]⟩, fun graph built => ?_⟩
  constructor
  · intro again
    exact sameContent_of_build built again
  · intro content
    rw [← same content, built]

/-- The same heap as `replacing` makes, put in from the first to the last with the root in front,
and the class first under a name that nothing else has. -/
def rearranged : List HeapCall :=
  [.addRoot ⟨1⟩ .javaFrame,
    .insertClass ⟨1⟩ ⟨"Draft", some ⟨7⟩, []⟩,
    .insertClass ⟨1⟩ ⟨"Node", none, ["next", "count"]⟩,
    .insertObject ⟨1⟩ ⟨⟨1⟩, 16, [], []⟩,
    .insertObject ⟨2⟩ ⟨⟨1⟩, 32, [.ofField "next" ⟨1⟩, .ofElement 1 ⟨9⟩], [⟨"count", .int (-3)⟩]⟩]

/-- Neither the replaced position nor the replaced name leaves a trace, and one more root does. -/
theorem build_rearranged :
    ∃ graph, (ofCalls replacing).build = .ok graph ∧ (ofCalls rearranged).build = .ok graph ∧
      (ofCalls (rearranged ++ [.addRoot ⟨1⟩ .javaFrame])).build ≠ .ok graph := by
  have same : HeapCall.SameContent replacing rearranged := by
    refine HeapCall.records_eq_iff.mp ?_
    rw [HeapCall.records, HeapCall.records, HeapRecords.mk.injEq]
    decide +kernel
  obtain ⟨equal, _⟩ := (build_of_sameContent replacing rearranged).1 same
  -- Nothing is at fault with the records, so that there is a heap to compare.
  have silent : (HeapCall.records replacing).faults = [] := by decide +kernel
  have spec := (ofCalls replacing).build_spec
  rw [records_ofCalls, silent] at spec
  replace spec := spec (HeapCall.ascend_records _) (by decide +kernel) (by decide +kernel)
  cases built : (ofCalls replacing).build with
  | error fault =>
    rw [built] at spec
    cases spec
  | ok graph =>
    refine ⟨graph, rfl, equal.symm.trans built, fun again => ?_⟩
    have content := ((build_of_sameContent replacing _).2 graph built).mp again
    exact absurd content.roots (by decide +kernel)

end HeapBuilder

end HeapAtlas
