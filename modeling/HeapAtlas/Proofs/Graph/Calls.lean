import HeapAtlas.Proofs.Graph.Made
import HeapAtlas.Proofs.Graph.ReadBack
import HeapAtlas.Proofs.Latest

/-! Building a heap by calls: what the calls come to, when they make up a heap, and which. -/

namespace HeapAtlas

/-- A call that puts a record into a builder or adds a root. -/
inductive HeapCall where
  | insertClass (id : ClassId) (info : ClassInfo)
  | insertObject (id : ObjectId) (record : ObjectRecord)
  | addRoot (object : ObjectId) (kind : RootKind)
  deriving DecidableEq, Repr

namespace HeapCall

/-- The class that a call puts in. -/
def class? : HeapCall → Option (ClassId × ClassInfo)
  | insertClass id info => some (id, info)
  | _ => none

/-- The object that a call puts in. -/
def object? : HeapCall → Option (ObjectId × ObjectRecord)
  | insertObject id record => some (id, record)
  | _ => none

/-- The root that a call adds. -/
def root? : HeapCall → Option GcRoot
  | addRoot object kind => some ⟨object, kind⟩
  | _ => none

/-- What calls come to: the last record of each class and object, and all roots in their order. -/
def records (calls : List HeapCall) : HeapRecords where
  classes := latest (calls.filterMap class?)
  objects := latest (calls.filterMap object?)
  roots := calls.filterMap root?

/-- The record of a class is the last one that was put in for it. -/
theorem class?_records (calls : List HeapCall) (id : ClassId) :
    (records calls).class? id = latest? (calls.filterMap class?) id := lookup_latest _ _

/-- The record of an object is the last one that was put in for it. -/
theorem object?_records (calls : List HeapCall) (id : ObjectId) :
    (records calls).object? id = latest? (calls.filterMap object?) id := lookup_latest _ _

/-- The records that count stand in ascending order. -/
theorem ascend_records (calls : List HeapCall) : (records calls).Ascend where
  classes := List.pairwise_map.mpr
    ((latest_ascend (calls.filterMap class?)).imp (Std.compare_eq_lt (α := UInt64)).mp)
  objects := List.pairwise_map.mpr
    ((latest_ascend (calls.filterMap object?)).imp (Std.compare_eq_lt (α := UInt64)).mp)

end HeapCall

namespace HeapBuilder

/-- A builder after one more call. -/
def call (builder : HeapBuilder) : HeapCall → HeapBuilder
  | .insertClass id info => builder.insertClass id info
  | .insertObject id record => builder.insertObject id record
  | .addRoot object kind => builder.addRoot object kind

/-- A builder after some calls, the first of which finds it empty. -/
def ofCalls (calls : List HeapCall) : HeapBuilder := calls.foldl call empty

/-- Calls of one kind leave alone what the other kinds put in. -/
theorem foldl_call (calls : List HeapCall) (builder : HeapBuilder) :
    (calls.foldl call builder).classes = (calls.filterMap HeapCall.class?).foldl
        (fun map pair => map.insert pair.1 pair.2) builder.classes ∧
      (calls.foldl call builder).objects = (calls.filterMap HeapCall.object?).foldl
        (fun map pair => map.insert pair.1 pair.2) builder.objects ∧
      (calls.foldl call builder).roots.toList =
        builder.roots.toList ++ calls.filterMap HeapCall.root? := by
  -- The induction is on the calls, each of which adds to one of the three and leaves the others.
  induction calls generalizing builder with
  | nil => simp
  | cons first rest ih =>
    rw [List.foldl_cons]
    obtain ⟨classes, objects, roots⟩ := ih (builder.call first)
    cases first with
    | insertClass id info => exact ⟨classes, objects, roots⟩
    | insertObject id record => exact ⟨classes, objects, roots⟩
    | addRoot object kind =>
      refine ⟨classes, objects, ?_⟩
      rw [roots]
      simp [call, addRoot, HeapCall.root?]

/-- A builder keeps what the calls come to. -/
theorem records_ofCalls (calls : List HeapCall) :
    (ofCalls calls).records = HeapCall.records calls := by
  obtain ⟨classes, objects, roots⟩ := foldl_call calls empty
  rw [records, ofCalls, classes, objects, roots, HeapCall.records, ← toList_foldl_insert,
    ← toList_foldl_insert]
  rfl

/-- A heap holds the records that it was built from, or the first of their faults is told. -/
theorem build_spec (builder : HeapBuilder) (ascend : builder.records.Ascend)
    (names : builder.records.names.toFinset.card < labelLimit)
    (objects : builder.records.objects.length < slotLimit) :
    match builder.build with
    | .ok graph => builder.records.faults = [] ∧ graph.Holds builder.records
    | .error fault => builder.records.faults.head? = some fault := by
  have staged := builder.columns_spec
  rw [build]
  cases result : builder.columns with
  | error fault =>
    -- A position was refused, and positions come before everything else.
    rw [result] at staged
    show builder.records.faults.head? = some fault
    rw [HeapRecords.faults, List.head?_append, staged]
    rfl
  | ok columns =>
    rw [result] at staged
    obtain ⟨small, holds⟩ := staged
    have rest := holds.fault?_eq ascend names objects
    show match HeapGraph.ofColumns columns with
      | .ok graph => builder.records.faults = [] ∧ graph.Holds builder.records
      | .error fault => builder.records.faults.head? = some fault
    rw [HeapRecords.faults, small, List.nil_append, HeapGraph.ofColumns]
    cases found : columns.fault? with
    | some fault => exact rest.symm.trans found
    | none =>
      rw [found] at rest
      exact ⟨List.head?_eq_none_iff.mp rest.symm,
        holds.resolved (Columns.fault?_eq_none_iff.mp found) ascend⟩

/--
Calls make up a heap exactly when their records are sound, and then the heap holds these records:
each class and object is read back as it was last put in. Otherwise the first of all faults is told.
-/
theorem build_ofCalls (calls : List HeapCall)
    (names : (HeapCall.records calls).names.toFinset.card < labelLimit)
    (objects : (HeapCall.records calls).objects.length < slotLimit) :
    ((∃ graph, (ofCalls calls).build = .ok graph) ↔ (HeapCall.records calls).Sound) ∧
      (∀ graph, (ofCalls calls).build = .ok graph →
        graph.Holds (HeapCall.records calls) ∧
        (∀ id, (graph.classSlotOf? id).map graph.classInfo =
          latest? (calls.filterMap HeapCall.class?) id) ∧
        ∀ id, (graph.slotOf? id).map graph.objectRecord =
          latest? (calls.filterMap HeapCall.object?) id) ∧
      ∀ fault, (ofCalls calls).build = .error fault ↔
        (HeapCall.records calls).faults.head? = some fault := by
  have ascend := HeapCall.ascend_records calls
  -- The builder keeps just what the calls come to.
  have spec := (ofCalls calls).build_spec
  rw [records_ofCalls] at spec
  replace spec := spec ascend names objects
  rw [← ascend.faults_eq_nil_iff]
  cases result : (ofCalls calls).build with
  | ok graph =>
    rw [result] at spec
    obtain ⟨silent, holds⟩ := spec
    have classes (id : ClassId) := (holds.classes id).trans (HeapCall.class?_records calls id)
    have objects (id : ObjectId) := (holds.objects id).trans (HeapCall.object?_records calls id)
    rw [silent]
    simpa using ⟨holds, classes, objects⟩
  | error fault =>
    rw [result] at spec
    -- With a fault to tell there are some, and the records are not sound.
    have some_ : (HeapCall.records calls).faults ≠ [] := by
      intro silent
      rw [silent] at spec
      cases spec
    simp [some_, spec]

/-- Two objects and their class, put in from the last to the first and one object twice. -/
def replacing : List HeapCall :=
  [.insertObject ⟨2⟩ ⟨⟨1⟩, 24, [.ofElement labelLimit ⟨2⟩], []⟩,
    .addRoot ⟨1⟩ .javaFrame,
    .insertObject ⟨2⟩ ⟨⟨1⟩, 32, [.ofField "next" ⟨1⟩, .ofElement 1 ⟨9⟩], [⟨"count", .int (-3)⟩]⟩,
    .insertObject ⟨1⟩ ⟨⟨1⟩, 16, [], []⟩,
    .insertClass ⟨1⟩ ⟨"Node", none, ["next", "count"]⟩]

/-- The large position that was replaced does no harm, but a root without an object does. -/
theorem build_replacing :
    (∃ graph, (ofCalls replacing).build = .ok graph ∧
        graph.Holds (HeapCall.records replacing)) ∧
      (ofCalls (replacing ++ [.addRoot ⟨9⟩ .unknown])).build = .error (.unknownRoot ⟨9⟩) := by
  constructor
  · -- Only the second record of the object counts, so that nothing is at fault.
    obtain ⟨built, holds, _⟩ := build_ofCalls replacing (by decide +kernel) (by decide +kernel)
    have sound : (HeapCall.records replacing).Sound :=
      (HeapCall.ascend_records _).faults_eq_nil_iff.mp (by decide +kernel)
    obtain ⟨graph, done⟩ := built.mpr sound
    exact ⟨graph, done, (holds graph done).1⟩
  · obtain ⟨_, _, refused⟩ := build_ofCalls (replacing ++ [.addRoot ⟨9⟩ .unknown])
      (by decide +kernel) (by decide +kernel)
    exact (refused _).mpr (by decide +kernel)

end HeapBuilder

end HeapAtlas
