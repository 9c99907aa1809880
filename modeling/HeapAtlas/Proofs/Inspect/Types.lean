import HeapAtlas.Proofs.Inspect.Listing
import HeapAtlas.Proofs.Residency.Packed

/-! Declared types come from the nearest class that tells them, and change nothing but types. -/

namespace HeapAtlas

namespace ClassLayout

variable (layout : ClassLayout) (graph : HeapGraph)

/-- The type that a class itself is given for a field, by the first entry of the field's name. -/
def ownType? (field : String) (classSlot : Slot) : Option String :=
  ((layout.fields (graph.classId classSlot)).find? (·.name = field)).map (·.typeName)

/-- The type that the class so many steps above a class is given for a field. -/
def typeAt? (classSlot : Slot) (field : String) (steps : Nat) : Option String :=
  (graph.above? classSlot steps).bind (layout.ownType? graph field)

/-- A field has the type that the first class is given for it, on the way up from a class. -/
def Declares (classSlot : Slot) (field type : String) : Prop :=
  ∃ steps, layout.typeAt? graph classSlot field steps = some type ∧
    ∀ fewer < steps, layout.typeAt? graph classSlot field fewer = none

variable {layout graph} {classSlot : Slot} {field type : String}

/-- A walk up takes the type that is told where it begins, or else goes on with the next class. -/
theorem typeAbove_succ (room start : Nat) :
    layout.typeAbove graph field (room + 1) (graph.above? classSlot start) =
      (layout.typeAt? graph classSlot field start).or
        (layout.typeAbove graph field room (graph.above? classSlot (start + 1))) := by
  rw [typeAt?, HeapGraph.above?]
  -- Above the topmost class there is nothing to walk on to.
  cases graph.above? classSlot start with
  | none => cases room <;> rfl
  | some slot =>
    rw [Option.bind_some, Option.bind_some, typeAbove, ownType?]
    cases (layout.fields (graph.classId slot)).find? (·.name = field) <;> rfl

/-- Within its room the walk up gives the first type that is told. -/
theorem typeAbove_eq_some_iff {room start : Nat} :
    layout.typeAbove graph field room (graph.above? classSlot start) = some type ↔
      ∃ steps, start ≤ steps ∧ steps < start + room ∧
        layout.typeAt? graph classSlot field steps = some type ∧
        ∀ fewer, start ≤ fewer → fewer < steps →
          layout.typeAt? graph classSlot field fewer = none := by
  -- The induction is on the room; a type that is told where the walk begins ends it there.
  induction room generalizing start with
  | zero =>
    have empty : layout.typeAbove graph field 0 (graph.above? classSlot start) = none := by
      rw [typeAbove]
    rw [empty]
    constructor
    · exact nofun
    · rintro ⟨steps, from_, upto, _⟩
      omega
  | succ room ih =>
    rw [typeAbove_succ]
    cases here : layout.typeAt? graph classSlot field start with
    | some told =>
      rw [Option.some_or]
      constructor
      · intro same
        exact ⟨start, Nat.le_refl start, by omega, by rw [here, same], by omega⟩
      · rintro ⟨steps, from_, _, found, before⟩
        rcases Nat.eq_or_lt_of_le from_ with rfl | past
        · rw [← found, here]
        · rw [before start (Nat.le_refl start) past] at here
          cases here
    | none =>
      rw [Option.none_or, ih]
      constructor
      · rintro ⟨steps, from_, upto, found, before⟩
        refine ⟨steps, by omega, by omega, found, fun fewer later less => ?_⟩
        rcases Nat.eq_or_lt_of_le later with rfl | past
        · exact here
        · exact before fewer past less
      · rintro ⟨steps, from_, upto, found, before⟩
        rcases Nat.eq_or_lt_of_le from_ with rfl | past
        · rw [here] at found
          cases found
        · exact ⟨steps, past, by omega, found, fun fewer later => before fewer (by omega)⟩

/-- The walk up misses no class, however the superclasses lead. -/
theorem fieldType?_eq_some_iff (made : graph.Made) (within : classSlot < graph.classCount) :
    layout.fieldType? graph classSlot field = some type ↔
      layout.Declares graph classSlot field type := by
  have walk : layout.fieldType? graph classSlot field = some type ↔ _ :=
    @typeAbove_eq_some_iff layout graph classSlot field type (graph.classCount + 1) 0
  rw [walk]
  constructor
  · rintro ⟨steps, _, _, found, before⟩
    exact ⟨steps, found, fun fewer => before fewer (Nat.zero_le fewer)⟩
  · rintro ⟨steps, found, before⟩
    -- The class that tells the type is met within as many steps as there are classes.
    obtain ⟨slot, reached, own⟩ := Option.bind_eq_some_iff.mp found
    have ancestry := made.ancestry_classChain within
    obtain ⟨early, few, again⟩ := ancestry.exists_above? (ancestry.mem_of_above? reached)
    have told : layout.typeAt? graph classSlot field early = some type := by
      rw [typeAt?, again, Option.bind_some, own]
    have order : steps ≤ early := by
      by_contra later
      rw [before early (Nat.lt_of_not_le later)] at told
      cases told
    have upto := ancestry.length_le made within
    exact ⟨steps, Nat.zero_le steps, by omega, found, fun fewer _ => before fewer⟩

/-- If any class is given a type for a field, then a first one is. -/
theorem exists_declares {steps : Nat} {told : String}
    (found : layout.typeAt? graph classSlot field steps = some told) :
    ∃ type, layout.Declares graph classSlot field type := by
  induction steps using Nat.strongRecOn generalizing told with
  | ind steps ih =>
    -- If a class with fewer steps has a type too, the first one is looked for below it.
    by_cases first : ∀ fewer < steps, layout.typeAt? graph classSlot field fewer = none
    · exact ⟨told, steps, found, first⟩
    · obtain ⟨fewer, less, some_⟩ := by simpa using first
      obtain ⟨earlier, before⟩ := Option.ne_none_iff_exists'.mp some_
      exact ih fewer less before

/-- The walk up gives no type when no class is given one. -/
theorem fieldType?_eq_none_iff (made : graph.Made) (within : classSlot < graph.classCount) :
    layout.fieldType? graph classSlot field = none ↔
      ∀ steps, layout.typeAt? graph classSlot field steps = none := by
  constructor
  · -- A class that tells a type has a first class on the way that does.
    intro missed steps
    by_contra some_
    obtain ⟨told, here⟩ := Option.ne_none_iff_exists'.mp some_
    obtain ⟨type, first⟩ := exists_declares here
    rw [(fieldType?_eq_some_iff made within).mpr first] at missed
    cases missed
  · intro nowhere
    by_contra some_
    obtain ⟨type, found⟩ := Option.ne_none_iff_exists'.mp some_
    obtain ⟨steps, told, _⟩ := (fieldType?_eq_some_iff made within).mp found
    rw [nowhere steps] at told
    cases told

end ClassLayout

/-- A layout that cannot be read is as good as none. -/
theorem StoredSnapshot.analyse_of_error {text : Bytes} {fault : LayoutError}
    (unread : ClassLayout.parse text = .error fault) (unframe : Zstd.Unframer) (content : Bytes)
    (key : String) (options : AnalysisOptions) :
    StoredSnapshot.analyse unframe ⟨content, some text⟩ key options =
      StoredSnapshot.analyse unframe ⟨content, none⟩ key options := by
  -- The layout comes in at the very end, when the heap is analysed.
  have stored : ∀ graph, HeapAnalysis.ofStored graph (some text) options =
      HeapAnalysis.ofStored graph none options := by
    intro graph
    rw [HeapAnalysis.ofStored, Option.bind_some, unread]
    rfl
  simp only [analyse, stored]

namespace Inspect

variable {graph : HeapGraph} {slot : Slot}

/-- A named entry shows the declared type, or the recorded one if none is declared. -/
def TypeShown (graph : HeapGraph) (layout : Option ClassLayout) (classSlot : Slot)
    (name : String) (recorded shown : Option String) : Prop :=
  -- The last line is for a name that no class above declares.
  match layout with
  | none => shown = recorded
  | some layout =>
    (∃ type, layout.Declares graph classSlot name type ∧ shown = some type) ∨
      (∀ steps, layout.typeAt? graph classSlot name steps = none) ∧ shown = recorded

/-- One type is shown, and that is the one to show. -/
theorem typeShown_iff (made : graph.Made) {classSlot : Slot}
    (within : classSlot < graph.classCount) {layout : Option ClassLayout} {name : String}
    {recorded : Option FieldType} {shown : Option String} :
    TypeShown graph layout classSlot name (recorded.map FieldType.name) shown ↔
      shown = shownType graph layout classSlot name recorded := by
  cases layout with
  | none => exact Iff.rfl
  | some layout =>
    -- What the bounded walk finds is what some class on the whole way tells.
    rw [TypeShown, shownType, Option.bind_some, ← ClassLayout.fieldType?_eq_none_iff made within]
    simp only [← ClassLayout.fieldType?_eq_some_iff made within]
    cases layout.fieldType? graph classSlot name <;> simp

/--
Layouts change no names and no values of an object's fields, but only the types of named ones.

These are told by the nearest class above the object's class, however the superclasses lead, and
are the recorded ones if no class tells them. A layout that cannot be read changes nothing,
whatever takes the frames off a snapshot.
-/
theorem fields_of_layouts (made : graph.Made) (within : slot < graph.objectCount) :
    (∀ (sizes : RetainedSizes) (one other : Option ClassLayout),
      (fields graph sizes one slot).map (fun field => (field.name, field.value)) =
        (fields graph sizes other slot).map fun field => (field.name, field.value)) ∧
    (∃ listing : Listing, listing.Orderly graph slot ∧
      ∀ (sizes : RetainedSizes) (layout : Option ClassLayout),
      ∃ named elements : List FieldDescriptor,
        fields graph sizes layout slot = named ++ elements ∧
        List.Forall₂ (fun entry field => field.name = entry.1 ∧
            TypeShown graph layout (graph.classOf slot) entry.1
              ((entry.2.bind (·.type? graph)).map FieldType.name) field.declaredType)
          (listing.named graph) named ∧
        List.Forall₂ (fun edge field =>
            field.declaredType = (graph.edgeType? edge).map FieldType.name)
          listing.elements elements) ∧
    ∀ (σ τ : Type) [SnapshotSource σ] [SnapshotSource τ] (beside : σ) (bare : τ) (key : String)
      (content text : Bytes) (fault : LayoutError), ClassLayout.parse text = .error fault →
      (SnapshotSource.fetch beside key).1 = .ok ⟨content, some text⟩ →
      (SnapshotSource.fetch bare key).1 = .ok ⟨content, none⟩ →
      ∀ (unframe : Zstd.Unframer) (options : AnalysisOptions) (analyses : Array HeapAnalysis),
        (SnapshotCache.load unframe options key (beside, analyses)).1 =
            (SnapshotCache.load unframe options key (bare, analyses)).1 ∧
          (SnapshotCache.load unframe options key (beside, analyses)).2.2 =
            (SnapshotCache.load unframe options key (bare, analyses)).2.2 := by
  obtain ⟨listing, orderly, shows⟩ := exists_listing made within
  -- The listing is the same for every layout, which only adds the types.
  refine ⟨fun sizes one other => ?_, ⟨listing, orderly, fun sizes layout => ?_⟩, ?_⟩
  · rw [shows, shows, Listing.fields, Listing.fields]
    simp only [List.map_append, List.map_map]
    rfl
  · refine ⟨_, _, shows sizes layout, ?_, ?_⟩
    · rw [List.forall₂_map_right_iff, List.forall₂_same]
      exact fun entry _ => ⟨rfl, (typeShown_iff made (made.classOf_lt within)).mpr rfl⟩
    · rw [List.forall₂_map_right_iff, List.forall₂_same]
      exact fun edge _ => rfl
  · intro σ τ _ _ beside bare key content text fault unread fetched fetchedToo unframe options
      analyses
    exact SnapshotCache.load_of_fetch fetched fetchedToo
      (StoredSnapshot.analyse_of_error unread unframe content key options) analyses

end Inspect

/-- The fields of the circle's upper class with their types. -/
def ClassLayout.circle : ClassLayout := empty.insert ⟨1⟩ [⟨"next", "Base"⟩, ⟨"id", "long"⟩]

/-- The snapshot of the circle is short. -/
theorem length_encode_circle : (Snapshot.encode Columns.circle.resolved).length < 2 ^ 64 := by
  have body : (Snapshot.tablesOf Columns.circle.resolved).body.length = 672 := by decide +kernel
  rw [Snapshot.encode, Snapshot.Tables.length_put, body]
  decide

namespace Inspect

/-- In the circle a layout of the upper class tells the types of the lower one's fields too. An
empty text beside a snapshot is overlooked, and the circle's snapshot is loaded with it. -/
theorem circle_fields_of_layouts :
    Columns.circle.resolved.Made ∧ 0 < Columns.circle.resolved.objectCount ∧
      (∀ sizes, (fields Columns.circle.resolved sizes (some .circle) 0).map
            (fun field => (field.name, field.value)) =
          (fields Columns.circle.resolved sizes none 0).map
            (fun field => (field.name, field.value)) ∧
        (fields Columns.circle.resolved sizes (some .circle) 0).map (·.declaredType) =
          [some "Base", some "long", some "Base", some "object", some "int", none, none]) ∧
      (∀ unframe content options analyses,
        (SnapshotCache.load unframe options "a"
          (MemorySource.empty.insert "a" ⟨content, some []⟩, analyses)).1 =
        (SnapshotCache.load unframe options "a"
          (MemorySource.empty.insert "a" ⟨content, none⟩, analyses)).1) ∧
      ∀ unframe, ∃ handle next, SnapshotCache.load unframe .standard "a"
        (MemorySource.empty.insert "a" ⟨Snapshot.encode Columns.circle.resolved, some []⟩, #[]) =
          (.ok handle, next) := by
  have within : 0 < Columns.circle.resolved.objectCount := by decide +kernel
  obtain ⟨unchanged, ⟨listing, orderly, typed⟩, overlooked⟩ :=
    fields_of_layouts HeapGraph.made_circle within
  refine ⟨HeapGraph.made_circle, within, fun sizes => ⟨unchanged sizes _ _, ?_⟩,
    fun unframe content options analyses => ?_, fun unframe => ?_⟩
  · obtain ⟨named, elements, split, told, recorded⟩ := typed sizes (some .circle)
    have inside := HeapGraph.made_circle.classOf_lt within
    have namedTypes : named.map (·.declaredType) =
        (listing.named Columns.circle.resolved).map fun entry =>
          shownType Columns.circle.resolved (some .circle) (Columns.circle.resolved.classOf 0)
            entry.1 (entry.2.bind (·.type? Columns.circle.resolved)) := by
      rw [← List.forall₂_eq_eq_eq, List.forall₂_map_left_iff, List.forall₂_map_right_iff]
      exact told.flip.imp fun _ _ both => (typeShown_iff HeapGraph.made_circle inside).mp both.2
    have elementTypes : elements.map (·.declaredType) = listing.elements.map fun edge =>
        (Columns.circle.resolved.edgeType? edge).map FieldType.name := by
      rw [← List.forall₂_eq_eq_eq, List.forall₂_map_left_iff, List.forall₂_map_right_iff]
      exact recorded.flip
    rw [split, List.map_append, namedTypes, elementTypes, orderly.eq_of_circle]
    decide +kernel
  · exact (overlooked MemorySource MemorySource _ _ "a" content [] _ rfl rfl rfl unframe options
      analyses).1
  · -- The snapshot is plain and short, and its heap is within the limit.
    have plain : Zstd.sniff (Snapshot.encode Columns.circle.resolved) = .plain := by
      decide +kernel
    have accepted := Snapshot.decode_of_made HeapGraph.made_circle length_encode_circle
    have fetched := MemorySource.fetch_insert .empty "a"
      ⟨Snapshot.encode Columns.circle.resolved, some []⟩ rfl
    exact (Snapshot.exists_load_iff plain unframe #[] .standard (Prod.ext fetched rfl)).mpr
      ⟨_, _, accepted, rfl⟩

end Inspect

end HeapAtlas
