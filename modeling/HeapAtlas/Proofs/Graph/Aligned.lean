import HeapAtlas.Graph.Builder
import HeapAtlas.Proofs.Graph.Ragged
import HeapAtlas.Proofs.Steps

/-! Columns whose groups go with their classes and objects, and that the builder makes such ones. -/

namespace HeapAtlas

/-- A label whose position, if it has one, is told apart from the names. -/
def LabelRef.Fits (label : LabelRef) : Prop :=
  ∀ position, label = .element position → position < labelLimit

/-- Columns with one group for every class or object, and with labels that fit. -/
structure Columns.Aligned (columns : Columns) : Prop where
  classFields : columns.classFields.Tiled columns.classes.size
  edges : columns.edges.Tiled columns.objects.size
  primitives : columns.primitives.Tiled columns.objects.size
  labels : ∀ row ∈ columns.edges.items, row.label.Fits

namespace Staging

/-- What staging keeps up from record to record. -/
structure Aligned (staging : Staging) : Prop where
  classFields : staging.classFields.Tiled staging.classes.size
  edges : staging.edges.Tiled staging.objects.size
  primitives : staging.primitives.Tiled staging.objects.size
  labels : ∀ row ∈ staging.edges.items, row.label.Fits

/-- Before the first record everything is aligned. -/
theorem aligned_empty : Staging.empty.Aligned where
  classFields := Ragged.tiled_empty
  edges := Ragged.tiled_empty
  primitives := Ragged.tiled_empty
  labels := by simp [Staging.empty, Ragged.empty]

/-- Staging a class adds its fields as one group. -/
theorem Aligned.stageClass {staging : Staging} (aligned : staging.Aligned) (id : ClassId)
    (info : ClassInfo) : (staging.stageClass id info).Aligned where
  classFields := by
    rw [Staging.stageClass, Array.size_push]
    exact aligned.classFields.push _
  edges := aligned.edges
  primitives := aligned.primitives
  labels := aligned.labels

/-- Only labels that fit are staged, since other positions are refused. -/
theorem edgeRows_fits {object : ObjectId} {interner after : Interner} {edges : List EdgeRecord}
    {rows : List EdgeRow} (staged : edgeRows object interner edges = .ok (rows, after)) :
    ∀ row ∈ rows, row.label.Fits := by
  -- The induction follows the references; each label is checked as it is met.
  induction edges generalizing interner rows with
  | nil =>
    cases staged
    exact fun row member => absurd member List.not_mem_nil
  | cons edge rest ih =>
    rw [edgeRows] at staged
    cases held : edge.label with
    | field name =>
      rw [held] at staged
      -- A name is interned, which gives it no position.
      obtain ⟨⟨label, next⟩, labelled, continued⟩ := bind_eq_ok_iff.mp staged
      obtain ⟨⟨others, last⟩, tail, equal⟩ := bind_eq_ok_iff.mp continued
      cases labelled
      cases equal
      intro row member
      rcases List.mem_cons.mp member with rfl | later
      · exact fun position equal => by cases equal
      · exact ih tail row later
    | element position =>
      rw [held] at staged
      dsimp only at staged
      -- A position is staged only after it was found small enough.
      split at staged
      · rename_i small
        obtain ⟨⟨label, next⟩, labelled, continued⟩ := bind_eq_ok_iff.mp staged
        obtain ⟨⟨others, last⟩, tail, equal⟩ := bind_eq_ok_iff.mp continued
        cases labelled
        cases equal
        intro row member
        rcases List.mem_cons.mp member with rfl | later
        · exact fun other equal => by cases equal; exact small
        · exact ih tail row later
      · cases staged

/-- Staging an object adds its references and its primitive fields as one group each. -/
theorem Aligned.stageObject {staging staged : Staging} (aligned : staging.Aligned) {id : ObjectId}
    {record : ObjectRecord} (done : staging.stageObject id record = .ok staged) :
    staged.Aligned := by
  -- The references and the fields are pushed together with the object that they belong to.
  obtain ⟨⟨edges, interner⟩, rows, equal⟩ := bind_eq_ok_iff.mp done
  cases equal
  refine ⟨aligned.classFields, ?_, ?_, ?_⟩
  · simpa only [Array.size_push] using aligned.edges.push _
  · simpa only [Array.size_push] using aligned.primitives.push _
  · intro row member
    rw [← Array.mem_toList_iff, Ragged.toList_items_push] at member
    -- A reference was there before, or was checked as it was staged.
    rcases List.mem_append.mp member with before | added
    · exact aligned.labels row (Array.mem_toList_iff.mp before)
    · exact edgeRows_fits rows row added

/-- Staging objects one after another keeps everything aligned. -/
theorem Aligned.stageObjects {staging staged : Staging} (aligned : staging.Aligned)
    {records : List (ObjectId × ObjectRecord)} (done : staging.stageObjects records = .ok staged) :
    staged.Aligned := by
  -- The induction is on the records, and each leaves the staging aligned for the next.
  induction records generalizing staging with
  | nil =>
    cases done
    exact aligned
  | cons record rest ih =>
    rw [Staging.stageObjects] at done
    split at done
    · cases done
    · rename_i next first
      exact ih (aligned.stageObject first) done

end Staging

/-- The builder's columns are aligned. -/
theorem HeapBuilder.columns_aligned {builder : HeapBuilder} {columns : Columns}
    (staged : builder.columns = .ok columns) : columns.Aligned := by
  -- First all classes are staged, which never fails, and then the objects.
  have classes : ∀ (records : List (ClassId × ClassInfo)) (staging : Staging), staging.Aligned →
      (records.foldl (fun staging record => staging.stageClass record.1 record.2)
        staging).Aligned := by
    intro records
    induction records with
    | nil => exact fun staging aligned => aligned
    | cons record rest ih => exact fun staging aligned => ih _ (aligned.stageClass _ _)
  obtain ⟨staging, objects, equal⟩ := bind_eq_ok_iff.mp staged
  cases equal
  have aligned := (classes _ _ Staging.aligned_empty).stageObjects objects
  exact ⟨aligned.classFields, aligned.edges, aligned.primitives, aligned.labels⟩

end HeapAtlas
