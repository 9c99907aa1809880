import Mathlib.Data.Finset.Basic
import Mathlib.Data.List.Induction

/-! Which indices are marked after changes, one after another, whatever set makes them. -/

namespace HeapAtlas.BitSet

/-- What a call changes in the marks of a set. -/
inductive Change where
  | mark (index : Nat)
  | erase (index : Nat)
  | reset
  deriving DecidableEq

namespace Change

/-- Whether a change leaves an index without a mark. -/
def Clears (change : Change) (index : Nat) : Prop := change = erase index ∨ change = reset

/-- The marks after a change. -/
def apply (marks : Finset Nat) : Change → Finset Nat
  | mark index => insert index marks
  | erase index => marks.erase index
  | reset => ∅

/-- An index is marked by its own mark, or because it was before and was not cleared. -/
theorem mem_apply_iff (marks : Finset Nat) (change : Change) (index : Nat) :
    index ∈ change.apply marks ↔ change = mark index ∨ index ∈ marks ∧ ¬change.Clears index := by
  -- A mark clears nothing, so that it only adds; the others mark nothing, so that they only clear.
  cases change with
  | mark other => simp [apply, Clears, eq_comm]
  | erase other => simp [apply, Clears, and_comm, eq_comm]
  | reset => simp [apply, Clears]

end Change

/-- Whether an index was marked and has not been cleared since. -/
def Marked (changes : List Change) (index : Nat) : Prop :=
  ∃ earlier later, changes = earlier ++ .mark index :: later ∧
    ∀ change ∈ later, ¬change.Clears index

/-- The last of several changes marks an index, or leaves it as it was. -/
theorem marked_concat_iff {changes : List Change} {last : Change} {index : Nat} :
    Marked (changes ++ [last]) index ↔
      last = .mark index ∨ Marked changes index ∧ ¬last.Clears index := by
  constructor
  · intro marked
    obtain ⟨earlier, later, whole, kept⟩ := marked
    -- Either the mark is the last change itself, or the last one is among those behind it.
    rcases List.eq_nil_or_concat later with rfl | ⟨between, final, rfl⟩
    · exact .inl (List.append_singleton_inj.mp whole).2
    · rw [List.concat_eq_append, ← List.cons_append, ← List.append_assoc,
        List.append_singleton_inj] at whole
      obtain ⟨before, rfl⟩ := whole
      rw [List.concat_eq_append, List.forall_mem_append, List.forall_mem_singleton] at kept
      exact .inr ⟨⟨earlier, between, before, kept.1⟩, kept.2⟩
  · intro either
    rcases either with rfl | ⟨⟨earlier, later, rfl, kept⟩, stays⟩
    · exact ⟨changes, [], rfl, List.forall_mem_nil _⟩
    · refine ⟨earlier, later ++ [last], List.append_assoc .., ?_⟩
      rw [List.forall_mem_append, List.forall_mem_singleton]
      exact ⟨kept, stays⟩

/-- The marks after changes, from those that there were. -/
def marksAfter (marks : Finset Nat) (changes : List Change) : Finset Nat :=
  changes.foldl Change.apply marks

/-- Without marks before, those marked are the indices that were marked and not cleared since. -/
theorem mem_marksAfter_iff (changes : List Change) (index : Nat) :
    index ∈ marksAfter ∅ changes ↔ Marked changes index := by
  -- The induction takes the last change off, which decides before all others.
  induction changes using List.reverseRecOn with
  | nil => simp [marksAfter, Marked]
  | append_singleton changes last ih =>
    rw [marksAfter, List.foldl_append, List.foldl_cons, List.foldl_nil, Change.mem_apply_iff,
      marked_concat_iff, ← ih, marksAfter]

/-- Whether a set that answers the tests tells of the marks, and of no other indices. -/
def Tells (test : Nat → Bool) (marks : Finset Nat) : Prop :=
  ∀ index, test index = true ↔ index ∈ marks

section Tells

variable {test after : Nat → Bool} {marks : Finset Nat} {index : Nat}

/-- One index more that tests as marked is one mark more. -/
theorem Tells.mark (tells : Tells test marks)
    (marked : ∀ other, after other = (decide (other = index) || test other)) :
    Tells after (Change.apply marks (.mark index)) := by
  intro other
  rw [marked, Bool.or_eq_true, decide_eq_true_eq, tells other, Change.apply, Finset.mem_insert]

/-- An index that no longer tests as marked has lost its mark. -/
theorem Tells.erase (tells : Tells test marks)
    (erased : ∀ other, after other = (test other && decide (other ≠ index))) :
    Tells after (Change.apply marks (.erase index)) := by
  intro other
  rw [erased, Bool.and_eq_true, decide_eq_true_eq, tells other, Change.apply, Finset.mem_erase,
    and_comm]

/-- Where no index tests as marked, there are no marks. -/
theorem tells_empty (unmarked : ∀ other, after other = false) : Tells after ∅ := by
  intro other
  rw [unmarked]
  exact iff_of_false Bool.false_ne_true (Finset.notMem_empty other)

end Tells

/-- What relates a set to its marks after every call does so after any number of calls. -/
theorem foldl_holds {σ γ : Type} {step : σ → γ → σ} {change? : γ → Option Change}
    {Holds : σ → Finset Nat → Prop}
    (keeps : ∀ {set marks} call, Holds set marks →
      Holds (step set call) (marksAfter marks (change? call).toList))
    {set : σ} {marks : Finset Nat} (holds : Holds set marks) (calls : List γ) :
    Holds (calls.foldl step set) (marksAfter marks (calls.filterMap change?)) := by
  -- The set and its marks stay quantified over, since each call leaves others for the rest.
  induction calls generalizing set marks with
  | nil => exact holds
  | cons call rest ih =>
    have changes : (call :: rest).filterMap change? =
        (change? call).toList ++ rest.filterMap change? := by
      rw [List.filterMap_cons]
      cases change? call <;> rfl
    rw [changes, marksAfter, List.foldl_append]
    exact ih (keeps call holds)

end HeapAtlas.BitSet
