import Mathlib.Data.List.Basic
import Mathlib.Order.Lattice

/-! Sorting is stable: items that count as equal stay in the order that they had. -/

namespace HeapAtlas

variable {α : Type} {le : α → α → Bool}

/-- Items that are alike stand in a sorted list as they stood before. -/
theorem filter_mergeSort (trans : ∀ a b c, le a b = true → le b c = true → le a c = true)
    (total : ∀ a b, (le a b || le b a) = true) (kept : α → Bool)
    (alike : ∀ a b, kept a = true → kept b = true → le a b = true) (items : List α) :
    (items.mergeSort le).filter kept = items.filter kept := by
  have ascends : (items.filter kept).Pairwise (le · ·) := by
    refine List.pairwise_of_forall_mem_list fun a here b there => ?_
    exact alike a b (List.mem_filter.mp here).2 (List.mem_filter.mp there).2
  have within : (items.filter kept).Sublist ((items.mergeSort le).filter kept) := by
    have sorted := (List.sublist_mergeSort trans total ascends List.filter_sublist).filter kept
    simpa only [List.filter_filter, Bool.and_self] using sorted
  -- There are as many of them before as after, so that none is missing.
  have size := ((List.mergeSort_perm items le).filter kept).length_eq
  exact (within.eq_of_length size.symm).symm

/-- A sorted list ascends, and of two items that count as equal the first stood first before. -/
theorem pairwise_mergeSort_of_pairwise
    (trans : ∀ a b c, le a b = true → le b c = true → le a c = true)
    (total : ∀ a b, (le a b || le b a) = true) {before : α → α → Prop} {items : List α}
    (inOrder : items.Pairwise before) :
    (items.mergeSort le).Pairwise fun a b => le a b = true ∧ (le b a = true → before a b) := by
  refine List.pairwise_iff_forall_sublist.mpr fun {a b} pair => ?_
  have ascends : le a b = true :=
    List.pairwise_iff_forall_sublist.mp (List.pairwise_mergeSort trans total items) pair
  refine ⟨ascends, fun back => ?_⟩
  -- Both are kept among the items that count as equal to the first one.
  let kept : α → Bool := fun item => le a item && le item a
  have both : [a, b].filter kept = [a, b] := by
    have self : le a a = true := by simpa using total a a
    simp [kept, self, ascends, back]
  have still := pair.filter kept
  rw [both, filter_mergeSort trans total kept] at still
  · exact List.pairwise_iff_forall_sublist.mp inOrder (still.trans List.filter_sublist)
  · intro one other oneKept otherKept
    simp only [kept, Bool.and_eq_true] at oneKept otherKept
    exact trans _ _ _ oneKept.2 otherKept.1

/-- Sorted by a key, items go by their keys, and those of one key stay in the order they had. -/
theorem pairwise_mergeSort_key {κ : Type} [LinearOrder κ] (key : α → κ) {before : α → α → Prop}
    {items : List α} (inOrder : items.Pairwise before) :
    (items.mergeSort fun a b => key a ≤ key b).Pairwise fun a b =>
      key a < key b ∨ key a = key b ∧ before a b := by
  refine (pairwise_mergeSort_of_pairwise ?_ ?_ inOrder).imp fun {one other} both => ?_
  · intro a b c first second
    simp only [decide_eq_true_eq] at first second ⊢
    exact first.trans second
  · intro a b
    simpa only [Bool.or_eq_true, decide_eq_true_eq] using le_total (key a) (key b)
  · simp only [decide_eq_true_eq] at both
    -- Items with the same key stay in the order in which they came.
    rcases lt_or_eq_of_le both.1 with less | same
    · exact .inl less
    · exact .inr ⟨same, both.2 same.ge⟩

end HeapAtlas
