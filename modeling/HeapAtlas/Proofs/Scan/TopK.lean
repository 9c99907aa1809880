import Mathlib.Data.List.Perm.Basic
import HeapAtlas.Scan.TopK

/-! The smallest keys of a whole are among the smallest keys of its parts. -/

namespace HeapAtlas

variable {κ : Type} [Ord κ]

/-- Keys stand in ascending order. -/
def Ascends (keys : List κ) : Prop := keys.Pairwise fun one other => (compare one other).isLE

/-- Sorting leaves the keys as they are, in another order. -/
theorem ascending_perm (keys : List κ) : (ascending keys).Perm keys := List.mergeSort_perm keys _

/-- Keys that ascend already stay as they are. -/
theorem Ascends.ascending_eq {keys : List κ} (ascends : Ascends keys) : ascending keys = keys :=
  List.mergeSort_of_pairwise ascends

/-- The first keys of an ascending list ascend. -/
theorem Ascends.take {keys : List κ} (ascends : Ascends keys) (limit : Nat) :
    Ascends (keys.take limit) :=
  List.Pairwise.sublist (List.take_sublist _ _) ascends

/--
The first keys of a merge come from the first keys of the left list.

This holds of any two lists, as a merge looks at heads only.
-/
theorem take_merge_take {α : Type} (le : α → α → Bool) (limit : Nat) (left right : List α) :
    ((left.take limit).merge right le).take limit = (left.merge right le).take limit := by
  -- The induction is on the number of keys taken, one of which is a head.
  induction limit generalizing left right with
  | zero => rfl
  | succ limit ih =>
    cases left with
    | nil => rfl
    | cons first left =>
      cases right with
      | nil => rw [List.merge_right, List.merge_right, List.take_take, Nat.min_self]
      | cons other right =>
        rw [List.take_succ_cons, List.cons_merge_cons, List.cons_merge_cons]
        split
        · rw [List.take_succ_cons, List.take_succ_cons, ih]
        · -- The right head is taken, and one key fewer of the left list is needed behind it.
          have shorter : (first :: left.take limit).take limit = (first :: left).take limit := by
            rw [← List.take_succ_cons, List.take_take]
            congr 1
            omega
          rw [List.take_succ_cons, List.take_succ_cons, ← ih, shorter, ih]

/-- Merging neighbours keeps all keys. -/
theorem mergeNeighbours_perm (lists : List (List κ)) :
    (mergeNeighbours lists).flatten.Perm lists.flatten := by
  fun_induction mergeNeighbours lists with
  | case1 first second rest ih =>
    rw [List.flatten_cons, List.flatten_cons, List.flatten_cons, ← List.append_assoc]
    exact (List.merge_perm_append _).append ih
  | case2 lists single => exact .refl _

/-- A merge of all lists keeps all keys. -/
theorem mergeAll_perm (lists : List (List κ)) : (mergeAll lists).Perm lists.flatten := by
  fun_induction mergeAll lists with
  | case1 => exact .nil
  | case2 list => rw [List.flatten_singleton]
  | case3 first second rest ih => exact ih.trans (mergeNeighbours_perm _)

/-- A key that is pushed leaves the limit as it is. -/
theorem TopK.limit_push (top : TopK κ) (key : κ) : (top.push key).limit = top.limit := by
  rw [push]
  split <;> rfl

section Oriented

variable [Std.TransOrd κ]

/-- Of two keys one is at most the other. -/
theorem isLE_total (one other : κ) :
    (compare one other).isLE || (compare other one).isLE := by
  rw [Std.OrientedOrd.eq_swap (a := other)]
  cases compare one other <;> rfl

/-- Sorted keys ascend. -/
theorem ascends_ascending (keys : List κ) : Ascends (ascending keys) :=
  List.pairwise_mergeSort (fun _ _ _ => Std.TransCmp.isLE_trans) isLE_total keys

/-- Ascending lists are merged to an ascending one. -/
theorem Ascends.merge {left right : List κ} (leftAscends : Ascends left)
    (rightAscends : Ascends right) :
    Ascends (left.merge right fun one other => (compare one other).isLE) :=
  List.pairwise_merge (fun _ _ _ => Std.TransCmp.isLE_trans) isLE_total left right leftAscends
    rightAscends

/-- A round of merging keeps every list ascending. -/
theorem mergeNeighbours_ascend {lists : List (List κ)} (ascend : ∀ list ∈ lists, Ascends list) :
    ∀ list ∈ mergeNeighbours lists, Ascends list := by
  fun_induction mergeNeighbours lists with
  | case1 first second rest ih =>
    intro list member
    -- Two lists that ascend are merged into one that does.
    rcases List.mem_cons.mp member with rfl | later
    · exact (ascend first (by simp)).merge (ascend second (by simp))
    · exact ih (fun other held => ascend other (by simp [held])) list later
  | case2 lists single => exact ascend

/-- A merge of ascending lists ascends. -/
theorem ascends_mergeAll {lists : List (List κ)} (ascend : ∀ list ∈ lists, Ascends list) :
    Ascends (mergeAll lists) := by
  fun_induction mergeAll lists with
  | case1 => exact .nil
  | case2 list => exact ascend list List.mem_cons_self
  | case3 first second rest ih => exact ih (mergeNeighbours_ascend ascend)

/-- A key that is offered counts among the keys seen, whether keys are cut back or not. -/
theorem TopK.toSorted_push (top : TopK κ) (key : κ) :
    (top.push key).toSorted = (ascending (key :: top.held)).take top.limit := by
  rw [push]
  split
  · -- Cutting back keeps the smallest keys, and these are the smallest of themselves.
    show (ascending ((ascending (key :: top.held)).take top.limit)).take top.limit = _
    rw [((ascends_ascending _).take _).ascending_eq, List.take_take, Nat.min_self]
  · rfl

end Oriented

section Lawful

variable [Std.TransOrd κ] [Std.LawfulEqOrd κ]

/-- There is one way to put keys in ascending order. -/
theorem Ascends.eq_ascending {keys others : List κ} (ascends : Ascends keys)
    (perm : keys.Perm others) : keys = ascending others := by
  refine List.Perm.eq_of_pairwise ?_ ascends (ascends_ascending others)
    (perm.trans (ascending_perm others).symm)
  intro one other _ _ below above
  exact Std.LawfulEqOrd.eq_of_compare (Std.OrientedCmp.isLE_antisymm below above)

/-- The order in which keys come makes no difference. -/
theorem ascending_congr {keys others : List κ} (perm : keys.Perm others) :
    ascending keys = ascending others :=
  (ascends_ascending keys).eq_ascending ((ascending_perm keys).trans perm)

/-- Two lists together are sorted by merging what each is sorted to. -/
theorem ascending_append (left right : List κ) :
    ascending (left ++ right) =
      (ascending left).merge (ascending right) fun one other => (compare one other).isLE := by
  symm
  apply ((ascends_ascending left).merge (ascends_ascending right)).eq_ascending
  exact (List.merge_perm_append _).trans ((ascending_perm left).append (ascending_perm right))

/-- Of the left keys only the smallest matter to the smallest of all. -/
theorem take_ascending_append (limit : Nat) (left right : List κ) :
    (ascending ((ascending left).take limit ++ right)).take limit =
      (ascending (left ++ right)).take limit := by
  have cut : ascending ((ascending left).take limit) = (ascending left).take limit :=
    ((ascends_ascending left).take limit).ascending_eq
  rw [ascending_append, cut, take_merge_take, ← ascending_append]

/-- Keys with the same smallest ones are as good as each other. -/
theorem take_ascending_append_congr {limit : Nat} {keys others : List κ}
    (same : (ascending keys).take limit = (ascending others).take limit) (more : List κ) :
    (ascending (keys ++ more)).take limit = (ascending (others ++ more)).take limit := by
  rw [← take_ascending_append, same, take_ascending_append]

/-- After any number of keys the smallest of all that were seen are kept. -/
theorem TopK.toSorted_foldl_push (top : TopK κ) (keys : List κ) :
    (keys.foldl push top).toSorted = (ascending (top.held ++ keys)).take top.limit := by
  -- The induction is on the keys to come, for any that were seen before.
  induction keys generalizing top with
  | nil =>
    rw [List.append_nil]
    rfl
  | cons key keys ih =>
    have kept : (ascending (top.push key).held).take top.limit =
        (ascending (key :: top.held)).take top.limit := by
      rw [← toSorted_push, toSorted, limit_push]
    rw [List.foldl_cons, ih, limit_push, take_ascending_append_congr kept]
    exact congrArg (List.take top.limit) (ascending_congr List.perm_middle.symm)

/-- Offered to an empty collection, the smallest of some keys are kept. -/
theorem TopK.toSorted_ofKeys (limit : Nat) (keys : List κ) :
    (keys.foldl push (empty limit)).toSorted = (ascending keys).take limit :=
  toSorted_foldl_push (empty limit) keys

/-- A merge of ascending lists is the ascending order of all their keys. -/
theorem mergeAll_eq {lists : List (List κ)} (ascend : ∀ list ∈ lists, Ascends list) :
    mergeAll lists = ascending lists.flatten :=
  (ascends_mergeAll ascend).eq_ascending (mergeAll_perm lists)

/-- Groups that were cut off hold the smallest keys of all, if none was cut off too early. -/
theorem take_ascending_flatten {limit bound : Nat} (within : limit ≤ bound)
    (groups : List (List κ)) :
    (ascending (groups.map fun keys => (ascending keys).take bound).flatten).take limit =
      (ascending groups.flatten).take limit := by
  -- The induction is on the groups, the first of which has its own smallest keys in front.
  induction groups with
  | nil => rfl
  | cons keys groups ih =>
    have first : (ascending ((ascending keys).take bound)).take limit =
        (ascending keys).take limit := by
      rw [((ascends_ascending keys).take bound).ascending_eq, List.take_take,
        Nat.min_eq_left within]
    rw [List.map_cons, List.flatten_cons, List.flatten_cons, take_ascending_append_congr first,
      ascending_congr List.perm_append_comm, take_ascending_append_congr ih,
      ascending_congr List.perm_append_comm]

/-- Merging lists that were cut off gives the smallest keys of all. -/
theorem mergeSorted_take {limit bound : Nat} (within : limit ≤ bound) (groups : List (List κ)) :
    mergeSorted limit (groups.map fun keys => (ascending keys).take bound) =
      (ascending groups.flatten).take limit := by
  -- A key cut off has `bound` smaller ones in its own list, so it is not wanted.
  rw [mergeSorted, mergeAll_eq, take_ascending_flatten within]
  intro list member
  obtain ⟨keys, _, rfl⟩ := List.mem_map.mp member
  exact (ascends_ascending keys).take bound

end Lawful

end HeapAtlas
