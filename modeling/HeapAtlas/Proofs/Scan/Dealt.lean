import Mathlib.Data.List.FinRange
import Mathlib.Logic.Function.Basic
import HeapAtlas.Proofs.Scan.Chunks
import HeapAtlas.Proofs.Scan.TopK

/-!
Collectors that share the keys of a stream out, and the merge of what they keep.

A collector does what one does that only ever holds the keys it keeps, and a merge what one does
that looks at the heads of its lists for every key. Together they find the smallest keys of all.
-/

namespace HeapAtlas

variable {κ : Type} [Ord κ]

namespace TopK

/-- The keys kept once another is offered: it is taken in while there is room, and then only in
place of the last one, if it is below that. -/
def keepOne (limit : Nat) (kept : List κ) (key : κ) : List κ :=
  if kept.length < limit then ascending (key :: kept)
  else
    match kept.getLast? with
    | some worst => if compare key worst = .lt then ascending (key :: kept.dropLast) else kept
    -- No key is kept at all, so this one is not either.
    | none => kept

/-- All keys that are kept are listed. -/
theorem length_toSorted (top : TopK κ) : top.toSorted.length = top.size := by
  rw [toSorted, List.length_take, (ascending_perm top.held).length_eq, size, top.count_eq,
    Nat.min_comm]

/-- No more keys are kept than the limit allows. -/
theorem length_toSorted_le (top : TopK κ) : top.toSorted.length ≤ top.limit := by
  rw [length_toSorted]
  exact Nat.min_le_right _ _

end TopK

/-! ### Single keys -/

section Oriented

variable [Std.TransOrd κ]

/-- What is above the last of ascending keys ascends behind them. -/
theorem Ascends.concat {keys : List κ} {worst key : κ} (ascends : Ascends (keys ++ [worst]))
    (above : (compare worst key).isLE) : Ascends (keys ++ [worst] ++ [key]) := by
  refine List.pairwise_append.mpr ⟨ascends, List.pairwise_singleton _ _, fun one member other => ?_⟩
  rw [List.mem_singleton]
  rintro rfl
  -- What stood before the last key is below it, and so below the new one.
  rcases List.mem_append.mp member with before | last
  · exact Std.TransCmp.isLE_trans
      ((List.pairwise_append.mp ascends).2.2 one before worst (List.mem_singleton_self _)) above
  · rw [List.mem_singleton.mp last]
    exact above

/-- Keys are kept in ascending order. -/
theorem TopK.ascends_toSorted (top : TopK κ) : Ascends top.toSorted :=
  (ascends_ascending _).take _

end Oriented

section Lawful

variable [Std.TransOrd κ] [Std.LawfulEqOrd κ]

/-- A key that is offered joins the keys that are kept, as far as there is room. -/
theorem TopK.toSorted_push_eq_take (top : TopK κ) (key : κ) :
    (top.push key).toSorted = (ascending (key :: top.toSorted)).take top.limit := by
  -- Whatever else is held is not among the smallest keys, with the new one or without it.
  have same : (ascending top.held).take top.limit = (ascending top.toSorted).take top.limit := by
    rw [top.ascends_toSorted.ascending_eq, toSorted, List.take_take, Nat.min_self]
  have joined := take_ascending_append_congr same [key]
  have front (keys : List κ) : ascending (keys ++ [key]) = ascending (key :: keys) :=
    ascending_congr List.perm_append_comm
  rw [front, front] at joined
  rw [toSorted_push]
  exact joined

/-- A key below the last of ascending keys goes in before it. -/
theorem Ascends.ascending_cons_of_lt {front : List κ} {worst key : κ}
    (ascends : Ascends (front ++ [worst])) (below : compare key worst = .lt) :
    ascending (key :: (front ++ [worst])) = ascending (key :: front) ++ [worst] := by
  symm
  -- The worst key stays last, as neither the new key nor any other comes behind it.
  refine Ascends.eq_ascending (List.pairwise_append.mpr ⟨ascends_ascending _,
    List.pairwise_singleton _ _, fun one member other => ?_⟩) ((ascending_perm _).append_right _)
  rw [List.mem_singleton]
  rintro rfl
  rcases List.mem_cons.mp ((ascending_perm _).mem_iff.mp member) with rfl | before
  · rw [below]
    rfl
  · exact (List.pairwise_append.mp ascends).2.2 one before _ (List.mem_singleton_self _)

/-- Any other key goes behind the last. -/
theorem Ascends.ascending_cons_of_not_lt {front : List κ} {worst key : κ}
    (ascends : Ascends (front ++ [worst])) (notBelow : compare key worst ≠ .lt) :
    ascending (key :: (front ++ [worst])) = front ++ [worst] ++ [key] := by
  -- Keys are comparable, so what is not below the last one is above it or equal.
  have above : (compare worst key).isLE := by
    rw [Std.OrientedOrd.eq_swap (a := worst)]
    cases order : compare key worst with
    | lt => exact absurd order notBelow
    | eq => rfl
    | gt => rfl
  exact ((ascends.concat above).eq_ascending List.perm_append_comm).symm

/-- What is kept of a stream can be told from what was kept before each key. -/
theorem TopK.toSorted_push_eq_keepOne (top : TopK κ) (key : κ) :
    (top.push key).toSorted = keepOne top.limit top.toSorted key := by
  have least := top.length_toSorted_le
  have ascends := top.ascends_toSorted
  rw [toSorted_push_eq_take]
  generalize top.toSorted = kept at least ascends ⊢
  rw [keepOne]
  split
  · rename_i room
    -- With the new key there are no more than the limit.
    rw [List.take_of_length_le]
    rw [(ascending_perm _).length_eq]
    exact room
  · rename_i full
    rcases List.eq_nil_or_concat' kept with rfl | ⟨front, worst, rfl⟩
    · -- Nothing is kept where the limit is zero.
      have zero : top.limit = 0 := by
        rw [List.length_nil] at full
        omega
      rw [zero]
      rfl
    · -- With the new key there is one too many, the last.
      have length : front.length + 1 = top.limit := by
        rw [List.length_append, List.length_singleton] at least full
        omega
      rw [List.getLast?_concat, List.dropLast_concat]
      dsimp only
      split
      · rename_i below
        have exact_ : (ascending (key :: front)).length = top.limit := by
          rw [(ascending_perm _).length_eq, List.length_cons, length]
        rw [ascends.ascending_cons_of_lt below, ← exact_, List.take_left]
      · rename_i notBelow
        have exact_ : (front ++ [worst]).length = top.limit := by
          rw [List.length_append, List.length_singleton, length]
        rw [ascends.ascending_cons_of_not_lt notBelow, ← exact_, List.take_left]

/-- A collector that is offered keys keeps what it would if it only held the keys it keeps. -/
theorem TopK.toSorted_foldl_push_eq_keepOne (top : TopK κ) (keys : List κ) :
    (keys.foldl push top).toSorted = keys.foldl (keepOne top.limit) top.toSorted := by
  induction keys generalizing top with
  | nil => rfl
  | cons key keys ih =>
    rw [List.foldl_cons, List.foldl_cons, ih, limit_push, toSorted_push_eq_keepOne]

end Lawful

/-! ### Heads of lists -/

/-- The least head of some lists and the place of its list, of equal heads the first. -/
def leastHead? : List (List κ) → Option (κ × Nat)
  | [] => none
  | [] :: lists => (leastHead? lists).map fun (key, place) => (key, place + 1)
  | (key :: _) :: lists =>
    match leastHead? lists with
    | some (other, place) =>
      -- Equal heads leave the earlier list in front.
      if (compare key other).isLE then some (key, 0) else some (other, place + 1)
    | none => some (key, 0)

/-- The keys that are taken one by one from the lists with the least heads, up to a limit. -/
def takeHeads : (limit : Nat) → List (List κ) → List κ
  | 0, _ => []
  | limit + 1, lists =>
    match leastHead? lists with
    | some (key, place) => key :: takeHeads limit (lists.modify place List.tail)
    -- All lists are empty.
    | none => []

/-- There is no least head only where there is no key. -/
theorem flatten_eq_nil_of_leastHead? {lists : List (List κ)} (none_ : leastHead? lists = none) :
    lists.flatten = [] := by
  fun_induction leastHead? lists with
  | case1 => rfl
  | case2 lists ih => simpa using ih (Option.map_eq_none_iff.mp none_)
  | case3 | case4 | case5 => cases none_

/-- The list with the least head is the one without it and the head. -/
theorem perm_of_leastHead? {lists : List (List κ)} {key : κ} {place : Nat}
    (least : leastHead? lists = some (key, place)) :
    lists.flatten.Perm (key :: (lists.modify place List.tail).flatten) := by
  -- The least head is taken out of its own list, wherever that stands.
  fun_induction leastHead? lists generalizing place with
  | case1 => cases least
  | case2 lists ih =>
    obtain ⟨⟨_, behind⟩, found, same⟩ := Option.map_eq_some_iff.mp least
    cases same
    simpa using ih found
  | case3 | case5 =>
    cases least
    exact .refl _
  | case4 first rest lists other behind found notBelow ih =>
    cases least
    rw [List.modify_succ_cons, List.flatten_cons, List.flatten_cons]
    exact ((ih found).append_left _).trans List.perm_middle

section Oriented

variable [Std.TransOrd κ]

/-- No key of ascending lists is below their least head. -/
theorem isLE_of_leastHead? {lists : List (List κ)} (ascend : ∀ list ∈ lists, Ascends list) {key : κ}
    {place : Nat} (least : leastHead? lists = some (key, place)) :
    ∀ other ∈ lists.flatten, (compare key other).isLE := by
  -- The head of an ascending list is below all of it, and so is what is below the head.
  have own {first least : κ} {rest : List κ} (ascends : Ascends (first :: rest))
      (below : (compare least first).isLE) :
      ∀ other ∈ first :: rest, (compare least other).isLE := by
    intro other member
    rcases List.mem_cons.mp member with rfl | behind
    · exact below
    · exact Std.TransCmp.isLE_trans below (List.rel_of_pairwise_cons ascends behind)
  have self (key : κ) : (compare key key).isLE := by
    simp
  fun_induction leastHead? lists generalizing key place with
  | case1 => cases least
  | case2 lists ih =>
    obtain ⟨⟨_, behind⟩, found, same⟩ := Option.map_eq_some_iff.mp least
    cases same
    exact ih (fun list member => ascend list (List.mem_cons_of_mem _ member)) found
  | case3 first rest lists other behind found below ih =>
    cases least
    intro one member
    rcases List.mem_append.mp (List.flatten_cons ▸ member) with here | there
    · exact own (ascend _ List.mem_cons_self) (self first) one here
    · have others := ih (fun list member => ascend list (List.mem_cons_of_mem _ member)) found
      exact Std.TransCmp.isLE_trans below (others one there)
  | case4 first rest lists other behind found notBelow ih =>
    cases least
    have below : (compare other first).isLE := by
      have total := isLE_total first other
      simpa [notBelow] using total
    intro one member
    rcases List.mem_append.mp (List.flatten_cons ▸ member) with here | there
    · exact own (ascend _ List.mem_cons_self) below one here
    · exact ih (fun list member => ascend list (List.mem_cons_of_mem _ member)) found one there
  | case5 first rest lists none_ =>
    cases least
    rw [List.flatten_cons, flatten_eq_nil_of_leastHead? none_, List.append_nil]
    exact own (ascend _ List.mem_cons_self) (self first)

end Oriented

section Lawful

variable [Std.TransOrd κ] [Std.LawfulEqOrd κ]

/-- A merge of ascending lists takes the least head for every key. -/
theorem mergeSorted_eq_takeHeads (limit : Nat) {lists : List (List κ)}
    (ascend : ∀ list ∈ lists, Ascends list) : mergeSorted limit lists = takeHeads limit lists := by
  rw [mergeSorted, mergeAll_eq ascend]
  -- The induction is on the number of keys to take, for any lists that are left.
  induction limit generalizing lists with
  | zero => rfl
  | succ limit ih =>
    rw [takeHeads]
    cases least : leastHead? lists with
    | none =>
      rw [flatten_eq_nil_of_leastHead? least, (ascending_perm []).eq_nil]
      rfl
    | some head =>
      obtain ⟨key, place⟩ := head
      have perm := perm_of_leastHead? least
      have below := isLE_of_leastHead? ascend least
      -- A list that loses its head ascends as before.
      have shorter : ∀ list ∈ lists.modify place List.tail, Ascends list := by
        intro list member
        obtain ⟨index, held⟩ := List.mem_iff_getElem?.mp member
        rw [List.getElem?_modify, Option.map_eq_map, Option.map_eq_some_iff] at held
        obtain ⟨before, found, rfl⟩ := held
        have was := ascend before (List.mem_of_getElem? found)
        split
        · exact List.Pairwise.tail was
        · exact was
      have order : ascending lists.flatten =
          key :: ascending (lists.modify place List.tail).flatten := by
        symm
        refine Ascends.eq_ascending (List.pairwise_cons.mpr ⟨fun other member => ?_,
          ascends_ascending _⟩) (((ascending_perm _).cons key).trans perm.symm)
        refine below other (perm.mem_iff.mpr (List.mem_cons_of_mem _ ?_))
        exact (ascending_perm _).mem_iff.mp member
      rw [order, List.take_succ_cons, ih shorter]

end Lawful

/-! ### Keys that are dealt out -/

/-- Collectors after the keys of a stream were offered one by one, each to one of them. -/
def deal {count : Nat} (limit : Nat) (stream : List (Fin count × κ)) : Fin count → TopK κ :=
  stream.foldl (fun collectors (place, key) =>
    Function.update collectors place ((collectors place).push key)) fun _ => .empty limit

/-- The keys of a stream that are dealt to a place. -/
def dealtTo {count : Nat} (stream : List (Fin count × κ)) (place : Fin count) : List κ :=
  (stream.filter fun dealt => dealt.1 = place).map (·.2)

/-- Every collector was offered its own keys in their order, and no others. -/
theorem deal_apply {count : Nat} (limit : Nat) (stream : List (Fin count × κ)) (place : Fin count) :
    deal limit stream place = (dealtTo stream place).foldl TopK.push (.empty limit) := by
  -- The induction is on the keys to come, for collectors with any keys before.
  suffices ∀ collectors : Fin count → TopK κ, stream.foldl (fun collectors (place, key) =>
      Function.update collectors place ((collectors place).push key)) collectors place =
        (dealtTo stream place).foldl TopK.push (collectors place) from this _
  induction stream with
  | nil => exact fun collectors => rfl
  | cons first rest ih =>
    intro collectors
    obtain ⟨other, key⟩ := first
    rw [List.foldl_cons, ih]
    by_cases same : other = place
    · subst same
      simp [dealtTo]
    · simp [dealtTo, same, Function.update_of_ne (Ne.symm same)]

omit [Ord κ] in
/-- Every key of a stream is dealt to one place. -/
theorem flatten_dealtTo_perm {count : Nat} (stream : List (Fin count × κ)) :
    ((List.finRange count).map (dealtTo stream)).flatten.Perm (stream.map (·.2)) := by
  have places : ((List.finRange count).map Fin.val).Nodup :=
    (List.nodup_finRange count).map Fin.val_injective
  have all : stream.filter (fun dealt => dealt.1.val ∈ (List.finRange count).map Fin.val) =
      stream :=
    List.filter_eq_self.mpr fun dealt _ => by simp
  -- Each item is dealt to one place, so the places together have all of them.
  have perm := Scan.flatMap_filter_perm (fun dealt : Fin count × κ => dealt.1.val) places stream
  rw [all, List.flatMap_map] at perm
  have groups := perm.map (·.2)
  rw [List.map_flatMap] at groups
  simp only [List.flatMap_def, Fin.val_inj] at groups
  exact groups

section Lawful

variable [Std.TransOrd κ] [Std.LawfulEqOrd κ]

/--
However the keys of a stream are dealt to collectors, a merge of what these keep finds the smallest
keys of all, as long as no more are wanted than each of them keeps.

Collectors take their keys in and give up their worst one by one, and the merge takes head by head.
-/
theorem mergeSorted_deal {limit wanted : Nat} (within : wanted ≤ limit) {count : Nat}
    (stream : List (Fin count × κ)) :
    let kept := (List.finRange count).map fun place => (deal limit stream place).toSorted
    mergeSorted wanted kept = (ascending (stream.map (·.2))).take wanted ∧
      mergeSorted wanted kept = takeHeads wanted kept ∧
      kept = (List.finRange count).map fun place =>
        (dealtTo stream place).foldl (TopK.keepOne limit) [] := by
  -- A collector holds the least keys of those that it was dealt.
  have collected (place : Fin count) : (deal limit stream place).toSorted =
      (ascending (dealtTo stream place)).take limit := by
    rw [deal_apply, TopK.toSorted_ofKeys]
  refine ⟨?_, mergeSorted_eq_takeHeads wanted ?_, List.map_congr_left fun place _ => ?_⟩
  · have kept : ((List.finRange count).map fun place => (deal limit stream place).toSorted) =
        ((List.finRange count).map (dealtTo stream)).map fun keys =>
          (ascending keys).take limit := by
      rw [List.map_map]
      exact List.map_congr_left fun place _ => collected place
    rw [kept, mergeSorted_take within, ascending_congr (flatten_dealtTo_perm stream)]
  · intro list member
    obtain ⟨place, _, rfl⟩ := List.mem_map.mp member
    exact TopK.ascends_toSorted _
  · have none_ : (TopK.empty limit : TopK κ).toSorted = [] := by
      rw [TopK.toSorted, TopK.empty, (ascending_perm []).eq_nil, List.take_nil]
    rw [deal_apply, TopK.toSorted_foldl_push_eq_keepOne, none_]
    rfl

/-- Of six keys in three collectors, the middle one without any, the two smallest are found. -/
theorem mergeSorted_deal_six :
    mergeSorted 2 ((List.finRange 3).map fun place =>
      (deal 2 [((0 : Fin 3), 7), (2, 3), (0, 3), (0, 1), (2, 9), (0, 1)] place).toSorted) =
        [1, 1] := by
  have order : ascending [7, 3, 3, 1, 9, 1] = [1, 1, 3, 3, 7, 9] :=
    (Ascends.eq_ascending (by simp [Ascends]; decide) (by decide)).symm
  obtain ⟨found, -⟩ := mergeSorted_deal (Nat.le_refl 2)
    [((0 : Fin 3), 7), (2, 3), (0, 3), (0, 1), (2, 9), (0, 1)]
  exact found.trans (congrArg (List.take 2) order)

end Lawful

end HeapAtlas
