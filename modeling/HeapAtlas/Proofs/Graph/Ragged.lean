import Mathlib.Algebra.BigOperators.Group.Finset.Basic
import Mathlib.Algebra.Order.BigOperators.Group.List
import Mathlib.Algebra.Order.Group.Nat
import Mathlib.Algebra.Ring.Nat
import Mathlib.Data.List.Induction
import HeapAtlas.Graph.Ragged

/-! Ragged columns: where their groups lie, and what a group holds after others were added. -/

namespace HeapAtlas.Ragged

variable {α β : Type}

/-- A group is what is left of the items from its start, up to its size. -/
theorem group_eq_take_drop (ragged : Ragged α) (index : Nat) :
    ragged.group index
      = (ragged.items.toList.drop (ragged.start index)).take (ragged.groupSize index) := by
  -- The items between two offsets are cut out of the list of all items.
  rw [group, Array.toList_extract, List.extract_eq_take_drop, groupSize]

/-- An item of a group stands at a position between the group's offsets. -/
theorem mem_group {ragged : Ragged α} {index : Nat} {item : α} :
    item ∈ ragged.group index ↔
      ∃ position ∈ ragged.positions index, ragged.items[position]? = some item := by
  -- Both sides count the positions of the group from its start.
  simp only [positions, List.mem_range'_1]
  rw [group_eq_take_drop, List.mem_iff_getElem?]
  simp only [List.getElem?_take, List.getElem?_drop, Array.getElem?_toList]
  constructor
  · intro listed
    obtain ⟨offset, held⟩ := listed
    split at held
    · exact ⟨ragged.start index + offset, ⟨by omega, by omega⟩, held⟩
    · cases held
  · intro placed
    obtain ⟨position, ⟨above, below⟩, held⟩ := placed
    refine ⟨position - ragged.start index, ?_⟩
    have here : ragged.start index + (position - ragged.start index) = position := by omega
    -- Its place in the group is how far it stands behind the group's start.
    rw [if_pos (by omega), here, held]

/-- Changing every item changes the items of each group. -/
@[simp] theorem group_map (f : α → β) (ragged : Ragged α) (index : Nat) :
    (ragged.map f).group index = (ragged.group index).map f := by
  simp only [group, map, start, stop, ← Array.toList_map, Array.map_extract]

/-- Changing every item moves no position. -/
@[simp] theorem positions_map (f : α → β) (ragged : Ragged α) (index : Nat) :
    (ragged.map f).positions index = ragged.positions index := rfl

/-- An added group's items stand behind all others. -/
@[simp] theorem toList_items_push (ragged : Ragged α) (group : List α) :
    (ragged.push group).items.toList = ragged.items.toList ++ group := Array.toList_appendList

/-- An added group adds as many items as it has. -/
@[simp] theorem size_items_push (ragged : Ragged α) (group : List α) :
    (ragged.push group).items.size = ragged.items.size + group.length := by
  -- Items are counted in the list of all items, where the new ones are appended.
  rw [← Array.length_toList, toList_items_push, List.length_append, Array.length_toList]

namespace Tiled

variable {ragged : Ragged α} {groups : Nat}

/-- Tiled offsets say how many groups there are. -/
theorem groupCount_eq (tiled : ragged.Tiled groups) : ragged.groupCount = groups := by
  rw [groupCount, tiled.size_offsets]
  omega

/-- Later groups begin no earlier. -/
theorem start_mono (tiled : ragged.Tiled groups) {i j : Nat} (order : i ≤ j) (within : j ≤ groups) :
    ragged.start i ≤ ragged.start j := tiled.monotone i j order within

/-- The first group begins at the first item. -/
theorem start_zero_eq (tiled : ragged.Tiled groups) : ragged.start 0 = 0 := by
  -- The first offset is there, so it is not the one taken for a missing one.
  rw [start, Array.getD_eq_getD_getElem?, tiled.start_zero]
  rfl

/-- Behind the last group stand no more items. -/
theorem start_last (tiled : ragged.Tiled groups) : ragged.start groups = ragged.items.size := by
  -- The last offset is there too, and it is the number of items.
  rw [start, Array.getD_eq_getD_getElem?, tiled.stop_last]
  rfl

/-- Past the last group there are no items. -/
theorem groupSize_of_ge (tiled : ragged.Tiled groups) {index : Nat} (past : groups ≤ index) :
    ragged.groupSize index = 0 := by
  -- There is no offset behind the last group, and a missing one is taken for zero.
  rw [groupSize, stop, Array.getD_eq_getD_getElem?,
    Array.getElem?_eq_none (by rw [tiled.size_offsets]; omega), Option.getD_none, Nat.zero_sub]

/-- An item in a group tells that the group is there. -/
theorem lt_of_mem_group (tiled : ragged.Tiled groups) {index : Nat} {item : α}
    (member : item ∈ ragged.group index) : index < groups := by
  -- A group that is not there has no room for an item.
  apply Nat.lt_of_not_le
  intro past
  rw [group_eq_take_drop, tiled.groupSize_of_ge past, List.take_zero] at member
  cases member

/-- A group has as many items as there are between its offsets. -/
theorem length_group (tiled : ragged.Tiled groups) {index : Nat} (within : index < groups) :
    (ragged.group index).length = ragged.start (index + 1) - ragged.start index := by
  -- A group ends no later than the items, so none of its positions is cut off.
  have upto : ragged.start (index + 1) ≤ ragged.items.size :=
    tiled.start_last ▸ tiled.start_mono (Nat.succ_le_of_lt within) (Nat.le_refl _)
  simp only [group, Array.length_toList, Array.size_extract]
  change min (ragged.start (index + 1)) _ - _ = _
  omega

/-- The groups together have all items. -/
theorem sum_length_group (tiled : ragged.Tiled groups) :
    ∑ index ∈ Finset.range groups, (ragged.group index).length = ragged.items.size := by
  -- Up to a group, the groups have the items before its offset.
  have upto : ∀ count ≤ groups,
      ∑ index ∈ Finset.range count, (ragged.group index).length = ragged.start count := by
    intro count
    induction count with
    | zero => exact fun _ => tiled.start_zero_eq.symm
    | succ count ih =>
      intro within
      -- The next group adds what lies between its offsets.
      have rises := tiled.start_mono (Nat.le_add_right count 1) within
      rw [Finset.sum_range_succ, ih (by omega), tiled.length_group (by omega)]
      omega
  rw [upto groups (Nat.le_refl _), tiled.start_last]

/-- Group by group, the positions of the items are counted through. -/
theorem flatMap_positions (tiled : ragged.Tiled groups) :
    (List.range groups).flatMap ragged.positions = List.range ragged.items.size := by
  -- Up to a group, the positions before its offset are counted through.
  have upto : ∀ count ≤ groups,
      (List.range count).flatMap ragged.positions = List.range (ragged.start count) := by
    intro count
    induction count with
    | zero =>
      intro _
      rw [tiled.start_zero_eq]
      rfl
    | succ count ih =>
      intro within
      -- The next group goes on where the one before it ended.
      have rises : ragged.start count + ragged.groupSize count = ragged.start (count + 1) :=
        Nat.add_sub_cancel' (tiled.start_mono (Nat.le_add_right count 1) within)
      have joined := List.range'_append_1 (s := 0) (m := ragged.start count)
        (n := ragged.groupSize count)
      rw [Nat.zero_add, rises] at joined
      rw [List.range_succ, List.flatMap_append, ih (by omega), List.flatMap_singleton, positions,
        List.range_eq_range', joined, List.range_eq_range']
  rw [upto groups (Nat.le_refl _), tiled.start_last]

/-- Every item stands at a position of some group. -/
theorem exists_mem_positions (tiled : ragged.Tiled groups) {position : Nat}
    (within : position < ragged.items.size) :
    ∃ index < groups, position ∈ ragged.positions index := by
  -- The positions of all groups in a row are all positions.
  have counted : position ∈ (List.range groups).flatMap ragged.positions := by
    rw [tiled.flatMap_positions, List.mem_range]
    exact within
  simpa only [List.mem_flatMap, List.mem_range] using counted

/-- Every item stands in one of the groups. -/
theorem exists_mem_group (tiled : ragged.Tiled groups) {item : α} (member : item ∈ ragged.items) :
    ∃ index < groups, item ∈ ragged.group index := by
  obtain ⟨position, held⟩ := Array.mem_iff_getElem?.mp member
  obtain ⟨index, less, among⟩ :=
    tiled.exists_mem_positions (Array.getElem?_eq_some_iff.mp held).1
  exact ⟨index, less, mem_group.mpr ⟨position, among, held⟩⟩

/-- Later positions are in later groups, or in the same. -/
theorem index_le (tiled : ragged.Tiled groups) {i j p q : Nat} (first : p ∈ ragged.positions i)
    (second : q ∈ ragged.positions j) (order : p ≤ q) : i ≤ j := by
  simp only [positions, List.mem_range'_1] at first second
  -- A group with a position is there.
  have present : i < groups := by
    apply Nat.lt_of_not_le
    intro past
    rw [tiled.groupSize_of_ge past] at first
    omega
  apply Nat.le_of_not_lt
  intro behind
  -- An earlier group would have ended before the later one begins.
  have ended : ragged.start (j + 1) ≤ ragged.start i := tiled.start_mono behind (by omega)
  have size : ragged.groupSize j = ragged.start (j + 1) - ragged.start j := rfl
  omega

/-- Whether offsets are tiled depends on the number of items only. -/
theorem of_size_eq (tiled : ragged.Tiled groups) {items : Array α}
    (same : items.size = ragged.items.size) :
    (⟨ragged.offsets, items⟩ : Ragged α).Tiled groups where
  size_offsets := tiled.size_offsets
  start_zero := tiled.start_zero
  monotone := tiled.monotone
  stop_last := by rw [tiled.stop_last, same]

/-- Changing every item moves no offset. -/
theorem map (tiled : ragged.Tiled groups) (f : α → β) : (ragged.map f).Tiled groups where
  size_offsets := tiled.size_offsets
  start_zero := tiled.start_zero
  monotone := tiled.monotone
  stop_last := by simpa [Ragged.map] using tiled.stop_last

/-- Offsets after a group was added: the old ones, and the end of the new group. -/
theorem getElem?_offsets_push (tiled : ragged.Tiled groups) (group : List α) (index : Nat) :
    (ragged.push group).offsets[index]?
      = if index = groups + 1 then some (ragged.items.size + group.length)
        else ragged.offsets[index]? := by
  -- The new offset is pushed behind the `groups + 1` that were there.
  simp only [push, Array.getElem?_push, tiled.size_offsets]

/-- A group added behind tiled ones leaves them tiled. -/
theorem push (tiled : ragged.Tiled groups) (group : List α) :
    (ragged.push group).Tiled (groups + 1) where
  size_offsets := by simp [Ragged.push, tiled.size_offsets]
  start_zero := by
    -- The first offset is an old one, as there was at least one before.
    rw [tiled.getElem?_offsets_push, if_neg (by omega), tiled.start_zero]
  monotone := by
    intro i j order within
    -- Only the last offset is new, and it is not below the end of the items before.
    simp only [Array.getD_eq_getD_getElem?, tiled.getElem?_offsets_push]
    by_cases last : j = groups + 1
    · rw [if_pos last]
      by_cases same : i = groups + 1
      · -- Both are the new offset.
        simp [same]
      · -- An old offset lies within the old items.
        rw [if_neg same, ← Array.getD_eq_getD_getElem?]
        have upto : ragged.start i ≤ ragged.items.size :=
          tiled.start_last ▸ tiled.start_mono (by omega : i ≤ groups) (Nat.le_refl _)
        exact Nat.le_trans upto (Nat.le_add_right _ _)
    · -- Both offsets are old.
      rw [if_neg last, if_neg (by omega), ← Array.getD_eq_getD_getElem?,
        ← Array.getD_eq_getD_getElem?]
      exact tiled.monotone i j order (by omega)
  stop_last := by
    rw [tiled.getElem?_offsets_push, if_pos rfl, size_items_push]

/-- What the groups hold after one was added. -/
theorem group_push (tiled : ragged.Tiled groups) (added : List α) (index : Nat) :
    (ragged.push added).group index = if index = groups then added else ragged.group index := by
  -- A new group changes only the last offset, which ends that group and begins none.
  have starts : (ragged.push added).start index
      = if index = groups + 1 then ragged.items.size + added.length else ragged.start index := by
    simp only [start, Array.getD_eq_getD_getElem?, tiled.getElem?_offsets_push]
    split <;> rfl
  have stops : (ragged.push added).stop index
      = if index = groups then ragged.items.size + added.length else ragged.stop index := by
    simp only [stop, Array.getD_eq_getD_getElem?, tiled.getElem?_offsets_push,
      Nat.add_right_cancel_iff]
    split <;> rfl
  rcases Nat.lt_trichotomy index groups with less | rfl | more
  · -- Old groups lie before the added items and keep theirs.
    have order : ragged.start index ≤ ragged.stop index :=
      tiled.start_mono (Nat.le_add_right index 1) (by omega)
    have upto : ragged.stop index ≤ ragged.items.size :=
      tiled.start_last ▸ tiled.start_mono (by omega : index + 1 ≤ groups) (Nat.le_refl _)
    rw [if_neg (by omega)] at starts stops
    rw [if_neg (by omega), group_eq_take_drop, group_eq_take_drop, groupSize, groupSize, starts,
      stops, toList_items_push,
      List.drop_append_of_le_length (by rw [Array.length_toList]; omega),
      List.take_append_of_le_length (by rw [List.length_drop, Array.length_toList]; omega)]
  · -- The new group begins where the old items end, and takes all that was added.
    rw [if_neg (by omega), tiled.start_last] at starts
    rw [if_pos rfl] at stops
    rw [if_pos rfl, group_eq_take_drop, groupSize, starts, stops, toList_items_push,
      ← Array.length_toList, List.drop_left, Nat.add_sub_cancel_left, List.take_length]
  · -- Past the new group nothing is there, before as after.
    rw [if_neg (by omega), group_eq_take_drop, group_eq_take_drop,
      (tiled.push added).groupSize_of_ge more, tiled.groupSize_of_ge (Nat.le_of_lt more),
      List.take_zero, List.take_zero]

end Tiled

/-- Without groups, the offsets are tiled. -/
theorem tiled_empty : (empty : Ragged α).Tiled 0 where
  size_offsets := rfl
  start_zero := rfl
  monotone := by
    intro i j order within
    -- There is only one offset to be compared.
    have same : i = j := by omega
    exact same ▸ Nat.le_refl _
  stop_last := rfl

/-- The groups of a list are tiled and come back in its order. -/
theorem tiled_ofGroups (groups : List (List α)) :
    (ofGroups groups).Tiled groups.length ∧
      ∀ index, (ofGroups groups).group index = groups[index]?.getD [] := by
  -- The groups are added from the first to the last, so the induction runs from the back.
  induction groups using List.reverseRecOn with
  | nil => exact ⟨tiled_empty, fun index => by simp [ofGroups, group, empty]⟩
  | append_singleton before last ih =>
    obtain ⟨tiled, groupAt⟩ := ih
    have pushed : ofGroups (before ++ [last]) = (ofGroups before).push last := by
      simp [ofGroups]
    rw [pushed, List.length_append, List.length_singleton]
    refine ⟨tiled.push last, fun index => ?_⟩
    rw [tiled.group_push, groupAt]
    rcases Nat.lt_trichotomy index before.length with less | rfl | more
    · -- Groups added before are those of the list without its last one.
      rw [if_neg (by omega), List.getElem?_append_left less]
    · rw [if_pos rfl, List.getElem?_concat_length, Option.getD_some]
    · -- Neither the groups nor the list reach this far.
      rw [if_neg (by omega), List.getElem?_eq_none (by omega),
        List.getElem?_eq_none (by rw [List.length_append, List.length_singleton]; omega)]

/-- The groups of a list are laid end to end. -/
theorem toList_items_ofGroups (groups : List (List α)) :
    (ofGroups groups).items.toList = groups.flatten := by
  -- From the back, as the fold puts each group behind those before it.
  induction groups using List.reverseRecOn with
  | nil => rfl
  | append_singleton before last ih =>
    rw [ofGroups, List.foldl_append, List.foldl_cons, List.foldl_nil, toList_items_push, ← ofGroups,
      ih, List.flatten_append, List.flatten_singleton]

/-- A group of a list begins where the groups before it end. -/
theorem start_ofGroups (groups : List (List α)) {index : Nat} (upto : index ≤ groups.length) :
    (ofGroups groups).start index = (groups.take index).flatten.length := by
  -- The groups are added from the first to the last, so the induction runs from the back.
  induction groups using List.reverseRecOn generalizing index with
  | nil =>
    have first : index = 0 := Nat.le_zero.mp upto
    subst first
    rfl
  | append_singleton before last ih =>
    have tiled := (tiled_ofGroups before).1
    rw [ofGroups, List.foldl_append, List.foldl_cons, List.foldl_nil, ← ofGroups, start,
      Array.getD_eq_getD_getElem?, tiled.getElem?_offsets_push]
    rw [List.length_append, List.length_singleton] at upto
    by_cases newest : index = before.length + 1
    · -- Behind the last group is the end of everything.
      rw [if_pos newest, newest, List.take_of_length_le (by simp), Option.getD_some,
        ← Array.length_toList, toList_items_ofGroups, List.flatten_append, List.flatten_singleton,
        List.length_append]
    · -- Older groups begin where they did.
      rw [if_neg newest, List.take_append_of_le_length (by omega), ← ih (by omega), start,
        Array.getD_eq_getD_getElem?]

/-- For groups of given sizes there is one offset more than there are groups. -/
theorem size_offsetsOf (sizes : List Nat) : (offsetsOf sizes).size = sizes.length + 1 := by
  induction sizes using List.reverseRecOn with
  | nil => rfl
  | append_singleton before last ih =>
    -- Every size pushes one more offset.
    rw [offsetsOf, List.foldl_append, List.foldl_cons, List.foldl_nil, Array.size_push, ← offsetsOf,
      ih, List.length_append, List.length_singleton]

/-- A group begins where the sizes of the groups before it add up to. -/
theorem getElem?_offsetsOf (sizes : List Nat) {index : Nat} (upto : index ≤ sizes.length) :
    (offsetsOf sizes)[index]? = some (sizes.take index).sum := by
  -- Offsets are added from the first to the last, so the induction runs from the back.
  induction sizes using List.reverseRecOn generalizing index with
  | nil =>
    have first : index = 0 := Nat.le_zero.mp upto
    subst first
    rfl
  | append_singleton before last ih =>
    rw [offsetsOf, List.foldl_append, List.foldl_cons, List.foldl_nil, ← offsetsOf,
      Array.getElem?_push, size_offsetsOf]
    rw [List.length_append, List.length_singleton] at upto
    by_cases newest : index = before.length + 1
    · -- The new offset lies one size behind the last one before it.
      have behind : (offsetsOf before).back? = some before.sum := by
        rw [Array.back?_eq_getElem?, size_offsetsOf, Nat.add_sub_cancel, ih (Nat.le_refl _),
          List.take_length]
      rw [if_pos newest, behind, newest, Option.getD_some,
        List.take_of_length_le (by simp), List.sum_append, List.sum_singleton]
    · -- Older offsets stay, and the sizes before them too.
      rw [if_neg newest, ih (by omega), List.take_append_of_le_length (by omega)]

/-- Offsets made from sizes are tiled, when there are as many items as the sizes say. -/
theorem tiled_offsetsOf {sizes : List Nat} {items : Array α} (fills : items.size = sizes.sum) :
    (⟨offsetsOf sizes, items⟩ : Ragged α).Tiled sizes.length where
  size_offsets := size_offsetsOf sizes
  start_zero := by rw [getElem?_offsetsOf sizes (Nat.zero_le _), List.take_zero, List.sum_nil]
  monotone := by
    intro i j order within
    -- More sizes add up to no less.
    rw [Array.getD_eq_getD_getElem?, Array.getD_eq_getD_getElem?,
      getElem?_offsetsOf sizes (Nat.le_trans order within), getElem?_offsetsOf sizes within]
    have fewer : (sizes.take i).Sublist (sizes.take j) := List.take_sublist_take_left order
    exact fewer.sum_le_sum fun _ _ => Nat.zero_le _
  stop_last := by rw [getElem?_offsetsOf sizes (Nat.le_refl _), List.take_length, fills]

end HeapAtlas.Ragged
