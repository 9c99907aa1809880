import Mathlib.Data.List.Basic
import HeapAtlas.Graph.Basic
import HeapAtlas.Proofs.Graph.Ragged

/-! Sorting arrivals by counting: every cursor stays in its own group and fills it in order. -/

namespace HeapAtlas

/-- Of some arrivals, those at one object, in their order. -/
def meantFor (pairs : List (Slot × InEdge)) (target : Slot) : List InEdge :=
  pairs.filterMap fun pair => if pair.1 = target then some pair.2 else none

/-- What is meant for an object is what arrives there. -/
theorem mem_meantFor {pairs : List (Slot × InEdge)} {target : Slot} {arrival : InEdge} :
    arrival ∈ meantFor pairs target ↔ (target, arrival) ∈ pairs := by
  rw [meantFor, List.mem_filterMap]
  constructor
  · intro kept
    obtain ⟨pair, member, equal⟩ := kept
    split at equal
    · -- The arrival that was kept is at the object asked for.
      rename_i same
      cases equal
      exact same ▸ member
    · cases equal
  · intro member
    exact ⟨(target, arrival), member, if_pos rfl⟩

/-- One more arrival is meant for its own target only. -/
theorem meantFor_concat (pairs : List (Slot × InEdge)) (pair : Slot × InEdge) (target : Slot) :
    meantFor (pairs ++ [pair]) target
      = if pair.1 = target then meantFor pairs target ++ [pair.2] else meantFor pairs target := by
  by_cases here : pair.1 = target
  · simp [meantFor, here]
  · simp [meantFor, here]

/-- As many arrivals are meant for an object as have it for a target. -/
theorem length_meantFor (pairs : List (Slot × InEdge)) (target : Slot) :
    (meantFor pairs target).length = (pairs.map (·.1)).count target := by
  -- The induction is on the arrivals, each counted by both sides or by neither.
  induction pairs with
  | nil => rfl
  | cons pair rest ih =>
    rw [List.map_cons, List.count_cons, ← ih]
    by_cases here : pair.1 = target
    · simp [meantFor, here]
    · simp [meantFor, here]

/-- The first of some arrivals at an object are those among the first of all. -/
theorem length_meantFor_le (done rest : List (Slot × InEdge)) (target : Slot) :
    (meantFor done target).length ≤ (meantFor (done ++ rest) target).length := by
  rw [meantFor, meantFor, List.filterMap_append, List.length_append]
  exact Nat.le_add_right _ _

namespace Placing

/-- Once some arrivals are placed, each group holds its share of them, up to its cursor. -/
structure Filled (offsets : Array Nat) (count : Nat) (done : List (Slot × InEdge))
    (placing : Placing) : Prop where
  tiled : (⟨offsets, placing.placed⟩ : Ragged InEdge).Tiled count
  cursor : ∀ target < count, placing.cursors[target]?
    = some (offsets.getD target 0 + (meantFor done target).length)
  held : ∀ target < count, ∀ index < (meantFor done target).length,
    placing.placed[offsets.getD target 0 + index]? = (meantFor done target)[index]?

variable {offsets : Array Nat} {count : Nat} {done : List (Slot × InEdge)} {placing : Placing}

/-- Placing one more arrival fills its group by one place and leaves the others as they are. -/
theorem Filled.place (filled : placing.Filled offsets count done) {pair : Slot × InEdge}
    (within : pair.1 < count)
    (room : ∀ target < count, offsets.getD target 0 + (meantFor (done ++ [pair]) target).length
      ≤ offsets.getD (target + 1) 0) :
    (placing.place pair).Filled offsets count (done ++ [pair]) := by
  obtain ⟨cursors, placed⟩ := placing
  obtain ⟨home, arrival⟩ := pair
  obtain ⟨tiled, cursor, held⟩ := filled
  -- The cursor of the target stands behind what its group holds already.
  have position : cursors.getD home 0 = offsets.getD home 0 + (meantFor done home).length := by
    rw [Array.getD_eq_getD_getElem?, cursor home within, Option.getD_some]
  -- There it has not left the group yet, so it has not left the items.
  have roomHome := room home within
  rw [meantFor_concat, if_pos rfl, List.length_append, List.length_singleton] at roomHome
  have upto : offsets.getD (home + 1) 0 ≤ placed.size :=
    tiled.start_last ▸ tiled.start_mono (Nat.succ_le_of_lt within) (Nat.le_refl count)
  refine ⟨?_, ?_, ?_⟩
  · -- No item is added or removed.
    exact tiled.of_size_eq Array.size_setIfInBounds
  · intro target inside
    -- Only the cursor of the target moves.
    simp only [Placing.place, Array.getElem?_modify, meantFor_concat]
    split
    · rename_i same
      subst same
      rw [cursor home inside, List.length_append, List.length_singleton]
      rfl
    · exact cursor target inside
  · intro target inside index less
    simp only [Placing.place, Array.getElem?_setIfInBounds, position]
    rw [meantFor_concat] at less ⊢
    by_cases same : home = target
    · -- In its own group the arrival comes behind those that are there.
      subst same
      rw [if_pos rfl, List.length_append, List.length_singleton] at less
      rw [if_pos rfl]
      by_cases last : index = (meantFor done home).length
      · rw [last, if_pos rfl, if_pos (by omega), List.getElem?_concat_length]
      · rw [if_neg (by omega), List.getElem?_append_left (by omega)]
        exact held home inside index (by omega)
    · -- Another group ends before this one begins, or begins behind it.
      rw [if_neg same] at less ⊢
      have roomThere := room target inside
      rw [meantFor_concat, if_neg same] at roomThere
      have apart : offsets.getD (home + 1) 0 ≤ offsets.getD target 0
          ∨ offsets.getD (target + 1) 0 ≤ offsets.getD home 0 := by
        rcases Nat.lt_or_gt_of_ne same with before | behind
        · exact .inl (tiled.start_mono before (Nat.le_of_lt inside))
        · exact .inr (tiled.start_mono behind (Nat.le_of_lt within))
      rw [if_neg (by omega)]
      exact held target inside index less

/-- Placing arrivals one after the other keeps every group filled up to its cursor. -/
theorem Filled.foldl_place (filled : placing.Filled offsets count done)
    {rest : List (Slot × InEdge)} (within : ∀ pair ∈ rest, pair.1 < count)
    (room : ∀ target < count, offsets.getD target 0 + (meantFor (done ++ rest) target).length
      ≤ offsets.getD (target + 1) 0) :
    (rest.foldl Placing.place placing).Filled offsets count (done ++ rest) := by
  -- The induction is on what is left to place; what was placed grows by one arrival at a time.
  induction rest generalizing done placing with
  | nil =>
    rw [List.append_nil]
    exact filled
  | cons pair rest ih =>
    have assoc : done ++ pair :: rest = done ++ [pair] ++ rest := by simp
    rw [assoc] at room ⊢
    refine ih (filled.place (within pair List.mem_cons_self) ?_)
      (fun later member => within later (List.mem_cons_of_mem _ member)) room
    -- A group that has room for all of its arrivals has room for the first of them.
    intro target inside
    have fewer := length_meantFor_le (done ++ [pair]) rest target
    have all := room target inside
    omega

/-- Once a group is as long as what is meant for it, it is what is meant for it. -/
theorem Filled.group_eq (filled : placing.Filled offsets count done) {target : Slot}
    (within : target < count)
    (full : offsets.getD target 0 + (meantFor done target).length = offsets.getD (target + 1) 0) :
    (⟨offsets, placing.placed⟩ : Ragged InEdge).group target = meantFor done target := by
  have size : (⟨offsets, placing.placed⟩ : Ragged InEdge).groupSize target
      = (meantFor done target).length := by
    show offsets.getD (target + 1) 0 - offsets.getD target 0 = _
    omega
  rw [Ragged.group_eq_take_drop, size]
  -- Place by place, the group holds the arrival that belongs there.
  apply List.ext_getElem?
  intro index
  rw [List.getElem?_take, List.getElem?_drop, Array.getElem?_toList]
  by_cases less : index < (meantFor done target).length
  · rw [if_pos less]
    exact filled.held target within index less
  · rw [if_neg less, List.getElem?_eq_none (by omega)]

end Placing

end HeapAtlas
