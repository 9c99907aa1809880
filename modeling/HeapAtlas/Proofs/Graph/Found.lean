import HeapAtlas.Proofs.Graph.Faultless

/-! Every identifier in an ascending column is found, by halving as well as by the table. -/

namespace HeapAtlas

namespace SlotIndex

/-- An entry that a pair puts stays, if no pair puts another one in its place. -/
theorem foldl_setIfInBounds {base : UInt64} {offset : Nat} {slot : Slot}
    (pairs : List (ObjectId × Nat)) (slots : Array (Option Slot)) (within : offset < slots.size)
    (put : slots[offset]? = some (some slot) ∨
      ∃ id, (id, slot) ∈ pairs ∧ id.raw.toNat - base.toNat = offset)
    (alone : ∀ pair ∈ pairs, pair.1.raw.toNat - base.toNat = offset → pair.2 = slot) :
    (pairs.foldl (fun slots pair =>
      slots.setIfInBounds (pair.1.raw.toNat - base.toNat) (some pair.2)) slots)[offset]? =
        some (some slot) := by
  -- The induction is on the pairs, each of which puts the entry, keeps it or puts another one.
  induction pairs generalizing slots with
  | nil =>
    rcases put with before | ⟨id, member, _⟩
    · exact before
    · cases member
  | cons pair pairs ih =>
    rw [List.foldl_cons]
    refine ih _ (by simpa using within) ?_ fun other later => alone other (.tail _ later)
    rw [Array.getElem?_setIfInBounds]
    by_cases here : pair.1.raw.toNat - base.toNat = offset
    · rw [if_pos here, here, if_pos within, alone pair List.mem_cons_self here]
      exact .inl rfl
    · rw [if_neg here]
      rcases put with before | ⟨id, member, far⟩
      · exact .inl before
      · rcases List.mem_cons.mp member with rfl | later
        · exact absurd far here
        · exact .inr ⟨id, later, far⟩

variable {ids : Array ObjectId} {id : ObjectId} {slot : Slot}

/-- An identifier stands in one slot. -/
theorem slot_unique (ascends : (ids.toList.map (·.raw)).Pairwise (· < ·)) {i j : Slot}
    {one other : ObjectId} (atOne : ids[i]? = some one) (atOther : ids[j]? = some other)
    (same : one.raw = other.raw) : i = j := by
  -- Ascending identifiers are distinct.
  have distinct : (ids.toList.map (·.raw)).Nodup := ascends.imp UInt64.ne_of_lt
  have inOne := (Array.getElem?_eq_some_iff.mp atOne).1
  refine (List.getElem?_inj (by simpa using inOne) distinct).mp ?_
  simp [atOne, atOther, same]

/-- Halving finds each of ascending identifiers in its slot. -/
theorem lookup_sorted_complete (ascends : (ids.toList.map (·.raw)).Pairwise (· < ·))
    (held : ids[slot]? = some id) :
    sorted.lookup (fun slot => ids[slot]?) ids.size id = some slot := by
  have order : (ids.toList.map fun other => other).Pairwise
      fun one other => compare one other = .lt := by
    rw [List.map_id']
    exact (List.pairwise_map.mp ascends).imp (Std.compare_eq_lt (α := UInt64)).mpr
  rw [lookup]
  simpa using bisect?_ascending order held

/-- The table from the first to the last of ascending identifiers finds each in its slot. -/
theorem lookup_direct_complete (ascends : (ids.toList.map (·.raw)).Pairwise (· < ·))
    {first last : ObjectId} (atFirst : ids[0]? = some first) (atLast : ids.back? = some last)
    (count : Nat) (held : ids[slot]? = some id) :
    (direct first.raw (tableOf first.raw (last.raw.toNat - first.raw.toNat + 1) ids.toList)).lookup
      (fun slot => ids[slot]?) count id = some slot := by
  obtain ⟨above, reach⟩ := within_of_ascends ascends atFirst atLast held
  have entry : (tableOf first.raw (last.raw.toNat - first.raw.toNat + 1)
      ids.toList)[id.raw.toNat - first.raw.toNat]? = some (some slot) := by
    apply foldl_setIfInBounds
    · rw [Array.size_replicate]
      exact reach
    · exact .inr ⟨id, List.mem_zipIdx_iff_getElem?.mpr (by simpa using held), rfl⟩
    · -- Another identifier as far from the first one would be the same, in the same slot.
      intro pair member far
      have standing : ids[pair.2]? = some pair.1 := by
        simpa using List.mem_zipIdx_iff_getElem?.mp member
      have least := raw_le_of_ascends ascends (Nat.zero_le pair.2) atFirst standing
      rw [UInt64.le_iff_toNat_le] at above least
      have same : pair.1.raw = id.raw := UInt64.toNat_inj.mp (by omega)
      exact slot_unique ascends standing held same
  rw [lookup, if_pos above, entry]
  rfl

/-- Of ascending identifiers, a look-up finds each in its slot. -/
theorem lookup_build_complete (ascends : (ids.toList.map (·.raw)).Pairwise (· < ·))
    (held : ids[slot]? = some id) :
    (build ids).lookup (fun slot => ids[slot]?) ids.size id = some slot := by
  rw [build]
  -- The table of slots is made where the identifiers lie close together.
  split
  · rename_i first last atFirst atLast
    dsimp only
    split
    · exact lookup_direct_complete ascends atFirst atLast ids.size held
    · exact lookup_sorted_complete ascends held
  · exact lookup_sorted_complete ascends held

end SlotIndex

namespace Columns

variable {columns : Columns}

/-- A class is found exactly when there is a row of it. -/
theorem classSlot?_eq_some_iff
    (ascends : (columns.classes.toList.map (·.id.raw)).Pairwise (· < ·)) {id : ClassId}
    {slot : Slot} :
    columns.classSlot? id = some slot ↔ (columns.classes[slot]?).map (·.id) = some id := by
  constructor
  · intro found
    obtain ⟨row, held, same⟩ := classSlot?_sound found
    rw [held, ← same]
    rfl
  · intro held
    obtain ⟨row, standing, rfl⟩ := Option.map_eq_some_iff.mp held
    -- The search compares identifiers, where the table ascends by their numbers.
    have sorted : (columns.classes.toList.map (·.id)).Pairwise
        fun one other => compare one other = .lt := by
      rw [List.pairwise_map] at ascends ⊢
      exact ascends.imp (Std.compare_eq_lt (α := UInt64)).mpr
    exact bisect?_ascending sorted standing

/-- An object is found exactly when there is a row of it. -/
theorem objectSlot?_eq_some_iff
    (ascends : (columns.objects.toList.map (·.id.raw)).Pairwise (· < ·)) {id : ObjectId}
    {slot : Slot} :
    columns.objectSlot? columns.slotIndex id = some slot ↔
      (columns.objects[slot]?).map (·.id) = some id := by
  have sorted : ((columns.objects.map (·.id)).toList.map (·.raw)).Pairwise (· < ·) := by
    simpa [Function.comp_def] using ascends
  rw [objectSlot?, slotIndex, ← Array.getElem?_map]
  -- The index gives slots of objects alone, and as they ascend it misses none.
  constructor
  · intro found
    exact SlotIndex.lookup_build_sound sorted (by simpa using found)
  · intro held
    simpa using SlotIndex.lookup_build_complete sorted held

/-- There is a slot for a class exactly when there is a row of it. -/
theorem isSome_classSlot?_iff
    (ascends : (columns.classes.toList.map (·.id.raw)).Pairwise (· < ·)) {id : ClassId} :
    (columns.classSlot? id).isSome ↔ id ∈ columns.classes.toList.map (·.id) := by
  rw [Option.isSome_iff_exists, List.mem_iff_getElem?]
  refine exists_congr fun slot => ?_
  rw [classSlot?_eq_some_iff ascends, List.getElem?_map, Array.getElem?_toList]

/-- There is a slot for an object exactly when there is a row of it. -/
theorem isSome_objectSlot?_iff
    (ascends : (columns.objects.toList.map (·.id.raw)).Pairwise (· < ·)) {id : ObjectId} :
    (columns.objectSlot? columns.slotIndex id).isSome ↔ id ∈ columns.objects.toList.map (·.id) := by
  rw [Option.isSome_iff_exists, List.mem_iff_getElem?]
  refine exists_congr fun slot => ?_
  rw [objectSlot?_eq_some_iff ascends, List.getElem?_map, Array.getElem?_toList]

end Columns

end HeapAtlas
