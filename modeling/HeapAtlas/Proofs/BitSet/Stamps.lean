import HeapAtlas.BitSet.Versioned

/-! What a stamped set tells after indices were marked, and that raising its version empties it. -/

namespace HeapAtlas.VersionedBitSet

/-- A set as its operations leave it: no stamp is above the version, a positive 16-bit number. -/
structure Usable (set : VersionedBitSet) : Prop where
  stamp_le : ∀ stamp ∈ set.stamps, stamp ≤ set.version
  version_pos : 0 < set.version
  version_le : set.version ≤ lastVersion

/-- A set without room marks nothing and can be used. -/
theorem usable_empty : empty.Usable where
  stamp_le := by simp [empty]
  version_pos := Nat.one_pos
  version_le := show 1 ≤ lastVersion by decide

/-- The stamps of a new set are zero, below its version. -/
theorem usable_ofCount (count : Nat) : (ofCount count).Usable where
  stamp_le := by
    intro stamp held
    simp only [ofCount, Array.mem_replicate] at held ⊢
    omega
  version_pos := Nat.one_pos
  version_le := show 1 ≤ lastVersion by decide

variable {set : VersionedBitSet}

/-- Room that is made has stamps of zero, which no version reaches down to. -/
theorem Usable.ensureCount (usable : set.Usable) (count : Nat) :
    (set.ensureCount count).Usable where
  stamp_le := by
    intro stamp held
    simp only [VersionedBitSet.ensureCount, Array.mem_append, Array.mem_replicate] at held
    rcases held with old | ⟨_, rfl⟩
    · exact usable.stamp_le stamp old
    · exact Nat.zero_le _
  version_pos := usable.version_pos
  version_le := usable.version_le

/-- Room adds no marks. -/
theorem Usable.test_ensureCount (usable : set.Usable) (count index : Nat) :
    (set.ensureCount count).test index = set.test index := by
  have positive := usable.version_pos
  by_cases within : index < set.stamps.size
  · simp [test, VersionedBitSet.ensureCount, Array.getElem?_append, within]
  · -- Whether the index has room now or not, no version is stamped on it.
    have missing : set.stamps[index]? = none := Array.getElem?_eq_none (by omega)
    simp only [test, VersionedBitSet.ensureCount, Array.getElem?_append, if_neg within,
      Array.getElem?_replicate, missing]
    split
    · have differs : 0 ≠ set.version := by omega
      simp [differs]
    · rfl

/-- Marking stamps an index with the version at hand, so the set can still be used. -/
theorem Usable.mark (usable : set.Usable) (index : Nat) : (set.mark index).Usable := by
  -- The room for the index is made first, and then its stamp becomes the version.
  have grown : ∀ grown : VersionedBitSet, grown.Usable →
      Usable { grown with stamps := grown.stamps.setIfInBounds index grown.version } := by
    intro grown fine
    refine ⟨fun stamp held => ?_, fine.version_pos, fine.version_le⟩
    rcases Array.mem_or_eq_of_mem_setIfInBounds held with old | rfl
    · exact fine.stamp_le stamp old
    · exact Nat.le_refl _
  unfold VersionedBitSet.mark
  split
  · exact grown _ (usable.ensureCount _)
  · exact grown _ usable

/-- Marking an index marks that index and no other. -/
theorem Usable.test_mark (usable : set.Usable) (index other : Nat) :
    (set.mark index).test other = (decide (other = index) || set.test other) := by
  -- With room for the index, its own stamp is the only one that changes.
  have stamped : ∀ grown : VersionedBitSet, index < grown.stamps.size →
      ({ grown with stamps := grown.stamps.setIfInBounds index grown.version } :
        VersionedBitSet).test other = (decide (other = index) || grown.test other) := by
    intro grown room
    simp only [test, Array.getElem?_setIfInBounds]
    by_cases same : index = other
    · subst same
      simp [room]
    · simp [same, Ne.symm same]
  unfold VersionedBitSet.mark
  split
  · rename_i small
    rw [stamped _ (by simp only [VersionedBitSet.ensureCount, Array.size_append,
      Array.size_replicate]; omega), usable.test_ensureCount]
  · exact stamped set (by omega)

/-- Inserting is looking up and marking, and leaves the set usable. -/
theorem Usable.insert (usable : set.Usable) (index : Nat) : (set.insert index).2.Usable := by
  unfold VersionedBitSet.insert
  split
  · exact usable
  · exact usable.mark index

/-- Inserting tells whether the index is new. -/
theorem insert_fst (set : VersionedBitSet) (index : Nat) :
    (set.insert index).1 = !set.test index := by
  cases known : set.test index <;> simp [VersionedBitSet.insert, known]

/-- Inserting marks the index and no other, like marking. -/
theorem Usable.test_insert (usable : set.Usable) (index other : Nat) :
    (set.insert index).2.test other = (decide (other = index) || set.test other) := by
  unfold VersionedBitSet.insert
  -- An index that is marked already is not written again.
  split
  · rename_i known
    by_cases same : other = index
    · simp [same, known]
    · simp [same]
  · exact usable.test_mark index other

/-- A reset takes the next version, or clears all stamps when there is none. -/
theorem Usable.reset (usable : set.Usable) : set.reset.Usable := by
  unfold VersionedBitSet.reset
  -- Only below the last version is there a next one.
  split
  · rename_i below
    refine ⟨fun stamp held => ?_, Nat.succ_pos _, below⟩
    exact Nat.le_succ_of_le (usable.stamp_le stamp held)
  · refine ⟨fun stamp held => ?_, Nat.one_pos, show 1 ≤ lastVersion by decide⟩
    simp only [Array.mem_replicate] at held
    omega

/-- Nothing is marked after a reset: old stamps lie below the new version, or were cleared. -/
theorem Usable.test_reset (usable : set.Usable) (index : Nat) : set.reset.test index = false := by
  unfold VersionedBitSet.reset
  split
  · cases held : set.stamps[index]? with
    | none => simp [test, held]
    | some stamp =>
      -- A stamp is of a version up to now, so never of the next one.
      have old : stamp ≤ set.version := usable.stamp_le stamp (Array.mem_of_getElem? held)
      have differs : stamp ≠ set.version + 1 := by omega
      simp [test, held, differs]
  · simp only [test, Array.getElem?_replicate]
    split <;> simp

end HeapAtlas.VersionedBitSet
