import HeapAtlas.Proofs.BitSet.History
import HeapAtlas.Proofs.BitSet.Stamps

/-! Any number of calls of a stamped set, whose versions come round while old stamps stay. -/

namespace HeapAtlas.VersionedBitSet

/-- A call of a stamped set. -/
inductive Call where
  | mark (index : Nat)
  | insert (index : Nat)
  | test (index : Nat)
  | reset
  | ensureCount (count : Nat)
  deriving DecidableEq

/-- What a call changes in the marks. -/
def Call.change? : Call → Option BitSet.Change
  | mark index | insert index => some (.mark index)
  | reset => some .reset
  | test _ | ensureCount _ => none

/-- A new set, with room for as many indices as are asked for. -/
def fresh : Option Nat → VersionedBitSet
  | none => empty
  | some count => ofCount count

/-- The set after a call. -/
def perform (set : VersionedBitSet) : Call → VersionedBitSet
  | .mark index => set.mark index
  | .insert index => (set.insert index).2
  | .test _ => set
  | .reset => set.reset
  | .ensureCount count => set.ensureCount count

/-- The set after one call after another. -/
def performAll (set : VersionedBitSet) (calls : List Call) : VersionedBitSet :=
  calls.foldl perform set

/-- A usable set that tells of the marks, and of no other indices. -/
structure Holds (set : VersionedBitSet) (marks : Finset Nat) : Prop where
  usable : set.Usable
  tells : BitSet.Tells set.test marks

/-- Nothing is marked in a new set. -/
theorem holds_fresh (room : Option Nat) : (fresh room).Holds ∅ := by
  cases room with
  | none => exact ⟨usable_empty, BitSet.tells_empty fun index => by simp [fresh, empty, test]⟩
  | some count =>
    refine ⟨usable_ofCount count, BitSet.tells_empty fun index => ?_⟩
    -- The room that is there is stamped with zero, which is not the first version.
    simp only [fresh, ofCount, test, Array.getElem?_replicate]
    split <;> simp

variable {set : VersionedBitSet} {marks : Finset Nat}

/-- A call changes the marks of a set as it says, whatever room the set has to make. -/
theorem Holds.perform (holds : set.Holds marks) (call : Call) :
    (set.perform call).Holds (BitSet.marksAfter marks call.change?.toList) := by
  obtain ⟨usable, tells⟩ := holds
  cases call with
  | mark index => exact ⟨usable.mark index, tells.mark (usable.test_mark index)⟩
  | insert index => exact ⟨usable.insert index, tells.mark (usable.test_insert index)⟩
  | test index => exact ⟨usable, tells⟩
  | reset => exact ⟨usable.reset, BitSet.tells_empty usable.test_reset⟩
  | ensureCount count =>
    -- Room that is made is stamped with zero, so that nothing tests otherwise than before.
    refine ⟨usable.ensureCount count, fun index => ?_⟩
    show (set.ensureCount count).test index = true ↔ index ∈ marks
    rw [usable.test_ensureCount, tells index]

/-- Only a reset leads to another version: to the next one, or back to the first. -/
theorem version_perform (set : VersionedBitSet) (call : Call) :
    (set.perform call).version =
      if call = .reset then if set.version < lastVersion then set.version + 1 else 1
      else set.version := by
  -- Marking makes room and writes a stamp, and neither touches the version.
  have marked (index : Nat) : (set.mark index).version = set.version := by
    unfold mark
    split <;> rfl
  cases call with
  | mark index => exact marked index
  | insert index =>
    show (set.insert index).2.version = set.version
    unfold insert
    split
    · rfl
    · exact marked index
  | test | ensureCount => rfl
  | reset =>
    show set.reset.version = _
    unfold reset
    split <;> rfl

/-- Versions are counted by the resets, and begin again with the first after the last. -/
theorem version_performAll {passed : Nat} (counted : set.version = passed % lastVersion + 1)
    (calls : List Call) :
    (set.performAll calls).version = (passed + calls.count .reset) % lastVersion + 1 := by
  -- The induction is on the calls to come, after any number of resets.
  induction calls generalizing set passed with
  | nil => exact counted
  | cons call rest ih =>
    by_cases resets : call = .reset
    · subst resets
      have last : lastVersion = 65535 := rfl
      have next : (set.perform .reset).version = (passed + 1) % lastVersion + 1 := by
        rw [version_perform, if_pos rfl, counted, last]
        split <;> omega
      rw [performAll, List.foldl_cons]
      refine (ih next).trans ?_
      rw [List.count_cons_self, Nat.add_right_comm, Nat.add_assoc]
    · have same : (set.perform call).version = passed % lastVersion + 1 := by
        rw [version_perform, if_neg resets, counted]
      rw [performAll, List.foldl_cons]
      refine (ih same).trans ?_
      rw [List.count_cons_of_ne resets]

/--
Whatever calls were made of a new set, an index tests as marked exactly when it was marked or
inserted since the last reset, and inserting tells whether it is new.

Room that is made, be it for an index that is marked, marks and unmarks nothing else. Versions come
round with the resets, and no stamp is ever above the one in force.
-/
theorem performAll_tells (room : Option Nat) (calls : List Call) :
    let set := (fresh room).performAll calls
    (∀ index, set.test index = true ↔ BitSet.Marked (calls.filterMap Call.change?) index) ∧
      (∀ index, (set.insert index).1 = true ↔ set.test index = false) ∧
      (∀ count index, (set.ensureCount count).test index = set.test index) ∧
      (∀ index other, other ≠ index → (set.mark index).test other = set.test other ∧
        (set.insert index).2.test other = set.test other) ∧
      set.version = calls.count .reset % lastVersion + 1 ∧
      ∀ stamp ∈ set.stamps, stamp ≤ set.version := by
  intro set
  -- Every call keeps the set usable and its marks told, so that both are so at the end.
  obtain ⟨usable, tells⟩ : set.Holds _ :=
    BitSet.foldl_holds (fun call holds => holds.perform call) (holds_fresh room) calls
  refine ⟨fun index => (tells index).trans (BitSet.mem_marksAfter_iff _ index), fun index => ?_,
    usable.test_ensureCount, fun index other apart => ⟨?_, ?_⟩, ?_, usable.stamp_le⟩
  · rw [insert_fst, Bool.not_eq_true']
  · rw [usable.test_mark, decide_eq_false apart, Bool.false_or]
  · rw [usable.test_insert, decide_eq_false apart, Bool.false_or]
  · have first : (fresh room).version = 0 % lastVersion + 1 := by
      cases room <;> rfl
    rw [version_performAll first, Nat.zero_add]

end HeapAtlas.VersionedBitSet
