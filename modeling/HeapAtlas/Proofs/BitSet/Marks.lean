import Mathlib.Data.Nat.Bitwise
import HeapAtlas.BitSet.Dense

/-! What a bit set tells after an index was marked, word by word and for the growing set. -/

namespace HeapAtlas.BitSet

/-- The word of one index is a power of two. -/
theorem toNat_mask (index : Nat) : (mask index).toNat = 2 ^ (index % 64) := by
  -- The shift stays below the width of the word, so that no bit is lost.
  have small : index % 64 < 64 := Nat.mod_lt _ (by decide)
  have below : 2 ^ (index % 64) < 2 ^ 64 := Nat.pow_lt_pow_right (by decide) small
  have shift : (UInt64.ofNat (index % 64)).toNat = index % 64 :=
    UInt64.toNat_ofNat_of_lt' (show index % 64 < 2 ^ 64 by omega)
  rw [mask, UInt64.toNat_shiftLeft, shift, UInt64.toNat_one, Nat.mod_eq_of_lt small,
    Nat.shiftLeft_eq, Nat.one_mul, Nat.mod_eq_of_lt below]

/-- Masking a word tells one of its bits. -/
theorem and_mask_ne_zero (word : UInt64) (index : Nat) :
    (word &&& mask index != 0) = word.toNat.testBit (index % 64) := by
  -- As a number, the masked word is the power of two or zero, as the bit is set or not.
  apply Bool.eq_iff_iff.mpr
  rw [bne_iff_ne, ne_eq, ← UInt64.toNat_inj, UInt64.toNat_and, toNat_mask, Nat.and_two_pow]
  cases word.toNat.testBit (index % 64) <;> simp

namespace Words

/-- An index is marked when its bit is set in its word, which is zero where there is none. -/
theorem test_eq_testBit (words : Words) (index : Nat) :
    words.test index = (words[index / 64]?.getD 0).toNat.testBit (index % 64) := by
  -- A word that is missing is read as zero, which has no bit set.
  rw [test]
  cases words[index / 64]? with
  | none => simp
  | some word => exact and_mask_ne_zero word index

/-- Unmarked words tell of no index that it is marked. -/
@[simp] theorem test_ofCount (count index : Nat) : (ofCount count).test index = false := by
  -- Whether or not the index has a word, the word read for it is zero.
  rw [test_eq_testBit, ofCount, Array.getElem?_replicate]
  split <;> simp

/-- Room for an index is there once it was made. -/
theorem lt_size_growTo (words : Words) (index : Nat) :
    index / 64 < (words.growTo index).size := by
  -- Either words were added up to the one of the index, or it was there before.
  simp only [growTo]
  split
  · simp only [Array.size_append, Array.size_replicate]
    omega
  · omega

/-- Making room marks and unmarks nothing. -/
@[simp] theorem test_growTo (words : Words) (index other : Nat) :
    (words.growTo index).test other = words.test other := by
  -- The words added are zero, as a word that is not there counts.
  simp only [growTo]
  split
  · simp only [test_eq_testBit, Array.getElem?_append, Array.getElem?_replicate]
    by_cases within : other / 64 < words.size
    · rw [if_pos within]
    · rw [if_neg within, Array.getElem?_eq_none (by omega : words.size ≤ other / 64)]
      split <;> rfl
  · rfl

/-- Marking an index that fits marks that index and no other. -/
theorem test_mark {words : Words} {index : Nat} (fits : index / 64 < words.size) (other : Nat) :
    (words.mark index).test other = (decide (other = index) || words.test other) := by
  -- Only the word of the index is changed, so both sides are read off the words.
  rw [test_eq_testBit, test_eq_testBit, mark, Array.getElem?_modify]
  by_cases same : index / 64 = other / 64
  · -- In the word of the index, exactly its own bit is added.
    rw [if_pos same, ← same, Array.getElem?_eq_getElem fits]
    simp only [Option.map_some, Option.getD_some, UInt64.toNat_or, Nat.testBit_or, toNat_mask,
      Nat.testBit_two_pow]
    have iff : index % 64 = other % 64 ↔ other = index := by omega
    rw [Bool.or_comm, decide_eq_decide.mpr iff]
  · -- Indices of different words are different.
    have distinct : ¬ other = index := fun equal => same (by rw [equal])
    rw [if_neg same]
    simp [distinct]

/-- Marking an index in the room made for it marks that index and no other. -/
theorem test_mark_growTo (words : Words) (index other : Nat) :
    ((words.growTo index).mark index).test other =
      (decide (other = index) || words.test other) := by
  -- The words grow until the index has one, and only then is its bit set.
  rw [test_mark (lt_size_growTo words index), test_growTo]

/-- Unmarking an index unmarks that index and no other, whether or not it fits. -/
theorem test_unmark (words : Words) (index other : Nat) :
    (words.unmark index).test other = (words.test other && decide (other ≠ index)) := by
  rw [test_eq_testBit, test_eq_testBit, unmark, Array.getElem?_modify]
  by_cases same : index / 64 = other / 64
  · rw [if_pos same]
    cases words[other / 64]? with
    | none => simp
    | some word =>
      -- In the word of the index, exactly its own bit is taken away.
      have within : other % 64 < 64 := Nat.mod_lt _ (by decide)
      have flipped : (~~~mask index).toNat.testBit (other % 64) =
          !(mask index).toNat.testBit (other % 64) := by
        show (~~~(mask index).toBitVec).getLsbD (other % 64) = _
        rw [BitVec.getLsbD_not, decide_eq_true within, Bool.true_and]
        rfl
      have iff : ¬index % 64 = other % 64 ↔ other ≠ index := by omega
      rw [Option.map_some, Option.getD_some, Option.getD_some, UInt64.toNat_and, Nat.testBit_and,
        flipped, toNat_mask, Nat.testBit_two_pow, ← decide_not, decide_eq_decide.mpr iff]
  · have distinct : other ≠ index := fun equal => same (by rw [equal])
    rw [if_neg same, decide_eq_true distinct, Bool.and_true]

/-- No index is marked in words that are cleared. -/
@[simp] theorem test_cleared (words : Words) (index : Nat) : words.cleared.test index = false := by
  rw [test_eq_testBit, cleared, Array.getElem?_replicate]
  split <;> simp

/-- Making room takes no room away. -/
theorem size_le_size_growTo (words : Words) (index : Nat) :
    words.size ≤ (words.growTo index).size := by
  simp only [growTo]
  split
  · rw [Array.size_append]
    exact Nat.le_add_right _ _
  · exact Nat.le_refl _

end Words

end HeapAtlas.BitSet

namespace HeapAtlas.DenseBitSet

/-- A new set tells of no index that it is marked. -/
@[simp] theorem test_ofCount (count index : Nat) : (ofCount count).test index = false :=
  BitSet.Words.test_ofCount count index

/-- Marking an index marks that index and no other. -/
@[simp] theorem test_mark (set : DenseBitSet) (index other : Nat) :
    (set.mark index).test other = (decide (other = index) || set.test other) :=
  BitSet.Words.test_mark_growTo _ _ _

/-- Inserting tells whether the index was unmarked before. -/
@[simp] theorem insert_fst (set : DenseBitSet) (index : Nat) :
    (set.insert index).1 = !set.test index := by
  -- The flag is read off before anything is marked.
  cases known : set.test index <;> simp [insert, known]

/-- Inserting marks the index and no other. -/
@[simp] theorem test_insert_snd (set : DenseBitSet) (index other : Nat) :
    (set.insert index).2.test other = (decide (other = index) || set.test other) := by
  rw [insert]
  split
  · -- An index that was marked before adds nothing.
    rename_i known
    by_cases equal : other = index
    · simp [equal, known]
    · simp [equal]
  · exact test_mark set index other

/-- Unmarking an index unmarks that index and no other. -/
@[simp] theorem test_erase (set : DenseBitSet) (index other : Nat) :
    (set.erase index).test other = (set.test other && decide (other ≠ index)) :=
  BitSet.Words.test_unmark _ _ _

/-- Nothing is marked after a reset. -/
@[simp] theorem test_reset (set : DenseBitSet) (index : Nat) : set.reset.test index = false :=
  BitSet.Words.test_cleared _ _

/-- Marking an index takes no room away. -/
theorem capacity_le_capacity_mark (set : DenseBitSet) (index : Nat) :
    set.capacity ≤ (set.mark index).capacity := by
  have kept : (set.mark index).words.size = (set.words.growTo index).size := Array.size_modify
  rw [capacity, capacity, BitSet.Words.capacity, BitSet.Words.capacity, kept]
  exact Nat.mul_le_mul_right 64 (BitSet.Words.size_le_size_growTo _ _)

/-- Marking a list of indices marks these and no others. -/
theorem test_foldl_mark {α : Type} (index : α → Nat) (items : List α) (set : DenseBitSet)
    (other : Nat) :
    (items.foldl (fun set item => set.mark (index item)) set).test other = true ↔
      (∃ item ∈ items, index item = other) ∨ set.test other = true := by
  -- The set that the rest is marked in has the first index marked already.
  induction items generalizing set with
  | nil => simp
  | cons item rest ih =>
    rw [List.foldl_cons, ih]
    simp only [test_mark, Bool.or_eq_true, decide_eq_true_eq, List.mem_cons, exists_eq_or_imp]
    constructor
    · intro marked
      rcases marked with later | first | before
      · exact .inl (.inr later)
      · exact .inl (.inl first.symm)
      · exact .inr before
    · intro marked
      rcases marked with (first | later) | before
      · exact .inr (.inl first.symm)
      · exact .inl later
      · exact .inr (.inr before)

end HeapAtlas.DenseBitSet
