import Mathlib.Data.List.Sort
import HeapAtlas.Proofs.BitSet.Marks

/-! The bits of a word, as its set places and as they are taken off it from the lowest on. -/

namespace HeapAtlas.BitSet

/-- The bits of a word are its places below 64 that are set. -/
theorem mem_bitsOf_iff (word : UInt64) (bit : Nat) :
    bit ∈ bitsOf word ↔ bit < 64 ∧ word.toNat.testBit bit = true := by
  rw [bitsOf, List.mem_filter, List.mem_range, and_mask_ne_zero]
  -- A mask for a place of 64 or more would be that of its remainder.
  constructor
  · intro held
    exact ⟨held.1, by rw [← Nat.mod_eq_of_lt held.1]; exact held.2⟩
  · intro held
    exact ⟨held.1, by rw [Nat.mod_eq_of_lt held.1]; exact held.2⟩

/-- The bits of a word stand in ascending order. -/
theorem bitsOf_pairwise (word : UInt64) : (bitsOf word).Pairwise (· < ·) :=
  List.pairwise_lt_range.filter _

variable {word : UInt64}

/-- The lowest bit of a word is set. -/
theorem testBit_lowest (left : word ≠ 0) : word.toNat.testBit (lowest word) = true :=
  BitVec.getLsbD_true_ctz_of_ne_zero fun zero => left (UInt64.toBitVec_inj.mp zero)

/-- Nothing is set below the lowest bit of a word. -/
theorem testBit_of_lt_lowest {bit : Nat} (below : bit < lowest word) :
    word.toNat.testBit bit = false :=
  BitVec.getLsbD_false_of_lt_ctz below

/-- A word is an odd number, shifted to the place of its lowest bit. -/
theorem exists_toNat_eq (left : word ≠ 0) :
    ∃ half, word.toNat = 2 ^ lowest word * (2 * half + 1) := by
  -- Nothing is left over below the lowest bit, since no place there is set.
  have cleared : word.toNat % 2 ^ lowest word = 0 := by
    apply Nat.eq_of_testBit_eq
    intro bit
    rw [Nat.testBit_mod_two_pow, Nat.zero_testBit]
    by_cases below : bit < lowest word
    · rw [testBit_of_lt_lowest below, Bool.and_false]
    · rw [decide_eq_false below, Bool.false_and]
  -- From the lowest bit on, the number ends with that bit, and so is odd.
  have odd : word.toNat / 2 ^ lowest word % 2 = 1 := by
    have lowestSet := testBit_lowest left
    rw [Nat.testBit_eq_decide_div_mod_eq, decide_eq_true_eq] at lowestSet
    exact lowestSet
  refine ⟨word.toNat / 2 ^ lowest word / 2, ?_⟩
  have shifted := Nat.div_add_mod word.toNat (2 ^ lowest word)
  have halved := Nat.div_add_mod (word.toNat / 2 ^ lowest word) 2
  rw [odd] at halved
  rw [halved, ← Nat.add_zero (_ * _), ← cleared]
  exact shifted.symm

/-- One less than a word has all places below its lowest bit set, and not that bit. -/
theorem toNat_sub_one_eq {half : Nat} (shape : word.toNat = 2 ^ lowest word * (2 * half + 1)) :
    (word - 1).toNat = 2 ^ lowest word * (2 * half) + (2 ^ lowest word - 1) := by
  have room : 0 < 2 ^ lowest word := Nat.two_pow_pos _
  have one : (1 : UInt64) ≤ word := by
    rw [UInt64.le_iff_toNat_le, shape]
    exact Nat.mul_pos room (Nat.succ_pos _)
  -- The one is taken from the lowest bit, whose power splits into itself and the places below.
  rw [UInt64.toNat_sub_of_le word 1 one, UInt64.toNat_one, shape, Nat.mul_succ]
  omega

/-- Taking the lowest bit off a word leaves all its other bits. -/
theorem testBit_dropLowest (left : word ≠ 0) (bit : Nat) :
    (dropLowest word).toNat.testBit bit =
      (word.toNat.testBit bit && decide (bit ≠ lowest word)) := by
  obtain ⟨half, shape⟩ := exists_toNat_eq left
  have room : 2 ^ lowest word - 1 < 2 ^ lowest word :=
    Nat.sub_lt (Nat.two_pow_pos _) Nat.one_pos
  rw [dropLowest, UInt64.toNat_and, Nat.testBit_and, toNat_sub_one_eq shape,
    Nat.testBit_two_pow_mul_add _ room]
  rcases Nat.lt_trichotomy bit (lowest word) with below | rfl | above
  · -- Below the lowest bit nothing was set, so that nothing is kept.
    rw [testBit_of_lt_lowest below, Bool.false_and, Bool.false_and]
  · -- At the lowest bit, one less is even.
    rw [if_neg (Nat.lt_irrefl _), Nat.sub_self, Nat.testBit_zero]
    simp
  · -- Above the lowest bit, the word and one less than it are the same.
    have apart : bit ≠ lowest word := Nat.ne_of_gt above
    obtain ⟨place, rfl⟩ := Nat.exists_eq_add_of_lt above
    rw [if_neg (by omega), decide_eq_true apart, Bool.and_true, shape, Nat.testBit_two_pow_mul]
    have offset : lowest word + place + 1 - lowest word = place + 1 := by omega
    rw [offset, Nat.testBit_succ, Nat.testBit_succ]
    have even : 2 * half / 2 = half := by omega
    have next : (2 * half + 1) / 2 = half := by omega
    rw [even, next, decide_eq_true (by omega), Bool.true_and, Bool.and_self]

/-- The lowest bit of a word is one of its bits. -/
theorem lowest_mem_bitsOf (left : word ≠ 0) : lowest word ∈ bitsOf word := by
  refine (mem_bitsOf_iff word _).mpr ⟨?_, testBit_lowest left⟩
  -- Beyond its width a word has nothing set.
  by_contra beyond
  have reach : 2 ^ 64 ≤ 2 ^ lowest word :=
    Nat.pow_le_pow_right Nat.two_pos (Nat.le_of_not_lt beyond)
  have wide : word.toNat < 2 ^ lowest word := Nat.lt_of_lt_of_le word.toNat_lt reach
  have lowestSet := testBit_lowest left
  rw [Nat.testBit_lt_two_pow wide] at lowestSet
  exact Bool.false_ne_true lowestSet

/-- No bit of a word is below its lowest one. -/
theorem lowest_le_of_mem {bit : Nat} (member : bit ∈ bitsOf word) : lowest word ≤ bit := by
  refine Nat.le_of_not_lt fun below => ?_
  rw [mem_bitsOf_iff, testBit_of_lt_lowest below] at member
  exact Bool.false_ne_true member.2

/-- Without its lowest bit a word has its other bits. -/
theorem mem_bitsOf_dropLowest_iff (left : word ≠ 0) (bit : Nat) :
    bit ∈ bitsOf (dropLowest word) ↔ bit ∈ bitsOf word ∧ bit ≠ lowest word := by
  rw [mem_bitsOf_iff, mem_bitsOf_iff, testBit_dropLowest left, Bool.and_eq_true,
    decide_eq_true_eq, and_assoc]

/-- What is taken off a word, one bit after another, are its bits. -/
theorem takeBits_eq_bitsOf (word : UInt64) : takeBits word = bitsOf word := by
  -- The induction follows the loop, so that the rest is known to be right.
  fun_induction takeBits word with
  | case1 => rfl
  | case2 word left ih =>
    rw [ih]
    -- Both lists ascend, so that it is enough that they have the same bits.
    have ascends : (lowest word :: bitsOf (dropLowest word)).Pairwise (· < ·) := by
      refine List.pairwise_cons.mpr ⟨fun bit member => ?_, bitsOf_pairwise _⟩
      obtain ⟨held, apart⟩ := (mem_bitsOf_dropLowest_iff left bit).mp member
      exact Nat.lt_of_le_of_ne (lowest_le_of_mem held) (Ne.symm apart)
    refine List.Pairwise.eq_of_mem_iff ascends (bitsOf_pairwise word) fun bit => ?_
    rw [List.mem_cons, mem_bitsOf_dropLowest_iff left]
    by_cases same : bit = lowest word
    · simp [same, lowest_mem_bitsOf left]
    · simp [same]

end HeapAtlas.BitSet
