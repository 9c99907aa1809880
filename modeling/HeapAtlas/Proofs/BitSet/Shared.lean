import Mathlib.Data.Finset.Card
import HeapAtlas.BitSet.Shared
import HeapAtlas.Proofs.BitSet.Bits

/-! The marks of a bit set one by one and counted, and what owners who share a set are told. -/

namespace HeapAtlas.BitSet

namespace Words

/-- The marked indices of words that stand from a position on. -/
def onesFrom (words : List UInt64) (position : Nat) : List Nat :=
  (words.zipIdx position).flatMap fun (word, position) =>
    (bitsOf word).map fun bit => position * 64 + bit

/-- The marked indices stand as those of the words from the first position on. -/
theorem ones_eq (words : Words) : words.ones = onesFrom words.toList 0 := by
  simp only [ones, onesFrom, takeBits_eq_bitsOf]

/-- The bits of the first word come before those of the other words. -/
theorem onesFrom_cons (word : UInt64) (rest : List UInt64) (position : Nat) :
    onesFrom (word :: rest) position =
      (bitsOf word).map (fun bit => position * 64 + bit) ++ onesFrom rest (position + 1) := rfl

/-- Marked indices of later words follow those of earlier ones. -/
theorem onesFrom_ascends (words : List UInt64) (position : Nat) :
    (onesFrom words position).Pairwise (· < ·) ∧
      ∀ index ∈ onesFrom words position, position * 64 ≤ index := by
  induction words generalizing position with
  | nil => exact ⟨.nil, fun index member => by cases member⟩
  | cons word rest ih =>
    obtain ⟨ascends, later⟩ := ih (position + 1)
    rw [onesFrom_cons]
    constructor
    · refine List.pairwise_append.mpr ⟨?_, ascends, fun first here second there => ?_⟩
      · refine List.pairwise_map.mpr ((bitsOf_pairwise word).imp fun less => ?_)
        omega
      · -- A bit of the first word stands below the first bit of the next.
        obtain ⟨bit, member, rfl⟩ := List.mem_map.mp here
        have inside := ((mem_bitsOf_iff word bit).mp member).1
        have above := later second there
        omega
    · intro index member
      rcases List.mem_append.mp member with here | there
      · obtain ⟨bit, _, rfl⟩ := List.mem_map.mp here
        omega
      · have above := later index there
        omega

/-- Marked indices stand in ascending order. -/
theorem ones_pairwise (words : Words) : words.ones.Pairwise (· < ·) := by
  rw [ones_eq]
  exact (onesFrom_ascends words.toList 0).1

/-- The marked indices are those of which the words tell that they are. -/
theorem mem_ones_iff (words : Words) (index : Nat) :
    index ∈ words.ones ↔ words.test index = true := by
  rw [ones_eq, onesFrom, List.mem_flatMap, test_eq_testBit]
  constructor
  · intro listed
    obtain ⟨⟨word, position⟩, stands, member⟩ := listed
    obtain ⟨bit, set_, rfl⟩ := List.mem_map.mp member
    obtain ⟨inside, tested⟩ := (mem_bitsOf_iff word bit).mp set_
    -- The word of the index is the one that the bit was taken from.
    have word_ : (position * 64 + bit) / 64 = position := by omega
    have bit_ : (position * 64 + bit) % 64 = bit := by omega
    rw [List.mem_zipIdx_iff_getElem?, Array.getElem?_toList] at stands
    rw [word_, bit_, stands]
    exact tested
  · intro tested
    cases stands : words[index / 64]? with
    | none => simp [stands] at tested
    | some word =>
      rw [stands] at tested
      have inside : index % 64 < 64 := Nat.mod_lt _ (by decide)
      refine ⟨(word, index / 64), ?_, List.mem_map.mpr ⟨index % 64, ?_, ?_⟩⟩
      · rw [List.mem_zipIdx_iff_getElem?, Array.getElem?_toList]
        exact stands
      · exact (mem_bitsOf_iff word _).mpr ⟨inside, tested⟩
      · omega

/-- The count of marks is the number of marked indices. -/
theorem count_eq_length_ones (words : Words) : words.count = words.ones.length := by
  -- The induction is on the words, with the count so far in front.
  have general (words : List UInt64) (position marks : Nat) :
      words.foldl (fun marks word => marks + (bitsOf word).length) marks =
        marks + (onesFrom words position).length := by
    induction words generalizing position marks with
    | nil => rfl
    | cons word rest ih =>
      rw [List.foldl_cons, ih (position + 1), onesFrom_cons, List.length_append, List.length_map]
      omega
  rw [ones_eq]
  exact (general words.toList 0 0).trans (Nat.zero_add _)

/-- The count of marks is the number of indices of which the words tell that they are marked. -/
theorem count_eq_card (words : Words) {marked : Finset Nat}
    (tells : ∀ index, index ∈ marked ↔ words.test index = true) : words.count = marked.card := by
  -- The marks are listed without repetition, so their list is as long as their set is large.
  have same : words.ones.toFinset = marked := by
    ext index
    rw [List.mem_toFinset, mem_ones_iff, tells]
  have distinct : words.ones.Nodup := (ones_pairwise words).imp Nat.ne_of_lt
  rw [← same, List.toFinset_card_of_nodup distinct]
  exact count_eq_length_ones words

end Words

end HeapAtlas.BitSet

namespace HeapAtlas

/-- The count of marks is the number of indices of which the set tells that they are marked. -/
theorem DenseBitSet.count_eq_card (set : DenseBitSet) {marked : Finset Nat}
    (tells : ∀ index, index ∈ marked ↔ set.test index = true) : set.count = marked.card :=
  BitSet.Words.count_eq_card set.words tells

namespace SharedBitSet

/-- A new set tells of no index that it is marked. -/
@[simp] theorem test_ofCount (count index : Nat) : (ofCount count).test index = false :=
  BitSet.Words.test_ofCount count index

/-- An owner who marks an index is told whether it was marked before. -/
@[simp] theorem testAndMark_fst (set : SharedBitSet) (index : Nat) :
    (set.testAndMark index).1 = set.test index :=
  BitSet.Words.test_growTo _ _ _

/-- Marking an index marks that index and no other. -/
@[simp] theorem test_testAndMark_snd (set : SharedBitSet) (index other : Nat) :
    (set.testAndMark index).2.test other = (decide (other = index) || set.test other) :=
  BitSet.Words.test_mark_growTo _ _ _

/-- Nothing is marked after a reset. -/
@[simp] theorem test_reset (set : SharedBitSet) (index : Nat) : set.reset.test index = false :=
  BitSet.Words.test_cleared _ _

/-- The set for one owner has the same marks. -/
@[simp] theorem test_toDense (set : SharedBitSet) (index : Nat) :
    set.toDense.test index = set.test index := by
  apply Bool.eq_iff_iff.mpr
  refine (DenseBitSet.test_foldl_mark id set.words.ones (.ofCount set.capacity) index).trans ?_
  simp [BitSet.Words.mem_ones_iff, test]

/-- The set for one owner has at least the same room. -/
theorem capacity_le_capacity_toDense (set : SharedBitSet) :
    set.capacity ≤ set.toDense.capacity := by
  -- The room is there before the first mark, and no mark takes any of it away.
  have kept (indices : List Nat) (dense : DenseBitSet) :
      dense.capacity ≤ (indices.foldl DenseBitSet.mark dense).capacity := by
    induction indices generalizing dense with
    | nil => exact Nat.le_refl _
    | cons index rest ih => exact (dense.capacity_le_capacity_mark index).trans (ih _)
  have room : (DenseBitSet.ofCount set.capacity).capacity = set.capacity := by
    show (Array.replicate ((set.words.size * 64 + 63) / 64) (0 : UInt64)).size * 64 =
      set.words.size * 64
    rw [Array.size_replicate]
    omega
  exact room.symm.le.trans (kept _ _)

end SharedBitSet

end HeapAtlas
