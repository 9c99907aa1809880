import HeapAtlas.BitSet.Dense

/-! A set of indices for many owners, whose one writing step marks an index and tells if it was. -/

namespace HeapAtlas

/-- A growing set of indices that owners share. -/
structure SharedBitSet where
  words : BitSet.Words
  deriving DecidableEq, Inhabited

namespace SharedBitSet

/-- No marks and no room. -/
def empty : SharedBitSet := ⟨#[]⟩

/-- No marks, with room for `count` indices. -/
def ofCount (count : Nat) : SharedBitSet := ⟨.ofCount count⟩

/-- Number of indices that fit without growing. -/
def capacity (set : SharedBitSet) : Nat := set.words.capacity

/-- Whether an index is marked. -/
def test (set : SharedBitSet) (index : Nat) : Bool := set.words.test index

/-- Marks an index and says whether it was marked already, as one step. -/
def testAndMark (set : SharedBitSet) (index : Nat) : Bool × SharedBitSet :=
  -- Room is made first, so that the mark is never lost.
  let words := set.words.growTo index
  (words.test index, ⟨words.mark index⟩)

/-- Marks an index. -/
def mark (set : SharedBitSet) (index : Nat) : SharedBitSet := (set.testAndMark index).2

/-- Unmarks every index. -/
def reset (set : SharedBitSet) : SharedBitSet := ⟨set.words.cleared⟩

/-- Number of marks. -/
def count (set : SharedBitSet) : Nat := set.words.count

/-- The set for one owner with the same marks and the same room. -/
def toDense (set : SharedBitSet) : DenseBitSet :=
  set.words.ones.foldl DenseBitSet.mark (.ofCount set.capacity)

end SharedBitSet

end HeapAtlas
