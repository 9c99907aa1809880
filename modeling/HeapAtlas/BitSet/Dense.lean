import HeapAtlas.BitSet.Words

/-! A set of indices for one owner, which grows with the largest index marked. -/

namespace HeapAtlas

/-- A growing set of indices. -/
structure DenseBitSet where
  words : BitSet.Words
  deriving DecidableEq, Inhabited

namespace DenseBitSet

/-- No marks and no room. -/
def empty : DenseBitSet := ⟨#[]⟩

/-- No marks, with room for `count` indices. -/
def ofCount (count : Nat) : DenseBitSet := ⟨.ofCount count⟩

/-- Number of indices that fit without growing. -/
def capacity (set : DenseBitSet) : Nat := set.words.capacity

/-- Whether an index is marked. -/
def test (set : DenseBitSet) (index : Nat) : Bool := set.words.test index

/-- Marks an index. -/
def mark (set : DenseBitSet) (index : Nat) : DenseBitSet :=
  ⟨(set.words.growTo index).mark index⟩

/-- Marks an index and says whether it was new. -/
def insert (set : DenseBitSet) (index : Nat) : Bool × DenseBitSet :=
  if set.test index then (false, set) else (true, set.mark index)

/-- Unmarks an index. -/
def erase (set : DenseBitSet) (index : Nat) : DenseBitSet := ⟨set.words.unmark index⟩

/-- Unmarks every index. -/
def reset (set : DenseBitSet) : DenseBitSet := ⟨set.words.cleared⟩

/-- Number of marks. -/
def count (set : DenseBitSet) : Nat := set.words.count

/-- Marked indices, ascending. -/
def ones (set : DenseBitSet) : List Nat := set.words.ones

end DenseBitSet

end HeapAtlas
