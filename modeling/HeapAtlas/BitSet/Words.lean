/-! Marks packed into 64-bit words, the ground of the growing bit sets. -/

namespace HeapAtlas.BitSet

/-- Marks of indices, 64 to a word, the lowest bit first. -/
abbrev Words := Array UInt64

/-- The word with the one bit that stands for an index. -/
def mask (index : Nat) : UInt64 := 1 <<< UInt64.ofNat (index % 64)

/-- Positions of the bits of a word, ascending. -/
def bitsOf (word : UInt64) : List Nat :=
  (List.range 64).filter fun bit => word &&& mask bit != 0

/-- Position of the lowest bit of a word that has one. -/
def lowest (word : UInt64) : Nat := word.toBitVec.ctz.toNat

/-- A word without its lowest bit. -/
def dropLowest (word : UInt64) : UInt64 := word &&& (word - 1)

/-- A word that loses a bit becomes smaller. -/
theorem toNat_dropLowest_lt {word : UInt64} (left : word ≠ 0) :
    (dropLowest word).toNat < word.toNat := by
  have positive : 0 < word.toNat :=
    Nat.pos_of_ne_zero fun zero => left (UInt64.toNat_inj.mp zero)
  have one : (1 : UInt64) ≤ word := UInt64.le_iff_toNat_le.mpr positive
  -- Masking by the word below leaves no more than that word.
  rw [dropLowest, UInt64.toNat_and, UInt64.toNat_sub_of_le word 1 one, UInt64.toNat_one]
  exact Nat.lt_of_le_of_lt Nat.and_le_right (Nat.sub_lt positive Nat.one_pos)

/-- Positions of the bits of a word, which are taken off it one by one, the lowest first. -/
def takeBits (word : UInt64) : List Nat :=
  if word = 0 then [] else lowest word :: takeBits (dropLowest word)
termination_by word.toNat
decreasing_by exact toNat_dropLowest_lt ‹_›

namespace Words

/-- Unmarked words for `count` indices. -/
def ofCount (count : Nat) : Words := Array.replicate ((count + 63) / 64) 0

/-- Number of indices that fit. -/
def capacity (words : Words) : Nat := words.size * 64

/-- Whether an index is marked; an index that does not fit is not. -/
def test (words : Words) (index : Nat) : Bool :=
  match words[index / 64]? with
  | some word => word &&& mask index != 0
  | none => false

/-- Makes room for an index, at least doubling when words have to be added. -/
def growTo (words : Words) (index : Nat) : Words :=
  let needed := index / 64 + 1
  if words.size < needed then
    -- Doubling keeps the number of times that words are moved small.
    words ++ Array.replicate (max needed (words.size * 2) - words.size) 0
  else words

/-- Marks an index that fits. -/
def mark (words : Words) (index : Nat) : Words :=
  words.modify (index / 64) (· ||| mask index)

/-- Unmarks an index; one that does not fit is unmarked already. -/
def unmark (words : Words) (index : Nat) : Words :=
  words.modify (index / 64) (· &&& ~~~ mask index)

/-- The same room without marks. -/
def cleared (words : Words) : Words := Array.replicate words.size 0

/-- Number of marks. -/
def count (words : Words) : Nat :=
  words.toList.foldl (fun marks word => marks + (bitsOf word).length) 0

/-- Marked indices, ascending. -/
def ones (words : Words) : List Nat :=
  words.toList.zipIdx.flatMap fun (word, position) =>
    -- Words stand in the order of their indices, and so do the bits of each.
    (takeBits word).map fun bit => position * 64 + bit

end Words

end HeapAtlas.BitSet
