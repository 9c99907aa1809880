/-! A set of indices that is emptied by raising a version instead of clearing the marks. -/

namespace HeapAtlas

/-- An index is marked when its stamp is the current version; zero is never a version. -/
structure VersionedBitSet where
  stamps : Array Nat
  version : Nat
  deriving DecidableEq, Inhabited

namespace VersionedBitSet

/-- Stamps are 16 bits wide, so this is the last version before the marks have to be cleared. -/
def lastVersion : Nat := (1 <<< 16) - 1

/-- No marks and no room. -/
def empty : VersionedBitSet := ⟨#[], 1⟩

/-- No marks, with room for `count` indices. -/
def ofCount (count : Nat) : VersionedBitSet := ⟨Array.replicate count 0, 1⟩

/-- Number of indices that fit without growing. -/
def capacity (set : VersionedBitSet) : Nat := set.stamps.size

/-- Makes room for `count` indices. -/
def ensureCount (set : VersionedBitSet) (count : Nat) : VersionedBitSet :=
  { set with stamps := set.stamps ++ Array.replicate (count - set.stamps.size) 0 }

/-- Whether an index is marked. -/
def test (set : VersionedBitSet) (index : Nat) : Bool :=
  set.stamps[index]? == some set.version

/-- Marks an index, at least doubling the room when it does not fit. -/
def mark (set : VersionedBitSet) (index : Nat) : VersionedBitSet :=
  let grown :=
    if set.stamps.size ≤ index then set.ensureCount (max (index + 1) (set.stamps.size * 2))
    else set
  -- An index that does not fit has room by now.
  { grown with stamps := grown.stamps.setIfInBounds index grown.version }

/-- Marks an index and says whether it was new. -/
def insert (set : VersionedBitSet) (index : Nat) : Bool × VersionedBitSet :=
  if set.test index then (false, set) else (true, set.mark index)

/-- Unmarks every index, by the next version or, after the last one, by clearing the stamps. -/
def reset (set : VersionedBitSet) : VersionedBitSet :=
  if set.version < lastVersion then { set with version := set.version + 1 }
  -- After the last version old stamps would come to count again, so they are cleared.
  else ⟨Array.replicate set.stamps.size 0, 1⟩

end VersionedBitSet

end HeapAtlas
