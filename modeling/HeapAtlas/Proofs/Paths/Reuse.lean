import HeapAtlas.Paths
import HeapAtlas.Proofs.BitSet.Stamps

/-! A search answers the same whatever earlier searches have left in its visited set. -/

namespace HeapAtlas

namespace VersionedBitSet

/-- Sets that are usable and mark the same indices, whatever their versions and their room. -/
structure Alike (one other : VersionedBitSet) : Prop where
  usable : one.Usable
  usable_other : other.Usable
  test_eq : ∀ index, one.test index = other.test index

namespace Alike

variable {one other : VersionedBitSet}

/-- After a reset all sets are alike, since nothing is marked in them. -/
theorem of_reset (usable : one.Usable) (usableOther : other.Usable) :
    Alike one.reset other.reset where
  usable := usable.reset
  usable_other := usableOther.reset
  test_eq index := by rw [usable.test_reset, usableOther.test_reset]

/-- Room for more indices keeps sets alike. -/
theorem ensureCount (alike : Alike one other) (count : Nat) :
    Alike (one.ensureCount count) (other.ensureCount count) where
  usable := alike.usable.ensureCount count
  usable_other := alike.usable_other.ensureCount count
  test_eq index := by
    rw [alike.usable.test_ensureCount, alike.usable_other.test_ensureCount, alike.test_eq]

/-- Marking the same index in both keeps sets alike. -/
theorem mark (alike : Alike one other) (index : Nat) :
    Alike (one.mark index) (other.mark index) where
  usable := alike.usable.mark index
  usable_other := alike.usable_other.mark index
  test_eq marked := by rw [alike.usable.test_mark, alike.usable_other.test_mark, alike.test_eq]

/-- An index is new to both sets or to none, and afterwards it is marked in both. -/
theorem insert (alike : Alike one other) (index : Nat) :
    (one.insert index).1 = (other.insert index).1 ∧
      Alike (one.insert index).2 (other.insert index).2 := by
  refine ⟨by rw [insert_fst, insert_fst, alike.test_eq], alike.usable.insert index,
    alike.usable_other.insert index, fun marked => ?_⟩
  rw [alike.usable.test_insert, alike.usable_other.test_insert, alike.test_eq]

end Alike

end VersionedBitSet

namespace PathSearch

/-- Searches that differ in nothing but the form of their visited sets. -/
def Search.Alike (one other : Search) : Prop :=
  ∃ set, one.visited.Alike set ∧ other = { one with visited := set }

variable {graph : HeapGraph} {limits : PathLimits} {deadline : Deadline} {now : Instant}
  {one other : Search}

namespace Search.Alike

/-- Following a reference keeps searches alike. -/
theorem follow (alike : one.Alike other) (depth : Nat) (trail : Trail) (arrival : InEdge) :
    (PathSearch.follow graph limits depth trail one arrival).Alike
      (PathSearch.follow graph limits depth trail other arrival) := by
  obtain ⟨set, visited, rfl⟩ := alike
  unfold PathSearch.follow
  dsimp only
  split
  · exact ⟨set, visited, rfl⟩
  split
  · exact ⟨set, visited, rfl⟩
  · -- Whether the object is new is told alike by both visited sets.
    obtain ⟨new, inserted⟩ := visited.insert arrival.source
    rw [new]
    exact ⟨_, inserted, rfl⟩

/-- Following several references does so too. -/
theorem foldl_follow (depth : Nat) (trail : Trail) (arrivals : List InEdge)
    (alike : one.Alike other) :
    (arrivals.foldl (PathSearch.follow graph limits depth trail) one).Alike
      (arrivals.foldl (PathSearch.follow graph limits depth trail) other) := by
  induction arrivals generalizing one other with
  | nil => exact alike
  | cons arrival rest ih => exact ih (alike.follow depth trail arrival)

/-- Expanding a trail keeps searches alike, also when the clock ends them. -/
theorem expand (alike : one.Alike other) (depth : Nat) (trail : Trail) :
    (PathSearch.expand graph limits deadline now depth one trail).Alike
      (PathSearch.expand graph limits deadline now depth other trail) := by
  obtain ⟨set, visited, rfl⟩ := alike
  unfold PathSearch.expand
  dsimp only
  -- The count, the clock and the depth are the same for both.
  split
  · exact ⟨set, visited, rfl⟩
  split
  · exact ⟨set, visited, rfl⟩
  split
  · exact ⟨set, visited, rfl⟩
  · exact foldl_follow depth trail _ ⟨set, visited, rfl⟩

/-- Expanding the trails of a level does so too. -/
theorem foldl_expand (depth : Nat) (trails : List Trail) (alike : one.Alike other) :
    (trails.foldl (PathSearch.expand graph limits deadline now depth) one).Alike
      (trails.foldl (PathSearch.expand graph limits deadline now depth) other) := by
  induction trails generalizing one other with
  | nil => exact alike
  | cons trail rest ih => exact ih (alike.expand depth trail)

/-- Going through the levels keeps searches alike. -/
theorem advance (alike : one.Alike other) (levels depth : Nat) (trails : List Trail) :
    (PathSearch.advance graph limits deadline now levels depth trails one).Alike
      (PathSearch.advance graph limits deadline now levels depth trails other) := by
  -- The induction is on the levels, and both searches put the same trails aside in each.
  induction levels generalizing depth trails one other with
  | zero => exact alike
  | succ levels ih =>
    obtain ⟨set, visited, rfl⟩ := alike
    unfold PathSearch.advance
    dsimp only
    split
    · exact ⟨set, visited, rfl⟩
    · -- Each level begins with nothing put aside.
      have passed : Search.Alike { one with next := [] }
          { one with visited := set, next := [] } := ⟨set, visited, rfl⟩
      obtain ⟨marked, visited, same⟩ := passed.foldl_expand depth trails
      rw [same]
      exact ih ⟨marked, visited, rfl⟩ _ _

end Search.Alike

end PathSearch

variable (graph : HeapGraph) (target : Slot) (limits : PathLimits) (deadline : Deadline)
  (now : Instant) {one other : VersionedBitSet}

/-- From any two visited sets, a search has the same outcome, and leaves them usable. -/
theorem pathsToRoot_alike (usable : one.Usable) (usableOther : other.Usable) :
    (pathsToRoot graph target limits deadline now one).1
        = (pathsToRoot graph target limits deadline now other).1 ∧
      (pathsToRoot graph target limits deadline now one).2.Usable := by
  unfold pathsToRoot
  split
  · exact ⟨rfl, usable⟩
  split
  · exact ⟨rfl, usable⟩
  · -- Before anything is visited, whatever was marked is unmarked in both sets.
    have start := ((VersionedBitSet.Alike.of_reset usable usableOther).ensureCount
      graph.objectCount).mark target
    have searches : PathSearch.Search.Alike ⟨_, [], [], limits.maxPaths, 0, .searching⟩
        ⟨_, [], [], limits.maxPaths, 0, .searching⟩ := ⟨_, start, rfl⟩
    obtain ⟨set, visited, same⟩ := @PathSearch.Search.Alike.advance graph limits deadline now _ _
      searches (graph.objectCount + 1) 0 [.ofTarget target]
    dsimp only
    rw [same]
    exact ⟨rfl, visited.usable⟩

end HeapAtlas
