import HeapAtlas.Proofs.BitSet.History
import HeapAtlas.Proofs.BitSet.Shared

/-! Any number of calls of a set of one owner, or of a shared one, against a finite set of marks. -/

namespace HeapAtlas

namespace DenseBitSet

/-- A call of a set for one owner. -/
inductive Call where
  | mark (index : Nat)
  | insert (index : Nat)
  | test (index : Nat)
  | erase (index : Nat)
  | reset
  deriving DecidableEq

/-- What a call changes in the marks. -/
def Call.change? : Call → Option BitSet.Change
  | mark index | insert index => some (.mark index)
  | erase index => some (.erase index)
  | reset => some .reset
  | test _ => none

/-- A new set, with room for as many indices as are asked for. -/
def fresh : Option Nat → DenseBitSet
  | none => empty
  | some count => ofCount count

/-- The set after a call. -/
def perform (set : DenseBitSet) : Call → DenseBitSet
  | .mark index => set.mark index
  | .insert index => (set.insert index).2
  | .test _ => set
  | .erase index => set.erase index
  | .reset => set.reset

/-- The set after one call after another. -/
def performAll (set : DenseBitSet) (calls : List Call) : DenseBitSet := calls.foldl perform set

/-- A set that tells of a finite set of marks what there is to tell. -/
structure Represents (set : DenseBitSet) (marks : Finset Nat) : Prop where
  test_iff : ∀ index, set.test index = true ↔ index ∈ marks
  insert_iff : ∀ index, (set.insert index).1 = true ↔ index ∉ marks
  count_eq : set.count = marks.card
  ones_ascend : set.ones.Pairwise (· < ·)
  mem_ones_iff : ∀ index, index ∈ set.ones ↔ index ∈ marks

/-- Everything that a set tells follows from what it tells of each index. -/
theorem Represents.ofTest {set : DenseBitSet} {marks : Finset Nat}
    (tells : BitSet.Tells set.test marks) : set.Represents marks where
  test_iff := tells
  insert_iff index := by
    rw [insert_fst, Bool.not_eq_true', ← Bool.not_eq_true, tells index]
  count_eq := set.count_eq_card fun index => (tells index).symm
  ones_ascend := BitSet.Words.ones_pairwise set.words
  mem_ones_iff index := (BitSet.Words.mem_ones_iff set.words index).trans (tells index)

/-- Nothing is marked in a new set. -/
theorem represents_fresh (room : Option Nat) : (fresh room).Represents ∅ := by
  refine .ofTest (BitSet.tells_empty fun index => ?_)
  -- Without room there is no word for an index, and with it that word is zero.
  cases room with
  | none => simp [fresh, empty, test, BitSet.Words.test]
  | some count => exact test_ofCount count index

/-- A call changes the marks of a set as it says. -/
theorem Represents.perform {set : DenseBitSet} {marks : Finset Nat} (call : Call)
    (represents : set.Represents marks) :
    (set.perform call).Represents (BitSet.marksAfter marks call.change?.toList) := by
  have tells : BitSet.Tells set.test marks := represents.test_iff
  -- A call that only asks changes nothing.
  cases call with
  | mark index => exact .ofTest (tells.mark (test_mark set index))
  | insert index => exact .ofTest (tells.mark (test_insert_snd set index))
  | test index => exact represents
  | erase index => exact .ofTest (tells.erase (test_erase set index))
  | reset => exact .ofTest (BitSet.tells_empty (test_reset set))

end DenseBitSet

namespace SharedBitSet

/-- A call of a set that owners share. -/
inductive Call where
  | mark (index : Nat)
  | testAndMark (index : Nat)
  | test (index : Nat)
  | reset
  deriving DecidableEq

/-- What a call changes in the marks. -/
def Call.change? : Call → Option BitSet.Change
  | mark index | testAndMark index => some (.mark index)
  | reset => some .reset
  | test _ => none

/-- A new set, with room for as many indices as are asked for. -/
def fresh : Option Nat → SharedBitSet
  | none => empty
  | some count => ofCount count

/-- The set after a call. -/
def perform (set : SharedBitSet) : Call → SharedBitSet
  | .mark index => set.mark index
  | .testAndMark index => (set.testAndMark index).2
  | .test _ => set
  | .reset => set.reset

/-- The set after one call after another. -/
def performAll (set : SharedBitSet) (calls : List Call) : SharedBitSet := calls.foldl perform set

/-- A set that tells of a finite set of marks what there is to tell, and hands all of it on. -/
structure Represents (set : SharedBitSet) (marks : Finset Nat) : Prop where
  test_iff : ∀ index, set.test index = true ↔ index ∈ marks
  testAndMark_iff : ∀ index, (set.testAndMark index).1 = true ↔ index ∈ marks
  count_eq : set.count = marks.card
  toDense : set.toDense.Represents marks
  capacity_le : set.capacity ≤ set.toDense.capacity

/-- Everything that a set tells follows from what it tells of each index. -/
theorem Represents.ofTest {set : SharedBitSet} {marks : Finset Nat}
    (tells : BitSet.Tells set.test marks) : set.Represents marks where
  test_iff := tells
  testAndMark_iff index := by rw [testAndMark_fst, tells index]
  count_eq := BitSet.Words.count_eq_card set.words fun index => (tells index).symm
  toDense := .ofTest fun index => by rw [test_toDense, tells index]
  capacity_le := set.capacity_le_capacity_toDense

/-- Nothing is marked in a new set. -/
theorem represents_fresh (room : Option Nat) : (fresh room).Represents ∅ := by
  refine .ofTest (BitSet.tells_empty fun index => ?_)
  cases room with
  | none => simp [fresh, empty, test, BitSet.Words.test]
  | some count => exact test_ofCount count index

/-- A call changes the marks of a set as it says. -/
theorem Represents.perform {set : SharedBitSet} {marks : Finset Nat} (call : Call)
    (represents : set.Represents marks) :
    (set.perform call).Represents (BitSet.marksAfter marks call.change?.toList) := by
  have tells : BitSet.Tells set.test marks := represents.test_iff
  cases call with
  | mark index => exact .ofTest (tells.mark (test_testAndMark_snd set index))
  | testAndMark index => exact .ofTest (tells.mark (test_testAndMark_snd set index))
  | test index => exact represents
  | reset => exact .ofTest (BitSet.tells_empty (test_reset set))

end SharedBitSet

/--
Whatever calls were made of a new set, of one owner or shared, it represents the finite set of those
indices that were marked and not cleared since.
-/
theorem BitSet.performAll_represents (room : Option Nat) :
    (∀ calls : List DenseBitSet.Call, ∃ marks : Finset Nat,
      (∀ index, index ∈ marks ↔ Marked (calls.filterMap DenseBitSet.Call.change?) index) ∧
        ((DenseBitSet.fresh room).performAll calls).Represents marks) ∧
      ∀ calls : List SharedBitSet.Call, ∃ marks : Finset Nat,
        (∀ index, index ∈ marks ↔ Marked (calls.filterMap SharedBitSet.Call.change?) index) ∧
          ((SharedBitSet.fresh room).performAll calls).Represents marks := by
  -- For both kinds of sets the marks are those of the calls, and every call keeps to them.
  constructor
  · intro calls
    exact ⟨_, mem_marksAfter_iff _, foldl_holds (fun call => .perform call)
      (DenseBitSet.represents_fresh room) calls⟩
  · intro calls
    exact ⟨_, mem_marksAfter_iff _, foldl_holds (fun call => .perform call)
      (SharedBitSet.represents_fresh room) calls⟩

end HeapAtlas
