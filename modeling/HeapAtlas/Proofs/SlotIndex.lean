import Mathlib.Algebra.Ring.Nat
import HeapAtlas.Proofs.Graph.Found
import HeapAtlas.SlotIndex.Words

/-! Ascending identifiers and their slots: by the table, by halving, and in words. -/

namespace HeapAtlas.SlotIndex

/-! ### Numbers that are words -/

/-- A difference that is not below zero is a word. -/
theorem exists_difference?_eq {word less : UInt64} (le : less ≤ word) :
    ∃ offset, difference? word less = some offset ∧
      offset.toNat = word.toNat - less.toNat :=
  ⟨word - less, if_pos le, UInt64.toNat_sub_of_le word less le⟩

/-- A sum is a word, or there is none. -/
theorem sum?_cases (word more : UInt64) :
    (∃ sum, sum? word more = some sum ∧ sum.toNat = word.toNat + more.toNat) ∨
      sum? word more = none ∧ wordMax < word.toNat + more.toNat := by
  rw [sum?]
  split
  · -- A sum that is a word is not cut off.
    rename_i fits
    refine .inl ⟨word + more, rfl, ?_⟩
    rw [UInt64.toNat_add]
    exact Nat.mod_eq_of_lt (Nat.lt_of_le_of_lt fits (by decide))
  · rename_i large
    exact .inr ⟨rfl, Nat.lt_of_not_le large⟩

/-- No number overflows in halving a range of positions up to half of all words. -/
theorem bisectInWords?_eq (order : Nat → Ordering) {low high : Nat}
    (small : high + high ≤ wordMax) :
    bisectInWords? order low high = some (bisect? order low high) := by
  -- The induction follows the halving, whose bounds never grow beyond the first ones.
  fun_induction bisect? order low high with
  | case1 low high inside middle same =>
    -- The middle is the position, and its number is the only one that is made.
    rw [bisectInWords?, if_pos inside, if_pos (by omega)]
    simp only [show order ((low + high) / 2) = .eq from same]
    rfl
  | case2 low high inside middle below ih =>
    -- The position behind the middle is within the range, and so is a word.
    rw [bisectInWords?, if_pos inside, if_pos (by omega)]
    simp only [show order ((low + high) / 2) = .lt from below]
    rw [if_pos (by omega)]
    exact ih small
  | case3 low high inside middle above ih =>
    rw [bisectInWords?, if_pos inside, if_pos (by omega)]
    simp only [show order ((low + high) / 2) = .gt from above]
    exact ih (by omega)
  | case4 low high outside => rw [bisectInWords?, if_neg outside]

/-! ### Entries that are words -/

/-- The entry of a slot, or of none. -/
def entryOf : Option Slot → UInt32
  | some slot => UInt32.ofNat slot
  | none => noSlot

/-- An index with its entries as words. -/
def inWords : SlotIndex → InWords
  | direct base slots => .direct base (slots.map entryOf)
  | sorted => .sorted

/-- A slot of fewer than there may be objects is told from none. -/
theorem entryOf_ne_noSlot {slot : Nat} (few : slot < 2 ^ 32 - 1) :
    entryOf (some slot) ≠ noSlot := by
  intro same
  -- The number that stands for none is larger than any slot.
  have numbers : (UInt32.ofNat slot).toNat = 2 ^ 32 - 1 := congrArg UInt32.toNat same
  rw [UInt32.toNat_ofNat_of_lt' (show slot < 2 ^ 32 by omega)] at numbers
  omega

/-- What is read from an entry is the slot that was put into it, if there is one. -/
theorem filter_entryOf {entry : Option (Option Slot)}
    (few : ∀ slot : Nat, entry = some (some slot) → slot < 2 ^ 32 - 1) :
    (entry.map entryOf).filter (· ≠ noSlot) = entry.join.map UInt32.ofNat := by
  rcases entry with _ | _ | slot
  · -- Beyond the table there is no entry.
    rfl
  · -- An entry without a slot is left out.
    rfl
  · have kept := entryOf_ne_noSlot (few slot rfl)
    show (some (entryOf (some slot))).filter (· ≠ noSlot) = some (entryOf (some slot))
    simp [kept]

variable {base : UInt64}

/-- An identifier within the span of a table has its entry there. -/
theorem putInWords?_eq {id : ObjectId} {slots : Array (Option Slot)} (above : base ≤ id.raw)
    (within : id.raw.toNat - base.toNat < slots.size) (slot : Slot) :
    putInWords? base (slots.map entryOf) id slot =
      some ((slots.setIfInBounds (id.raw.toNat - base.toNat) (some slot)).map entryOf) := by
  -- From the base on the difference does not come round.
  obtain ⟨offset, found, far⟩ := exists_difference?_eq above
  rw [putInWords?, found, Option.bind_some, far, Array.size_map, if_pos within,
    Array.map_setIfInBounds]
  rfl

/-- Entries take the slots of all identifiers within their span, one after the other. -/
theorem foldlM_putInWords?_eq (pairs : List (ObjectId × Slot)) (slots : Array (Option Slot))
    (inside : ∀ pair ∈ pairs,
      base ≤ pair.1.raw ∧ pair.1.raw.toNat - base.toNat < slots.size) :
    pairs.foldlM (fun entries pair => putInWords? base entries pair.1 pair.2)
        (slots.map entryOf) =
      some ((pairs.foldl (fun slots pair =>
        slots.setIfInBounds (pair.1.raw.toNat - base.toNat) (some pair.2)) slots).map
          entryOf) := by
  induction pairs generalizing slots with
  | nil => rfl
  | cons pair rest ih =>
    obtain ⟨above, within⟩ := inside pair List.mem_cons_self
    rw [List.foldlM_cons, List.foldl_cons, putInWords?_eq above within]
    -- A slot that is put into the table leaves its span as it is.
    refine ih _ fun other later => ?_
    rw [Array.size_setIfInBounds]
    exact inside other (List.mem_cons_of_mem _ later)

/-- A table takes the slots of all identifiers within its span. -/
theorem tableInWords?_eq {span : Nat} {ids : List ObjectId}
    (inside : ∀ id ∈ ids, base ≤ id.raw ∧ id.raw.toNat - base.toNat < span) :
    tableInWords? base span ids = some ((tableOf base span ids).map entryOf) := by
  have start : Array.replicate span noSlot = (Array.replicate span none).map entryOf := by
    rw [Array.map_replicate]
    rfl
  rw [tableInWords?, start]
  -- The table keeps its size, so each identifier still lies within it when its turn comes.
  refine foldlM_putInWords?_eq _ _ fun pair member => ?_
  rw [Array.size_replicate]
  exact inside pair.1 (List.fst_mem_of_mem_zipIdx member)

/-! ### Ascending identifiers -/

variable {ids : Array ObjectId}

/-- Between a first and a last identifier, the span decides which index is built. -/
theorem build_eq {first last : ObjectId} (atFirst : ids[0]? = some first)
    (atLast : ids.back? = some last) :
    build ids =
      if last.raw.toNat - first.raw.toNat + 1 ≤ 2 * ids.size then
        direct first.raw (tableOf first.raw (last.raw.toNat - first.raw.toNat + 1) ids.toList)
      else sorted := by
  rw [build, atFirst, atLast]

/-- A table is chosen exactly when the span is at most twice the number of identifiers. -/
theorem exists_build_eq_direct_iff {first last : ObjectId} (atFirst : ids[0]? = some first)
    (atLast : ids.back? = some last) :
    (∃ base slots, build ids = direct base slots) ↔
      last.raw.toNat - first.raw.toNat + 1 ≤ 2 * ids.size := by
  rw [build_eq atFirst atLast]
  -- The form is chosen by the very condition, and the other form is no table.
  split
  · rename_i close
    exact iff_of_true ⟨_, _, rfl⟩ close
  · rename_i far
    refine iff_of_false (fun table => ?_) far
    obtain ⟨_, _, other⟩ := table
    cases other

/-- The table of ascending identifiers and halving find the same slots. -/
theorem lookup_direct_eq_sorted (ascends : (ids.toList.map (·.raw)).Pairwise (· < ·))
    {first last : ObjectId} (atFirst : ids[0]? = some first) (atLast : ids.back? = some last)
    (id : ObjectId) :
    (direct first.raw (tableOf first.raw (last.raw.toNat - first.raw.toNat + 1)
        ids.toList)).lookup (fun slot => ids[slot]?) ids.size id =
      sorted.lookup (fun slot => ids[slot]?) ids.size id := by
  -- Both find exactly the slot that the identifier has.
  refine Option.ext fun slot => ⟨fun byTable => ?_, fun byHalving => ?_⟩
  · exact lookup_sorted_complete ascends (lookup_direct_sound ascends atFirst byTable)
  · exact lookup_direct_complete ascends atFirst atLast ids.size (lookup_sorted_sound byHalving)

/-- No number overflows in choosing and filling the table of ascending identifiers. -/
theorem buildInWords?_eq (few : ids.size < 2 ^ 32 - 2)
    (ascends : (ids.toList.map (·.raw)).Pairwise (· < ·)) {first last : ObjectId}
    (atFirst : ids[0]? = some first) (atLast : ids.back? = some last) :
    buildInWords? ids = some (build ids).inWords := by
  have limit : wordMax = 2 ^ 64 - 1 := rfl
  have doubled : Capped.mul ids.size 2 = 2 * ids.size := by
    rw [Capped.mul]
    omega
  have atEnd : ids[ids.size - 1]? = some last := by rw [← Array.back?_eq_getElem?, atLast]
  obtain ⟨spread, found, wide⟩ :=
    exists_difference?_eq (within_of_ascends ascends atFirst atLast atEnd).1
  rw [build_eq atFirst atLast, buildInWords?, atFirst, atLast]
  dsimp only
  rw [found, Option.bind_some, doubled]
  rcases sum?_cases spread 1 with ⟨span, word, reach⟩ | ⟨beyond, large⟩
  · have same : span.toNat = last.raw.toNat - first.raw.toNat + 1 := by
      rw [reach, wide]
      rfl
    rw [word]
    dsimp only
    rw [same]
    split
    · -- Every identifier has its entry in the table.
      rw [tableInWords?_eq fun id member => ?_]
      · rfl
      · obtain ⟨slot, held⟩ := List.mem_iff_getElem?.mp member
        rw [Array.getElem?_toList] at held
        exact within_of_ascends ascends atFirst atLast held
    · rfl
  · -- A span that is no word is too large for any table.
    rw [UInt64.toNat_one] at large
    have far : ¬last.raw.toNat - first.raw.toNat + 1 ≤ 2 * ids.size := by omega
    rw [beyond, if_neg far]
    rfl

/-- Reading an entry of a table in words finds the slot that the table has there. -/
theorem lookup?_direct {slots : Array (Option Slot)}
    (few : ∀ (offset slot : Nat), slots[offset]? = some (some slot) → slot < 2 ^ 32 - 1)
    (idAt : Slot → Option ObjectId) (count : Nat) (id : ObjectId) :
    (inWords (direct base slots)).lookup? ids id =
      some (((direct base slots).lookup idAt count id).map UInt32.ofNat) := by
  rw [inWords, InWords.lookup?, lookup]
  -- Below the first identifier no difference can be taken, and nothing is found.
  split
  · rename_i above
    obtain ⟨offset, found, far⟩ := exists_difference?_eq above
    rw [found, Option.bind_some, Array.getElem?_map, filter_entryOf fun slot => few _ slot, far]
  · rename_i below
    rw [difference?, if_neg below]
    rfl

/-- Halving in words finds the slot that halving finds. -/
theorem lookup?_sorted (few : ids.size < 2 ^ 32 - 2) (id : ObjectId) :
    (inWords sorted).lookup? ids id =
      some ((sorted.lookup (fun slot => ids[slot]?) ids.size id).map UInt32.ofNat) := by
  have limit : wordMax = 2 ^ 64 - 1 := rfl
  rw [inWords, InWords.lookup?, lookup, bisectInWords?_eq _ (by omega)]
  rfl

/-- A look-up in words finds the slot that a look-up finds. -/
theorem lookup?_build (few : ids.size < 2 ^ 32 - 2) (id : ObjectId) :
    (build ids).inWords.lookup? ids id =
      some (((build ids).lookup (fun slot => ids[slot]?) ids.size id).map UInt32.ofNat) := by
  rw [build]
  split
  · dsimp only
    split
    · -- Slots in the table are slots of identifiers, so their numbers are told by words.
      refine lookup?_direct (fun offset slot entry => ?_) _ _ _
      obtain ⟨_, held, _⟩ := tableOf_entry entry
      have within := (List.getElem?_eq_some_iff.mp held).1
      rw [Array.length_toList] at within
      omega
    · exact lookup?_sorted few id
  · exact lookup?_sorted few id

/-- A slot that is found is below the number of identifiers, so that a word says it. -/
theorem map_toNat_lookup_build (few : ids.size < 2 ^ 32 - 2)
    (ascends : (ids.toList.map (·.raw)).Pairwise (· < ·)) (id : ObjectId) :
    (((build ids).lookup (fun slot => ids[slot]?) ids.size id).map UInt32.ofNat).map (·.toNat) =
      (build ids).lookup (fun slot => ids[slot]?) ids.size id := by
  cases found : (build ids).lookup (fun slot => ids[slot]?) ids.size id with
  | none => rfl
  | some slot =>
    -- Slots are below the number of identifiers, and that fits into 32 bits.
    have within := (Array.getElem?_eq_some_iff.mp (lookup_build_sound ascends found)).1
    have number : (UInt32.ofNat slot).toNat = slot :=
      UInt32.toNat_ofNat_of_lt' (Nat.lt_trans within (Nat.lt_trans few (by decide)))
    exact congrArg some number

/--
Of ascending identifiers, a look-up finds exactly those that there are, each in its slot; the table
from the first to the last finds the same as halving, whether or not it is the one used.

The table is used when it has no more than two entries for each identifier, and so takes eight bytes
at most for each. In words no number overflows, and every slot is told from none.
-/
theorem lookup_build_iff (ids : Array ObjectId) (present : 0 < ids.size)
    (few : ids.size < 2 ^ 32 - 2) (ascends : (ids.toList.map (·.raw)).Pairwise (· < ·)) :
    let first := ids[0].raw
    let span := ids.back.raw.toNat - first.toNat + 1
    let idAt := fun slot : Slot => ids[slot]?
    (∀ id slot, (build ids).lookup idAt ids.size id = some slot ↔ idAt slot = some id) ∧
      (∀ id, (direct first (tableOf first span ids.toList)).lookup idAt ids.size id =
        sorted.lookup idAt ids.size id) ∧
      ((∃ base slots, build ids = direct base slots) ↔ span ≤ 2 * ids.size) ∧
      (build ids).byteCount ≤ 8 * ids.size ∧
      ∃ index, buildInWords? ids = some index ∧
        ∀ id, ∃ found, index.lookup? ids id = some found ∧
          found.map (·.toNat) = (build ids).lookup idAt ids.size id := by
  intro first span idAt
  have atFirst : ids[0]? = some ids[0] := Array.getElem?_eq_getElem present
  have atLast : ids.back? = some ids.back := by
    rw [Array.back?_eq_getElem?]
    exact Array.getElem?_eq_getElem (Nat.sub_lt present Nat.one_pos)
  refine ⟨fun id slot => ?_, fun id => ?_, ?_, ?_, ?_⟩
  · exact ⟨lookup_build_sound ascends, lookup_build_complete ascends⟩
  · exact lookup_direct_eq_sorted ascends atFirst atLast id
  · exact exists_build_eq_direct_iff atFirst atLast
  · exact byteCount_build_le ids
  · -- The index in words is the same one, entry by entry.
    refine ⟨_, buildInWords?_eq few ascends atFirst atLast, fun id => ?_⟩
    exact ⟨_, lookup?_build few id, map_toNat_lookup_build few ascends id⟩

/-- Three identifiers up to the largest one, with one missing between them, have a table. -/
def upToLargest : Array ObjectId :=
  #[⟨18446744073709551612⟩, ⟨18446744073709551613⟩, ⟨18446744073709551615⟩]

/-- The largest identifier is found in the table, and the missing one below it is not. -/
theorem lookup_upToLargest :
    (0 < upToLargest.size ∧ upToLargest.size < 2 ^ 32 - 2 ∧
      (upToLargest.toList.map (·.raw)).Pairwise (· < ·)) ∧
      (build upToLargest).lookup (fun slot => upToLargest[slot]?) 3 ⟨18446744073709551615⟩ =
        some 2 ∧
      (build upToLargest).lookup (fun slot => upToLargest[slot]?) 3 ⟨18446744073709551614⟩ =
        none ∧
      (∃ base slots, build upToLargest = direct base slots) ∧
      ∃ index, buildInWords? upToLargest = some index ∧
        ∃ found, index.lookup? upToLargest ⟨18446744073709551615⟩ = some found ∧
          found.map (·.toNat) = some 2 := by
  have ascends : (upToLargest.toList.map (·.raw)).Pairwise (· < ·) := by decide
  obtain ⟨finds, -, table, -, index, built, reads⟩ :=
    lookup_build_iff upToLargest (by decide) (by decide) ascends
  have largest := (finds ⟨18446744073709551615⟩ 2).mpr (by decide)
  obtain ⟨found, read, same⟩ := reads ⟨18446744073709551615⟩
  refine ⟨⟨by decide, by decide, ascends⟩, largest, ?_, table.mpr (by decide), index, built,
    found, read, same.trans largest⟩
  -- The identifier before the largest is not among the three.
  refine Option.eq_none_iff_forall_ne_some.mpr fun slot hit => ?_
  exact absurd (Array.mem_of_getElem? ((finds _ slot).mp hit)) (by simp [upToLargest])

end HeapAtlas.SlotIndex
