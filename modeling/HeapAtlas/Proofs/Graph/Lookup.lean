import Mathlib.Data.List.Basic
import HeapAtlas.Graph.Columns

/-! Looking identifiers up: halving, the table of close identifiers, and ascending columns. -/

namespace HeapAtlas

/-- Identifiers of objects that compare equal are equal. -/
instance : Std.LawfulEqOrd ObjectId where
  eq_of_compare {a b} same := by
    have words : a.raw = b.raw := Std.LawfulEqOrd.eq_of_compare same
    cases a; cases b; simp_all

/-- Identifiers of classes that compare equal are equal. -/
instance : Std.LawfulEqOrd ClassId where
  eq_of_compare {a b} same := by
    have words : a.raw = b.raw := Std.LawfulEqOrd.eq_of_compare same
    cases a; cases b; simp_all

/-- Halving finds only positions in its range that compare equal. -/
theorem bisect?_sound {order : Nat → Ordering} {low high position : Nat}
    (found : bisect? order low high = some position) :
    low ≤ position ∧ position < high ∧ order position = .eq := by
  -- The induction follows the halving; each half lies within the range.
  fun_induction bisect? order low high with
  | case1 low high inside middle same =>
    have here : middle = position := Option.some.inj found
    exact ⟨by omega, by omega, here ▸ same⟩
  | case2 low high inside middle below ih =>
    -- The middle is too low, so the search goes on behind it.
    obtain ⟨left, right, same⟩ := ih found
    exact ⟨by omega, right, same⟩
  | case3 low high inside middle above ih =>
    -- The middle is too high, so the search goes on before it.
    obtain ⟨left, right, same⟩ := ih found
    exact ⟨left, by omega, same⟩
  | case4 => cases found

/-- Halving finds the position that compares equal between those below and those above. -/
theorem bisect?_complete {order : Nat → Ordering} {low high position : Nat}
    (left : low ≤ position) (right : position < high)
    (below : ∀ i, low ≤ i → i < position → order i = .lt) (same : order position = .eq)
    (above : ∀ i, position < i → i < high → order i = .gt) :
    bisect? order low high = some position := by
  -- The middle compares as its side of the position says, so the half kept holds the position.
  fun_induction bisect? order low high with
  | case1 low high inside middle equal =>
    -- Nothing but the position itself compares equal.
    rcases Nat.lt_trichotomy middle position with less | rfl | more
    · simp [below middle (by omega) less] at equal
    · rfl
    · simp [above middle more (by omega)] at equal
  | case2 low high inside middle less ih =>
    -- A middle that compares less stands before the position.
    have beyond : middle < position := by
      rcases Nat.lt_trichotomy middle position with before | rfl | after
      · exact before
      · simp [same] at less
      · simp [above middle after (by omega)] at less
    exact ih beyond right (fun i from_ => below i (by omega)) above
  | case3 low high inside middle more ih =>
    -- A middle that compares greater stands behind it.
    have before : position < middle := by
      rcases Nat.lt_trichotomy middle position with before | rfl | after
      · simp [below middle (by omega) before] at more
      · simp [same] at more
      · exact after
    exact ih left before below (fun i after upto => above i after (by omega))
  -- The position itself is in the range, so that is never empty.
  | case4 low high outside => omega

/-- A position compares equal when it holds the key looked for. -/
theorem orderOf_eq_eq {κ : Type} [Ord κ] [Std.LawfulEqOrd κ] {keyAt : Nat → Option κ} {key : κ}
    {position : Nat} (equal : orderOf keyAt key position = .eq) : keyAt position = some key := by
  -- A missing key compares as greater, so that an equal one was there.
  rw [orderOf] at equal
  split at equal
  · rename_i found at_
    rw [at_, Std.LawfulEqOrd.eq_of_compare equal]
  · cases equal

/-- Halving finds a key in its place among ascending ones. -/
theorem bisect?_ascending {α κ : Type} [Ord κ] [Std.TransOrd κ] {items : Array α} {key : α → κ}
    {position : Nat} {item : α}
    (ascends : (items.toList.map key).Pairwise fun one other => compare one other = .lt)
    (held : items[position]? = some item) :
    bisect? (orderOf (fun i => (items[i]?).map key) (key item)) 0 items.size = some position := by
  -- Keys compare as their positions do, which is what halving asks for.
  have order (i j : Nat) (one other : α) (less : i < j) (atOne : items[i]? = some one)
      (atOther : items[j]? = some other) : compare (key one) (key other) = .lt := by
    obtain ⟨inOne, isOne⟩ := Array.getElem?_eq_some_iff.mp atOne
    obtain ⟨inOther, isOther⟩ := Array.getElem?_eq_some_iff.mp atOther
    have pair := List.pairwise_iff_getElem.mp ascends i j (by simpa using inOne)
      (by simpa using inOther) less
    simpa [isOne, isOther] using pair
  have within := (Array.getElem?_eq_some_iff.mp held).1
  apply bisect?_complete (Nat.zero_le _) within
  · intro i _ before
    have found := Array.getElem?_eq_getElem (Nat.lt_trans before within)
    simp only [orderOf, found, Option.map_some]
    exact order i position _ _ before found held
  · simp only [orderOf, held, Option.map_some]
    exact Std.ReflOrd.compare_self
  · intro i after inside
    have found := Array.getElem?_eq_getElem inside
    simp only [orderOf, found, Option.map_some]
    rw [Std.OrientedOrd.eq_swap, order position i item _ after held found]
    rfl

/-- A column has no descent when it ascends strictly. -/
theorem descent?_eq_none_iff {words : List UInt64} {index : Nat} :
    descent? index words = none ↔ words.Pairwise (· < ·) := by
  -- Neighbours decide, since the order of words is transitive.
  induction words generalizing index with
  | nil => exact iff_of_true (by rfl) .nil
  | cons first rest ih =>
    cases rest with
    | nil => exact iff_of_true (by rfl) (List.pairwise_singleton _ _)
    | cons second rest =>
      rw [descent?]
      constructor
      · intro ascends
        split at ascends
        · rename_i less
          have tail := ih.mp ascends
          refine List.pairwise_cons.mpr ⟨fun word member => ?_, tail⟩
          -- The first word is less than the second, and so than all that follow.
          rcases List.mem_cons.mp member with rfl | later
          · exact less
          · exact UInt64.lt_trans less ((List.pairwise_cons.mp tail).1 word later)
        · cases ascends
      · intro ascends
        obtain ⟨least, tail⟩ := List.pairwise_cons.mp ascends
        rw [if_pos (least second List.mem_cons_self)]
        exact ih.mpr tail

namespace SlotIndex

/-- An entry of the table was put there for an identifier that lies as far from the base. -/
theorem tableOf_entry {base : UInt64} {span offset : Nat} {ids : List ObjectId} {slot : Slot}
    (entry : (tableOf base span ids)[offset]? = some (some slot)) :
    ∃ id, ids[slot]? = some id ∧ id.raw.toNat - base.toNat = offset := by
  -- Every entry is the start's, which are all missing, or comes from one of the pairs.
  have general : ∀ (pairs : List (ObjectId × Nat)) (slots : Array (Option Slot)),
      (pairs.foldl (fun slots pair =>
        slots.setIfInBounds (pair.1.raw.toNat - base.toNat) (some pair.2)) slots)[offset]?
          = some (some slot) →
      slots[offset]? = some (some slot) ∨
        ∃ id, (id, slot) ∈ pairs ∧ id.raw.toNat - base.toNat = offset := by
    -- The induction is on the pairs, as later ones may replace what earlier ones put.
    intro pairs
    induction pairs with
    | nil => exact fun slots held => .inl held
    | cons pair rest ih =>
      intro slots held
      rw [List.foldl_cons] at held
      -- The entry was put by a later pair, or stood in the table after this one.
      rcases ih _ held with before | ⟨id, member, far⟩
      · -- It stood there, so this pair put it or it was there before.
        rw [Array.getElem?_setIfInBounds] at before
        split at before
        · rename_i here
          split at before
          · cases before
            exact .inr ⟨pair.1, List.mem_cons_self, here⟩
          · cases before
        · exact .inl before
      · exact .inr ⟨id, List.mem_cons_of_mem _ member, far⟩
  -- The table begins with nothing in it, so what is found was put there.
  rcases general _ _ entry with missing | ⟨id, member, far⟩
  · rw [Array.getElem?_replicate] at missing
    split at missing <;> cases missing
  · exact ⟨id, List.mem_zipIdx_iff_getElem?.mp member, far⟩

/-- A table of slots has an entry for every identifier that it spans. -/
theorem size_tableOf (base : UInt64) (span : Nat) (ids : List ObjectId) :
    (tableOf base span ids).size = span := by
  -- Entries are only ever replaced.
  have kept (pairs : List (ObjectId × Nat)) (slots : Array (Option Slot)) :
      (pairs.foldl (fun slots pair =>
        slots.setIfInBounds (pair.1.raw.toNat - base.toNat) (some pair.2)) slots).size =
          slots.size := by
    induction pairs generalizing slots with
    | nil => rfl
    | cons pair rest ih => rw [List.foldl_cons, ih, Array.size_setIfInBounds]
  exact (kept _ _).trans Array.size_replicate

/-- A table of slots is only made when it takes eight bytes for each identifier at most. -/
theorem byteCount_build_le (ids : Array ObjectId) : (build ids).byteCount ≤ 8 * ids.size := by
  rw [build]
  split
  · dsimp only
    split
    · -- Four bytes a slot, and at most two slots for each identifier.
      rename_i close
      rw [byteCount, size_tableOf]
      omega
    · exact Nat.zero_le _
  · exact Nat.zero_le _

variable {ids : Array ObjectId} {id : ObjectId} {slot : Slot}

/-- Later slots have larger identifiers. -/
theorem raw_le_of_ascends (ascends : (ids.toList.map (·.raw)).Pairwise (· < ·)) {i j : Slot}
    {one other : ObjectId} (order : i ≤ j) (atOne : ids[i]? = some one)
    (atOther : ids[j]? = some other) : one.raw ≤ other.raw := by
  -- In one slot there is one identifier, and a later slot has a greater one.
  rcases Nat.eq_or_lt_of_le order with rfl | less
  · rw [atOne] at atOther
    cases atOther
    exact UInt64.le_refl _
  · obtain ⟨inOne, rfl⟩ := Array.getElem?_eq_some_iff.mp atOne
    obtain ⟨inOther, rfl⟩ := Array.getElem?_eq_some_iff.mp atOther
    have pair := List.pairwise_iff_getElem.mp ascends i j (by simpa using inOne)
      (by simpa using inOther) less
    exact UInt64.le_of_lt (by simpa using pair)

/-- Ascending identifiers lie between the first and the last one, and so within their span. -/
theorem within_of_ascends (ascends : (ids.toList.map (·.raw)).Pairwise (· < ·))
    {first last : ObjectId} (atFirst : ids[0]? = some first) (atLast : ids.back? = some last)
    (held : ids[slot]? = some id) :
    first.raw ≤ id.raw ∧
      id.raw.toNat - first.raw.toNat < last.raw.toNat - first.raw.toNat + 1 := by
  rw [Array.back?_eq_getElem?] at atLast
  have inside := (Array.getElem?_eq_some_iff.mp held).1
  -- The order is one of words; the span is a difference of numbers.
  have above := raw_le_of_ascends ascends (Nat.zero_le slot) atFirst held
  have below := raw_le_of_ascends ascends (Nat.le_sub_one_of_lt inside) held atLast
  rw [UInt64.le_iff_toNat_le] at below
  exact ⟨above, by omega⟩

/-- Halving finds only a slot of the identifier looked for. -/
theorem lookup_sorted_sound {count : Nat}
    (found : sorted.lookup (fun slot => ids[slot]?) count id = some slot) :
    ids[slot]? = some id := orderOf_eq_eq (bisect?_sound found).2.2

/-- The table of ascending identifiers finds only the slot of the one looked for. -/
theorem lookup_direct_sound (ascends : (ids.toList.map (·.raw)).Pairwise (· < ·))
    {first : ObjectId} (atFirst : ids[0]? = some first) {span count : Nat}
    (found : (direct first.raw (tableOf first.raw span ids.toList)).lookup
      (fun slot => ids[slot]?) count id = some slot) : ids[slot]? = some id := by
  rw [lookup] at found
  split at found
  · rename_i above
    -- The entry found stands for the identifier itself.
    obtain ⟨other, held, far⟩ := tableOf_entry (Option.join_eq_some_iff.mp found)
    have heldArray : ids[slot]? = some other := by simpa using held
    -- The base is the smallest identifier, so equal distances mean equal identifiers.
    have lowest := raw_le_of_ascends ascends (Nat.zero_le slot) atFirst heldArray
    have words : other.raw = id.raw := by
      rw [UInt64.le_iff_toNat_le] at lowest above
      exact UInt64.toNat_inj.mp (by omega)
    rw [heldArray]
    cases other; cases id; simp_all
  · cases found

/-- Of ascending identifiers, a look-up finds only the slot of the one looked for. -/
theorem lookup_build_sound (ascends : (ids.toList.map (·.raw)).Pairwise (· < ·))
    (found : (build ids).lookup (fun slot => ids[slot]?) ids.size id = some slot) :
    ids[slot]? = some id := by
  rw [build] at found
  -- Without a first and a last identifier, there is only halving.
  split at found
  · rename_i first last atFirst atLast
    dsimp only at found
    -- The table is used only when the identifiers lie close together.
    split at found
    · exact lookup_direct_sound ascends atFirst found
    · exact lookup_sorted_sound found
  · exact lookup_sorted_sound found

end SlotIndex

end HeapAtlas
