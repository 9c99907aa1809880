import Mathlib.Data.List.Nodup
import Mathlib.Data.List.Perm.Basic
import HeapAtlas.Proofs.Lists
import HeapAtlas.Residency.Shelf

/-! The order in which the values of a shelf were asked for, told by their stamps. -/

namespace HeapAtlas

/-- A resident without its stamp. -/
def Resident.pair {α : Type} (resident : Resident α) : String × α := (resident.key, resident.value)

namespace Recency

variable {α : Type}

/-- The pairs of all other keys, in order. -/
def without (key : String) (entries : List (String × α)) : List (String × α) :=
  entries.filter (·.1 ≠ key)

/-- Moves the pair of a key to the front, if there is one. -/
def toFront (key : String) (entries : List (String × α)) : List (String × α) :=
  match entries.lookup key with
  | some value => (key, value) :: without key entries
  | none => entries

end Recency

namespace Shelf

variable {α : Type}

/-- A shelf holds just the listed pairs, each key once, the one that was asked for last in front. -/
structure Lists (shelf : Shelf α) (entries : List (String × α)) : Prop where
  order : ∃ residents : List (Resident α), residents.Perm shelf.residents ∧
    residents.map Resident.pair = entries ∧
      residents.Pairwise fun later earlier => earlier.stamp < later.stamp
  keys : (entries.map (·.1)).Nodup
  stamp_le : ∀ resident ∈ shelf.residents, resident.stamp ≤ shelf.clock

variable {shelf : Shelf α} {entries : List (String × α)} {key : String}

/-- A new shelf lists nothing. -/
theorem lists_ofCapacity (capacity : Nat) : (ofCapacity capacity : Shelf α).Lists [] where
  order := ⟨[], .refl _, rfl, .nil⟩
  keys := List.nodup_nil
  stamp_le := by simp [ofCapacity]

/-- There are as many pairs as residents. -/
theorem Lists.length_eq (lists : shelf.Lists entries) : entries.length = shelf.size := by
  obtain ⟨residents, perm, rfl, _⟩ := lists.order
  rw [List.length_map, perm.length_eq, size]

/-- A pair stands in the list for every resident. -/
theorem Lists.mem_iff (lists : shelf.Lists entries) {pair : String × α} :
    pair ∈ entries ↔ ∃ resident ∈ shelf.residents, resident.pair = pair := by
  obtain ⟨residents, perm, rfl, _⟩ := lists.order
  -- The list is made of the residents in some order, and order does not matter here.
  rw [List.mem_map]
  constructor
  · intro listed
    obtain ⟨resident, member, same⟩ := listed
    exact ⟨resident, perm.mem_iff.mp member, same⟩
  · intro held
    obtain ⟨resident, member, same⟩ := held
    exact ⟨resident, perm.mem_iff.mpr member, same⟩

/-- Residents of one key are one resident. -/
theorem Lists.keys_residents (lists : shelf.Lists entries) :
    (shelf.residents.map (·.key)).Nodup := by
  obtain ⟨residents, perm, rfl, _⟩ := lists.order
  have keys := lists.keys
  rw [List.map_map] at keys
  exact (perm.map (·.key)).nodup_iff.mp keys

/-- The value of a key is the one that its pair has. -/
theorem Lists.get?_eq (lists : shelf.Lists entries) (key : String) :
    shelf.get? key = entries.lookup key := by
  apply Option.ext
  intro value
  rw [lookup_eq_some_iff lists.keys, lists.mem_iff, get?, Option.map_eq_some_iff]
  constructor
  · intro found
    obtain ⟨resident, atKey, rfl⟩ := found
    have same : resident.key = key := by simpa using List.find?_some atKey
    exact ⟨resident, List.mem_of_find?_eq_some atKey, by rw [Resident.pair, same]⟩
  · intro held
    obtain ⟨resident, member, same⟩ := held
    cases same
    cases found : shelf.residents.find? (·.key = resident.key) with
    | none =>
      have missing := List.find?_eq_none.mp found resident member
      simp at missing
    | some other =>
      -- Two residents of one key are the same one.
      have key := List.find?_some found
      have equal : other = resident := List.inj_on_of_nodup_map lists.keys_residents
        (List.mem_of_find?_eq_some found) member (by simpa using key)
      exact ⟨other, rfl, by rw [equal]⟩

/-- A key is resident when there is a pair of it. -/
theorem Lists.contains_eq (lists : shelf.Lists entries) (key : String) :
    shelf.contains key = (entries.lookup key).isSome := by
  rw [← lists.get?_eq, get?, Option.isSome_map, contains]
  apply Bool.eq_iff_iff.mpr
  rw [List.any_eq_true, List.find?_isSome]

/-- Without the resident of a key, the others stand in the same order. -/
theorem Lists.order_without (lists : shelf.Lists entries) (key : String) :
    ∃ residents : List (Resident α), residents.Perm (shelf.without key) ∧
      residents.map Resident.pair = Recency.without key entries ∧
        residents.Pairwise fun later earlier => earlier.stamp < later.stamp := by
  obtain ⟨residents, perm, rfl, descends⟩ := lists.order
  -- Leaving one out keeps the stamps of the others descending.
  refine ⟨residents.filter (·.key ≠ key), perm.filter _, ?_, descends.filter _⟩
  rw [Recency.without, List.filter_map]
  rfl

/-- Of residents with different keys, a new stamp for one key changes one of them. -/
theorem map_stamp_perm {residents : List (Resident α)} {resident : Resident α}
    (keys : (residents.map (·.key)).Nodup) (member : resident ∈ residents) (stamp : Nat) :
    (residents.map fun other =>
        if other.key = resident.key then { other with stamp := stamp } else other).Perm
      ({ resident with stamp := stamp } :: residents.filter (·.key ≠ resident.key)) := by
  induction residents with
  | nil => cases member
  | cons first rest ih =>
    rw [List.map_cons, List.nodup_cons] at keys
    by_cases same : first.key = resident.key
    · -- The first resident has the key, so none of the others does.
      have others : ∀ other ∈ rest, other.key ≠ resident.key := by
        intro other later equal
        exact keys.1 (List.mem_map.mpr ⟨other, later, by rw [equal, same]⟩)
      have isFirst : resident = first := by
        rcases List.mem_cons.mp member with here | later
        · exact here
        · exact absurd rfl (others resident later)
      subst isFirst
      have still : (rest.map fun other => if other.key = resident.key then
          { other with stamp := stamp } else other) = rest := by
        refine (List.map_congr_left fun other later => ?_).trans (List.map_id rest)
        rw [if_neg (others other later)]
        rfl
      have kept : rest.filter (·.key ≠ resident.key) = rest :=
        List.filter_eq_self.mpr fun other later => by simpa using others other later
      rw [List.map_cons, if_pos rfl, still, List.filter_cons_of_neg (by simp), kept]
    · have later : resident ∈ rest := by
        rcases List.mem_cons.mp member with here | later
        · exact absurd (by rw [here]) same
        · exact later
      rw [List.map_cons, if_neg same, List.filter_cons_of_pos (by simpa using same)]
      exact ((ih keys.2 later).cons first).trans (.swap _ _ _)

/-- A resident with a new stamp stands in front of the others, however they stand. -/
theorem Lists.cons {after : Shelf α} (lists : shelf.Lists entries) (resident : Resident α)
    (perm : after.residents.Perm (resident :: shelf.without resident.key))
    (newest : resident.stamp = shelf.clock + 1) (clock : after.clock = shelf.clock + 1) :
    after.Lists (resident.pair :: Recency.without resident.key entries) := by
  obtain ⟨others, same, pairs, descends⟩ := lists.order_without resident.key
  have older : ∀ other ∈ others, other.stamp ≤ shelf.clock := by
    intro other member
    exact lists.stamp_le other (List.mem_of_mem_filter (same.mem_iff.mp member))
  -- No stamp was above the clock, so that the new one is above all others.
  refine ⟨⟨resident :: others, (same.cons _).trans perm.symm, by rw [List.map_cons, pairs], ?_⟩,
    ?_, ?_⟩
  · refine List.pairwise_cons.mpr ⟨fun other member => ?_, descends⟩
    have below := older other member
    omega
  · rw [List.map_cons, List.nodup_cons]
    constructor
    · intro twice
      obtain ⟨pair, member, equal⟩ := List.mem_map.mp twice
      have differs := List.of_mem_filter member
      simp only [ne_eq, decide_not, Bool.not_eq_true', decide_eq_false_iff_not] at differs
      exact differs equal
    · exact lists.keys.sublist (List.filter_sublist.map _)
  · intro other member
    rcases List.mem_cons.mp (perm.mem_iff.mp member) with rfl | kept
    · omega
    · have below := lists.stamp_le other (List.mem_of_mem_filter kept)
      omega

/-- Asking for a value gives the one of its pair, which moves to the front. -/
theorem Lists.touch (lists : shelf.Lists entries) (key : String) :
    (shelf.touch key).1 = entries.lookup key ∧
      (shelf.touch key).2.Lists (Recency.toFront key entries) := by
  refine ⟨lists.get?_eq key, ?_⟩
  cases found : entries.lookup key with
  | none =>
    -- No resident has the key, so that only the clock advances.
    have absent : ∀ resident ∈ shelf.residents, resident.key ≠ key := by
      intro resident member same
      have none := lists.contains_eq key
      rw [found, contains, Option.isSome_none, List.any_eq_false] at none
      exact none resident member (by simpa using same)
    have still : (shelf.touch key).2.residents = shelf.residents := by
      refine (List.map_congr_left fun resident member => ?_).trans (List.map_id _)
      rw [if_neg (absent resident member)]
      rfl
    have kept : Recency.toFront key entries = entries := by rw [Recency.toFront, found]
    rw [kept]
    refine ⟨still ▸ lists.order, lists.keys, fun resident member => ?_⟩
    rw [still] at member
    exact Nat.le_succ_of_le (lists.stamp_le resident member)
  | some value =>
    obtain ⟨resident, member, same⟩ :=
      lists.mem_iff.mp ((lookup_eq_some_iff lists.keys).mp found)
    cases same
    have front : Recency.toFront resident.key entries =
        resident.pair :: Recency.without resident.key entries := by
      rw [Recency.toFront, found]
      rfl
    have stamped : (shelf.touch resident.key).2.residents.Perm
        ({ resident with stamp := shelf.clock + 1 } :: shelf.without resident.key) :=
      map_stamp_perm lists.keys_residents member _
    rw [front]
    exact lists.cons { resident with stamp := shelf.clock + 1 } stamped rfl rfl

/-- Without a key there is one pair less, if there was one of it. -/
theorem length_without (keys : (entries.map (·.1)).Nodup) (key : String) :
    (Recency.without key entries).length + (if (entries.lookup key).isSome then 1 else 0) =
      entries.length := by
  induction entries with
  | nil => rfl
  | cons first rest ih =>
    obtain ⟨other, value⟩ := first
    rw [List.map_cons, List.nodup_cons] at keys
    have rest_ := ih keys.2
    by_cases same : other = key
    · -- The first pair has the key, so none of the others does.
      subst same
      have absent : rest.lookup other = none := by
        rw [List.lookup_eq_none_iff]
        intro pair later
        have differs : other ≠ pair.1 := fun equal =>
          keys.1 (List.mem_map.mpr ⟨pair, later, equal.symm⟩)
        simpa using differs
      rw [absent] at rest_
      simpa [Recency.without] using rest_
    · have differs : (key == other) = false := by simpa using Ne.symm same
      have kept : Recency.without key ((other, value) :: rest) =
          (other, value) :: Recency.without key rest :=
        List.filter_cons_of_pos (by simpa using same)
      rw [kept, List.lookup_cons, differs, List.length_cons, List.length_cons]
      show _ + 1 + (if (rest.lookup key).isSome then 1 else 0) = _
      omega

/-- A key without a pair leaves nothing to take out. -/
theorem without_of_lookup_eq_none (absent : entries.lookup key = none) :
    Recency.without key entries = entries := by
  apply List.filter_eq_self.mpr
  intro pair member
  -- A look-up in vain has met every pair.
  have differs : pair.1 ≠ key := by
    intro same
    simpa [same] using List.lookup_eq_none_iff.mp absent pair member
  simpa using differs

/-- Evicting a key tells whether it was resident, takes its pair out and counts it. -/
theorem Lists.evict (lists : shelf.Lists entries) (key : String) :
    (shelf.evict key).1 = (entries.lookup key).isSome ∧
      (shelf.evict key).2.Lists (Recency.without key entries) ∧
        (shelf.evict key).2.evictions + (Recency.without key entries).length =
          shelf.evictions + entries.length := by
  have length := length_without lists.keys key
  cases found : entries.lookup key with
  | none =>
    -- Without a resident of the key nothing is taken out or counted.
    have absent : shelf.contains key = false := by rw [lists.contains_eq, found]; rfl
    have still : shelf.evict key = (false, shelf) := by simp [Shelf.evict, absent]
    rw [still, without_of_lookup_eq_none found]
    exact ⟨rfl, lists, rfl⟩
  | some value =>
    have present : shelf.contains key = true := by rw [lists.contains_eq, found]; rfl
    have taken : shelf.evict key = (true,
        { shelf with residents := shelf.without key, evictions := shelf.evictions + 1 }) := by
      simp [Shelf.evict, present]
    rw [taken]
    refine ⟨rfl, ⟨lists.order_without key, ?_, ?_⟩, ?_⟩
    · exact lists.keys.sublist (List.filter_sublist.map _)
    · intro resident member
      exact lists.stamp_le resident (List.mem_of_mem_filter member)
    · rw [found] at length
      simp only [Option.isSome_some, if_true] at length
      show shelf.evictions + 1 + _ = _
      omega

/-- Clearing takes all pairs out and counts them. -/
theorem Lists.clear (lists : shelf.Lists entries) :
    shelf.clear.Lists [] ∧ shelf.clear.evictions = shelf.evictions + entries.length := by
  refine ⟨⟨⟨[], .refl _, rfl, .nil⟩, List.nodup_nil, by simp [Shelf.clear]⟩, ?_⟩
  rw [lists.length_eq]
  rfl

/-- The earliest of some residents is one of them, and none has an older stamp. -/
theorem foldl_earlier (rest : List (Resident α)) (first : Resident α) :
    rest.foldl earlier first ∈ first :: rest ∧
      ∀ resident ∈ first :: rest, (rest.foldl earlier first).stamp ≤ resident.stamp := by
  induction rest generalizing first with
  | nil => simp
  | cons second rest ih =>
    -- The earlier of the first two goes on as the first.
    have between : (earlier first second = first ∧ first.stamp ≤ second.stamp) ∨
        (earlier first second = second ∧ second.stamp ≤ first.stamp) := by
      unfold earlier
      split
      · exact .inr ⟨rfl, by omega⟩
      · exact .inl ⟨rfl, by omega⟩
    rw [List.foldl_cons]
    obtain ⟨member, least⟩ := ih (earlier first second)
    have next := least _ List.mem_cons_self
    rcases between with ⟨same, order⟩ | ⟨same, order⟩
    all_goals
      rw [same] at member least next ⊢
      refine ⟨?_, fun resident held => ?_⟩
    · rcases List.mem_cons.mp member with here | later
      · rw [here]
        exact List.mem_cons_self
      · exact List.mem_cons_of_mem _ (List.mem_cons_of_mem _ later)
    · rcases List.mem_cons.mp held with rfl | others
      · exact next
      · rcases List.mem_cons.mp others with rfl | later
        · omega
        · exact least resident (List.mem_cons_of_mem _ later)
    · exact List.mem_cons_of_mem _ member
    · rcases List.mem_cons.mp held with rfl | others
      · omega
      · exact least resident others

/-- Of the pairs, the last is that of the key which was asked for longest ago. -/
theorem Lists.oldest?_eq (lists : shelf.Lists entries) :
    shelf.oldest? = entries.getLast?.map (·.1) := by
  obtain ⟨residents, perm, rfl, descends⟩ := lists.order
  rw [oldest?]
  cases held : shelf.residents with
  | nil =>
    rw [held] at perm
    rw [perm.eq_nil]
    rfl
  | cons first rest =>
    rw [held] at perm
    obtain ⟨member, least⟩ := foldl_earlier rest first
    -- The last resident in order has the oldest stamp, and no other has one as old.
    rcases List.eq_nil_or_concat residents with empty | ⟨init, last, rfl⟩
    · rw [empty] at perm
      exact absurd perm.symm.eq_nil (by simp)
    · rw [List.concat_eq_append] at perm descends ⊢
      have atLast := least last (perm.mem_iff.mp (by simp))
      have isLast : rest.foldl earlier first = last := by
        rcases List.mem_append.mp (perm.mem_iff.mpr member) with before | here
        · have older := (List.pairwise_append.mp descends).2.2 _ before last (by simp)
          omega
        · exact List.mem_singleton.mp here
      simp [isLast, Resident.pair]

/-- Taking out the key of the last pair takes out that pair. -/
theorem without_getLast {init : List (String × α)} {value : α}
    (keys : ((init ++ [(key, value)]).map (·.1)).Nodup) :
    Recency.without key (init ++ [(key, value)]) = init := by
  rw [List.map_append, List.nodup_append] at keys
  -- No other entry has the key of the last one.
  have others : Recency.without key init = init := by
    apply List.filter_eq_self.mpr
    intro pair member
    have differs := keys.2.2 pair.1 (List.mem_map.mpr ⟨pair, member, rfl⟩) key (by simp)
    simpa using differs
  unfold Recency.without at others ⊢
  rw [List.filter_append, others]
  simp

/-- Dropping the value that was asked for longest ago drops the last pair. -/
theorem Lists.dropOldest (lists : shelf.Lists entries) :
    shelf.dropOldest.Lists entries.dropLast ∧
      shelf.dropOldest.evictions + entries.dropLast.length =
        shelf.evictions + entries.length := by
  have oldest := lists.oldest?_eq
  unfold Shelf.dropOldest
  rcases List.eq_nil_or_concat entries with rfl | ⟨init, ⟨key, value⟩, rfl⟩
  · rw [oldest]
    exact ⟨lists, rfl⟩
  · -- The last pair is that of the oldest resident, whose key is evicted.
    rw [List.concat_eq_append] at lists oldest ⊢
    rw [List.getLast?_concat, Option.map_some] at oldest
    obtain ⟨_, left, count⟩ := lists.evict key
    rw [without_getLast lists.keys] at left count
    rw [oldest, List.dropLast_concat]
    exact ⟨left, count⟩

/-- Taking an entry off leaves the room as it was. -/
theorem capacity_evict (shelf : Shelf α) (key : String) :
    (shelf.evict key).2.capacity = shelf.capacity := by
  unfold Shelf.evict
  split <;> rfl

/-- So does dropping the oldest one. -/
theorem capacity_dropOldest (shelf : Shelf α) : shelf.dropOldest.capacity = shelf.capacity := by
  unfold Shelf.dropOldest
  split
  · exact capacity_evict shelf _
  · rfl

/-- Dropping so many values drops so many pairs from the back. -/
theorem Lists.repeat_dropOldest (lists : shelf.Lists entries) {count : Nat}
    (few : count ≤ entries.length) :
    (Nat.repeat Shelf.dropOldest count shelf).Lists (entries.take (entries.length - count)) ∧
      (Nat.repeat Shelf.dropOldest count shelf).evictions = shelf.evictions + count ∧
      (Nat.repeat Shelf.dropOldest count shelf).capacity = shelf.capacity := by
  -- The induction is on the number of values, each of which drops the last pair that is left.
  induction count with
  | zero => simpa [Nat.repeat] using lists
  | succ count ih =>
    obtain ⟨before, evictions, capacity⟩ := ih (by omega)
    obtain ⟨after, counted⟩ := before.dropOldest
    have left : (entries.take (entries.length - count)).length = entries.length - count := by
      rw [List.length_take]
      omega
    rw [List.length_dropLast, left] at counted
    rw [List.dropLast_eq_take, left, List.take_take] at after
    refine ⟨?_, ?_, ?_⟩
    · have shorter : min (entries.length - count - 1) (entries.length - count) =
          entries.length - (count + 1) := by omega
      rw [shorter] at after
      exact after
    · show (Nat.repeat Shelf.dropOldest count shelf).dropOldest.evictions = _
      omega
    · show (Nat.repeat Shelf.dropOldest count shelf).dropOldest.capacity = _
      rw [capacity_dropOldest, capacity]

/-- A new value is put in front, after as many pairs were dropped from the back as is needed. -/
theorem Lists.insert (lists : shelf.Lists entries) (positive : 0 < shelf.capacity)
    (absent : entries.lookup key = none) (value : α) :
    (shelf.insert key value).Lists ((key, value) :: entries.take (shelf.capacity - 1)) ∧
      (shelf.insert key value).evictions =
        shelf.evictions + (entries.length + 1 - shelf.capacity) ∧
      (shelf.insert key value).capacity = shelf.capacity := by
  have size := lists.length_eq
  obtain ⟨room, evictions, capacity⟩ :=
    lists.repeat_dropOldest (show shelf.size + 1 - shelf.capacity ≤ entries.length by omega)
  -- What is left are the first pairs, one fewer than there is room for.
  have kept : entries.take (entries.length - (shelf.size + 1 - shelf.capacity)) =
      entries.take (shelf.capacity - 1) := by
    rcases Nat.lt_or_ge entries.length shelf.capacity with less | full
    · rw [List.take_of_length_le (by omega), List.take_of_length_le (by omega)]
    · have same : entries.length - (shelf.size + 1 - shelf.capacity) = shelf.capacity - 1 := by
        omega
      rw [same]
  rw [kept] at room
  have still : (entries.take (shelf.capacity - 1)).lookup key = none := by
    rw [List.lookup_eq_none_iff] at absent ⊢
    exact fun pair member => absent pair (List.mem_of_mem_take member)
  have put : (shelf.insert key value).Lists
      ((key, value) :: Recency.without key (entries.take (shelf.capacity - 1))) :=
    room.cons ⟨key, value, _⟩ List.perm_append_comm rfl rfl
  rw [without_of_lookup_eq_none still] at put
  refine ⟨put, ?_, capacity⟩
  rw [size]
  exact evictions

end Shelf

end HeapAtlas
