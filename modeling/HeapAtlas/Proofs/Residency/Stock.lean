import HeapAtlas.Proofs.Residency.Moves
import HeapAtlas.Proofs.Residency.Recency

/-! What stands on the shelf while callers come and go: never too much, and never what is loaded. -/

namespace HeapAtlas

namespace Shelf

variable {α : Type} {shelf : Shelf α} {entries : List (String × α)} {key other : String} {value : α}

/-- Asking for a value changes no value. -/
theorem get?_touch (shelf : Shelf α) (key other : String) :
    (shelf.touch key).2.get? other = shelf.get? other := by
  -- A new stamp changes neither the key of a resident nor its value.
  have keyOf (resident : Resident α) : (if resident.key = key then
      { resident with stamp := shelf.clock + 1 } else resident).key = resident.key := by
    split <;> rfl
  have valueOf (resident : Resident α) : (if resident.key = key then
      { resident with stamp := shelf.clock + 1 } else resident).value = resident.value := by
    split <;> rfl
  simp only [get?, touch, List.find?_map, Function.comp_def, keyOf, Option.map_map, valueOf]

/-- After an eviction there is no value of the key, and all others are there. -/
theorem Lists.get?_evict (lists : shelf.Lists entries) (key other : String) :
    (shelf.evict key).2.get? other = if other = key then none else shelf.get? other := by
  rw [(lists.evict key).2.1.get?_eq, lists.get?_eq, Recency.without]
  -- The pairs that are left are those of the other keys.
  have left : (entries.filter (·.1 ≠ key)).map (·.1) = (entries.map (·.1)).filter (· ≠ key) := by
    rw [List.filter_map]
    rfl
  apply Option.ext
  intro value
  rw [lookup_eq_some_iff (left ▸ lists.keys.filter _), List.mem_filter]
  split
  · rename_i same
    simp [same]
  · rename_i differs
    simp [lookup_eq_some_iff lists.keys, differs]

/-- A new value is there once it was put in, and every other one that is there was so before. -/
theorem Lists.get?_insert (lists : shelf.Lists entries) (positive : 0 < shelf.capacity)
    (absent : shelf.get? key = none) (value : α) :
    (shelf.insert key value).get? key = some value ∧ ∀ other ≠ key,
      (shelf.insert key value).get? other = shelf.get? other ∨
        (shelf.insert key value).get? other = none := by
  obtain ⟨put, _⟩ := lists.insert positive (by rw [← lists.get?_eq, absent]) value
  rw [put.get?_eq, List.lookup_cons_self]
  refine ⟨rfl, fun other differs => ?_⟩
  rw [put.get?_eq, lists.get?_eq, List.lookup_cons, beq_eq_false_iff_ne.mpr differs]
  -- The first pairs hold what is found among them, or nothing is.
  cases found : (entries.take (shelf.capacity - 1)).lookup other with
  | none => exact .inr rfl
  | some held =>
    have keys := lists.keys.sublist ((List.take_sublist (shelf.capacity - 1) entries).map (·.1))
    have member := List.mem_of_mem_take ((lookup_eq_some_iff keys).mp found)
    exact .inl ((lookup_eq_some_iff lists.keys).mpr member).symm

/-- The values of a shelf can be listed, and there are no more of them than it has room for. -/
structure Tidy (shelf : Shelf α) : Prop where
  lists : ∃ entries, shelf.Lists entries
  size_le : shelf.size ≤ shelf.capacity

/-- An empty shelf is tidy. -/
theorem tidy_ofCapacity (capacity : Nat) : (ofCapacity capacity : Shelf α).Tidy :=
  ⟨⟨[], lists_ofCapacity capacity⟩, Nat.zero_le _⟩

/-- Asking for an entry leaves the shelf tidy. -/
theorem Tidy.touch (tidy : shelf.Tidy) (key : String) : (shelf.touch key).2.Tidy := by
  obtain ⟨entries, lists⟩ := tidy.lists
  refine ⟨⟨_, (lists.touch key).2⟩, ?_⟩
  -- A value that is asked for is neither put in nor taken out.
  have same : (shelf.touch key).2.size = shelf.size := List.length_map _
  rw [same]
  exact tidy.size_le

/-- Taking an entry off keeps the shelf tidy. -/
theorem Tidy.evict (tidy : shelf.Tidy) (key : String) : (shelf.evict key).2.Tidy := by
  obtain ⟨entries, lists⟩ := tidy.lists
  have left := (lists.evict key).2.1
  refine ⟨⟨_, left⟩, ?_⟩
  rw [← left.length_eq, capacity_evict]
  have fewer : (Recency.without key entries).length ≤ entries.length := List.length_filter_le _ _
  exact Nat.le_trans fewer (lists.length_eq ▸ tidy.size_le)

/-- A cleared shelf is tidy. -/
theorem Tidy.clear (tidy : shelf.Tidy) : shelf.clear.Tidy := by
  obtain ⟨entries, lists⟩ := tidy.lists
  exact ⟨⟨[], lists.clear.1⟩, Nat.zero_le _⟩

/-- Room is made for a new value before it is put in. -/
theorem Tidy.insert (tidy : shelf.Tidy) (positive : 0 < shelf.capacity)
    (absent : shelf.get? key = none) (value : α) :
    (shelf.insert key value).Tidy ∧ (shelf.insert key value).capacity = shelf.capacity := by
  obtain ⟨entries, lists⟩ := tidy.lists
  -- The pairs left are cut to one below the capacity before the new one comes in front.
  obtain ⟨put, _, capacity⟩ := lists.insert positive (by rw [← lists.get?_eq, absent]) value
  refine ⟨⟨⟨_, put⟩, ?_⟩, capacity⟩
  rw [← put.length_eq, capacity, List.length_cons, List.length_take]
  omega

end Shelf

namespace House

variable {ε α : Type} {house next : House ε α} {capacity : Nat}

/-- A tidy shelf of a capacity, on which no value stands that is being loaded. -/
structure Stocked (capacity : Nat) (house : House ε α) : Prop where
  tidy : house.shelf.Tidy
  capacity_eq : house.shelf.capacity = max 1 capacity
  vacant : ∀ call ∈ house.calls, call.phase = .loading → house.shelf.get? call.key = none

/-- An empty house is stocked with nothing. -/
theorem stocked_ofCapacity (capacity : Nat) :
    (ofCapacity capacity : House ε α).Stocked capacity where
  tidy := Shelf.tidy_ofCapacity capacity
  capacity_eq := rfl
  vacant call under := by cases under

/-- There is always room for one entry. -/
theorem Stocked.positive (stocked : house.Stocked capacity) : 0 < house.shelf.capacity := by
  rw [stocked.capacity_eq]
  omega

/-- What a step does to the shelf; a value comes there only from a caller that loads it. -/
theorem Step.shelf_cases (step : Step house next) :
    next.shelf = house.shelf ∨ (∃ key, next.shelf = (house.shelf.touch key).2) ∨
      (∃ key, next.shelf = (house.shelf.evict key).2) ∨ next.shelf = house.shelf.clear ∨
      ∃ call value, house.call? call.caller = some call ∧ call.phase = .loading ∧
        next = house.settle call.caller call.key (.ok value) := by
  -- Of all steps only asking, settling and the three calls from outside touch the shelf.
  cases step with
  | request caller key idle =>
    refine .inr (.inl ⟨key, ?_⟩)
    rcases house.request_cases caller key with hit | ⟨_, miss⟩
    · rw [hit]
      rfl
    · rw [miss]
      exact shelf_gateOf _ key
  | @lookAgain call found due =>
    refine .inr (.inl ⟨call.key, ?_⟩)
    rcases house.lookAgain_cases call.caller call.key with ⟨_, _, hit⟩ | ⟨_, miss⟩
    · rw [hit]
      rfl
    · rw [miss]
      rfl
  | @settle call found due answer =>
    cases answer with
    | ok value => exact .inr (.inr (.inr (.inr ⟨call, value, found, due, rfl⟩)))
    | error fault => exact .inl rfl
  | get key => exact .inr (.inl ⟨key, rfl⟩)
  | evict key => exact .inr (.inr (.inl ⟨key, rfl⟩))
  | clear => exact .inr (.inr (.inr (.inl rfl)))
  | enter | cleanUp | goOut | forget => exact .inl rfl

/-- A step leaves the value of a key as it is or takes it away, unless it was being loaded. -/
theorem Stocked.get?_step (stocked : house.Stocked capacity) (guarded : house.Guarded)
    (step : Step house next) (key : String) :
    next.shelf.get? key = house.shelf.get? key ∨ next.shelf.get? key = none ∨
      ∃ call ∈ house.calls, ∃ value, call.phase = .loading ∧ call.key = key ∧
        next = house.settle call.caller call.key (.ok value) := by
  obtain ⟨entries, lists⟩ := stocked.tidy.lists
  -- What a step does to the shelf decides what is there under a key.
  rcases step.shelf_cases with same | ⟨asked, touched⟩ | ⟨dropped, evicted⟩ | cleared |
    ⟨call, value, found, loads, settled⟩
  · exact .inl (by rw [same])
  · exact .inl (by rw [touched, Shelf.get?_touch])
  · rw [evicted, lists.get?_evict]
    split
    · exact .inr (.inl rfl)
    · exact .inl rfl
  · exact .inr (.inl (by rw [cleared]; rfl))
  · have under := (guarded.call?_eq_some_iff.mp found).1
    by_cases same : key = call.key
    · exact .inr (.inr ⟨call, under, value, loads, same.symm, settled⟩)
    · have absent := stocked.vacant call under loads
      rcases (lists.get?_insert stocked.positive absent value).2 key same with kept | gone
      · exact .inl (by rw [settled]; exact kept)
      · exact .inr (.inl (by rw [settled]; exact gone))

/-- What is being loaded after a step was not there, and nobody else was about to put it there. -/
theorem Stocked.loading_step (stocked : house.Stocked capacity) (guarded : house.Guarded)
    (step : Step house next) {call : Call ε α} (under : call ∈ next.calls)
    (loads : call.phase = .loading) :
    house.shelf.get? call.key = none ∧
      ∃ before ∈ house.calls, before.caller = call.caller ∧ before.key = call.key ∧
        before.gate = call.gate ∧ (before.phase = .inside ∨ before.phase = .loading) := by
  have after : next.call? call.caller = some call :=
    (guarded.step step).call?_eq_some_iff.mpr ⟨under, rfl⟩
  rcases step.move call.caller with still | moved
  · have member := (guarded.call?_eq_some_iff.mp (still ▸ after)).1
    exact ⟨stocked.vacant call member loads, call, member, rfl, rfl, rfl, .inr loads⟩
  · -- Only by looking again does a caller begin to load.
    rw [after] at moved
    generalize held : house.call? call.caller = before at moved
    cases moved with
    | @load before due absent =>
      obtain ⟨member, same⟩ := guarded.call?_eq_some_iff.mp held
      exact ⟨absent, before, member, same, rfl, rfl, .inl due⟩
    | begin due =>
      rw [due] at loads
      cases loads
    | enter | find | settle | cleanUp | goOut => cases loads

/-- Every step leaves the shelf tidy, and without the values that are being loaded. -/
theorem Stocked.step (stocked : house.Stocked capacity) (guarded : house.Guarded)
    (step : Step house next) : next.Stocked capacity := by
  have kept : next.shelf.Tidy ∧ next.shelf.capacity = house.shelf.capacity := by
    rcases step.shelf_cases with same | ⟨key, touched⟩ | ⟨key, evicted⟩ | cleared |
      ⟨call, value, found, loads, settled⟩
    · exact ⟨same ▸ stocked.tidy, by rw [same]⟩
    · exact ⟨touched ▸ stocked.tidy.touch key, by rw [touched]; rfl⟩
    · exact ⟨evicted ▸ stocked.tidy.evict key, by rw [evicted, Shelf.capacity_evict]⟩
    · exact ⟨cleared ▸ stocked.tidy.clear, by rw [cleared]; rfl⟩
    · have absent := stocked.vacant call (guarded.call?_eq_some_iff.mp found).1 loads
      rw [settled]
      exact stocked.tidy.insert stocked.positive absent value
  refine ⟨kept.1, kept.2.trans stocked.capacity_eq, fun call under loads => ?_⟩
  obtain ⟨absent, before, member, mover, sameKey, _, due⟩ :=
    stocked.loading_step guarded step under loads
  rcases stocked.get?_step guarded step call.key with same | gone |
    ⟨loader, there, value, loaderLoads, ofKey, settled⟩
  · rw [same, absent]
  · exact gone
  · -- Who puts the value in would share the inside of the gate, and be the caller itself.
    have inside : before.phase.needsGate = true ∧ before.phase.holdsGate = true := by
      rcases due with inside | loading
      · rw [inside]
        exact ⟨rfl, rfl⟩
      · rw [loading]
        exact ⟨rfl, rfl⟩
    have shared : loader.gate = before.gate :=
      (guarded.gate_eq_iff there member (by rw [loaderLoads]; rfl) inside.1).mpr
        (ofKey.trans sameKey.symm)
    have one : loader = before :=
      guarded.alone loader there before member shared (by rw [loaderLoads]; rfl) inside.2
    -- But that caller has settled.
    have afterwards :
        next.call? call.caller = some { loader with phase := .settled (.ok value) } := by
      rw [settled, ← mover, ← one]
      exact call?_setPhase_self { house with shelf := _ }
        (guarded.call?_eq_some_iff.mpr ⟨there, rfl⟩) _
    rw [(guarded.step step).call?_eq_some_iff.mpr ⟨under, rfl⟩] at afterwards
    rw [Option.some.inj afterwards] at loads
    cases loads

/-- Whatever steps follow one another, the gates and the shelf are in order. -/
theorem Reachable.inOrder (reachable : house.Reachable capacity) :
    house.Guarded ∧ house.Stocked capacity := by
  induction reachable with
  | start => exact ⟨guarded_ofCapacity capacity, stocked_ofCapacity capacity⟩
  | step _ step ih => exact ⟨ih.1.step step, ih.2.step ih.1 step⟩

end House

end HeapAtlas
