import HeapAtlas.Proofs.Residency.Recency
import HeapAtlas.Residency.Gates

/-! A list with the value asked for last in front, which a house without callers acts like. -/

namespace HeapAtlas

/-- Pairs in the order in which they were last asked for, and what was counted. -/
structure RecencyList (α : Type) where
  limit : Nat
  entries : List (String × α)
  hits : Nat
  /-- Number of loads, failed ones included. -/
  loads : Nat
  /-- Number of loads that gave a value. -/
  stored : Nat
  evictions : Nat

namespace RecencyList

variable {ε α σ : Type}

/-- A list without pairs, with room for at least one. -/
def ofLimit (limit : Nat) : RecencyList α := ⟨max 1 limit, [], 0, 0, 0, 0⟩

/-- A value that is there moves to the front and counts as a hit; else nothing changes. -/
def get (list : RecencyList α) (key : String) : Option α × RecencyList α :=
  match list.entries.lookup key with
  | some value =>
    (some value,
      { list with
        entries := (key, value) :: Recency.without key list.entries, hits := list.hits + 1 })
  | none => (none, list)

/-- Drops pairs from the back until there is room and puts a new one in front. -/
def put (list : RecencyList α) (key : String) (value : α) : RecencyList α :=
  { list with
    entries := (key, value) :: list.entries.take (list.limit - 1)
    stored := list.stored + 1
    evictions := list.evictions + (list.entries.length + 1 - list.limit) }

/-- The value that is there, or what one load gives; after a failure all pairs stay in order. -/
def getOrLoad (list : RecencyList α) (key : String) (load : σ → Except ε α × σ) (source : σ) :
    Except ε α × RecencyList α × σ :=
  match list.get key with
  | (some value, list) => (.ok value, list, source)
  | (none, list) =>
    -- The load counts however it ends.
    let counted := { list with loads := list.loads + 1 }
    match load source with
    | (.ok value, source) => (.ok value, counted.put key value, source)
    | (.error fault, source) => (.error fault, counted, source)

/-- Takes out the pair of a key and says whether there was one. -/
def evict (list : RecencyList α) (key : String) : Bool × RecencyList α :=
  match list.entries.lookup key with
  | some _ =>
    (true,
      { list with
        entries := Recency.without key list.entries, evictions := list.evictions + 1 })
  | none => (false, list)

/-- Takes out all pairs. -/
def clear (list : RecencyList α) : RecencyList α :=
  { list with entries := [], evictions := list.evictions + list.entries.length }

variable {list : RecencyList α} {key : String} {pair : String × α}

/-- Looking an entry up stores nothing. -/
theorem stored_get (list : RecencyList α) (key : String) :
    (list.get key).2.stored = list.stored := by
  unfold get
  split <;> rfl

/-- Neither does taking one off. -/
theorem stored_evict (list : RecencyList α) (key : String) :
    (list.evict key).2.stored = list.stored := by
  unfold evict
  split <;> rfl

/-- Looking an entry up leaves the limit as it is. -/
theorem limit_get (list : RecencyList α) (key : String) : (list.get key).2.limit = list.limit := by
  unfold get
  split <;> rfl

/-- So does taking one off. -/
theorem limit_evict (list : RecencyList α) (key : String) :
    (list.evict key).2.limit = list.limit := by
  unfold evict
  split <;> rfl

/-- Asking for a value only moves pairs. -/
theorem mem_of_mem_get (listed : pair ∈ (list.get key).2.entries) : pair ∈ list.entries := by
  unfold get at listed
  split at listed
  · next value found =>
    -- The pair in front is the one that was found, and the others stayed.
    rcases List.mem_cons.mp listed with rfl | other
    · obtain ⟨before, after, here, _⟩ := List.lookup_eq_some_iff.mp found
      rw [here]
      exact List.mem_append_right _ List.mem_cons_self
    · exact List.mem_of_mem_filter other
  · exact listed

/-- What is listed after an entry was taken off was listed before. -/
theorem mem_of_mem_evict (listed : pair ∈ (list.evict key).2.entries) : pair ∈ list.entries := by
  unfold evict at listed
  split at listed
  · exact List.mem_of_mem_filter listed
  · exact listed

/-- The value of a key that has a pair, or one load and what comes of it. -/
theorem getOrLoad_cases (list : RecencyList α) (key : String) (load : σ → Except ε α × σ)
    (source : σ) :
    (∃ value, list.getOrLoad key load source = (.ok value, (list.get key).2, source)) ∨
    list.getOrLoad key load source =
      match load source with
      | (.ok value, after) =>
        (.ok value, { list with loads := list.loads + 1 }.put key value, after)
      | (.error fault, after) => (.error fault, { list with loads := list.loads + 1 }, after) := by
  rw [getOrLoad]
  unfold get
  -- A value that is listed is given as it is, and otherwise it is loaded.
  cases list.entries.lookup key with
  | some value => exact .inl ⟨value, rfl⟩
  | none => exact .inr rfl

end RecencyList

namespace House

variable {ε α σ : Type}

/-- A house with nobody under way, whose shelf lists the pairs and whose counts are the same. -/
structure Mirrors (house : House ε α) (list : RecencyList α) : Prop where
  lists : house.shelf.Lists list.entries
  capacity : house.shelf.capacity = list.limit
  positive : 0 < list.limit
  room : list.entries.length ≤ list.limit
  hits : house.hits = list.hits
  loads : house.loads = list.loads
  evictions : house.shelf.evictions = list.evictions
  balance : list.stored = list.entries.length + list.evictions
  gates : house.gates = []
  calls : house.calls = []

/-- An empty house mirrors the empty list. -/
theorem mirrors_ofCapacity (capacity : Nat) :
    (ofCapacity capacity : House ε α).Mirrors (.ofLimit capacity) where
  lists := Shelf.lists_ofCapacity capacity
  capacity := rfl
  positive := by
    -- Even a capacity of zero leaves room for one entry.
    show 0 < max 1 capacity
    omega
  room := Nat.zero_le _
  hits := rfl
  loads := rfl
  evictions := rfl
  balance := rfl
  gates := rfl
  calls := rfl

variable {house : House ε α} {list : RecencyList α}

/-- Asking for a value that may be there. -/
theorem Mirrors.get (mirrors : house.Mirrors list) (key : String) :
    (house.get key).1 = (list.get key).1 ∧ (house.get key).2.Mirrors (list.get key).2 := by
  obtain ⟨answer, lists⟩ := mirrors.lists.touch key
  have length := Shelf.length_without mirrors.lists.keys key
  have room := mirrors.room
  have balance := mirrors.balance
  unfold RecencyList.get
  rw [Recency.toFront] at lists
  cases found : list.entries.lookup key with
  | none =>
    -- Only the clock of the shelf has advanced.
    rw [found] at answer lists
    refine ⟨answer, lists, mirrors.capacity, mirrors.positive, room, ?_, mirrors.loads,
      mirrors.evictions, balance, mirrors.gates, mirrors.calls⟩
    show (if (house.shelf.touch key).1.isSome then house.hits + 1 else house.hits) = list.hits
    rw [answer]
    exact mirrors.hits
  | some value =>
    rw [found] at answer lists length
    -- One pair is taken out and put in front again.
    have same : ((key, value) :: Recency.without key list.entries).length =
        list.entries.length := length
    refine ⟨answer, lists, mirrors.capacity, mirrors.positive, by rw [same]; exact room, ?_,
      mirrors.loads, mirrors.evictions, by rw [same]; exact balance, mirrors.gates,
      mirrors.calls⟩
    show (if (house.shelf.touch key).1.isSome then house.hits + 1 else house.hits) =
      list.hits + 1
    rw [answer, mirrors.hits]
    rfl

/-- A shelf in which a load's answer is put in, if it is a value. -/
def stocked (shelf : Shelf α) (key : String) : Except ε α → Shelf α
  | .ok value => shelf.insert key value
  | .error _ => shelf

/-- A caller alone brings its only call to a phase. -/
theorem setPhase_alone (shelf : Shelf α) (gates : List (String × Nat))
    (nextGate caller gate loads hits : Nat) (key : String) (before after : Phase ε α) :
    setPhase ⟨shelf, gates, nextGate, [⟨caller, key, gate, before⟩], loads, hits⟩ caller after =
      ⟨shelf, gates, nextGate, [⟨caller, key, gate, after⟩], loads, hits⟩ := by
  simp only [setPhase, List.map_cons, List.map_nil, if_pos]

/-- A caller alone that leaves takes its gate down: only the table and itself know it. -/
theorem leave_alone (shelf : Shelf α) (nextGate caller gate loads hits : Nat) (key : String)
    (phase : Phase ε α) (answer : Except ε α) :
    leave ⟨shelf, [(key, gate)], nextGate, [⟨caller, key, gate, phase⟩], loads, hits⟩ caller key
        answer =
      ⟨shelf, [], nextGate, [], loads, hits⟩ := by
  -- With two references left, the gate is the caller's own to take down.
  have known : references (⟨shelf, [(key, gate)], nextGate, [⟨caller, key, gate, phase⟩], loads,
      hits⟩ : House ε α) gate = 2 := by
    simp [references]
  have found : call? (⟨shelf, [(key, gate)], nextGate, [⟨caller, key, gate, phase⟩], loads,
      hits⟩ : House ε α) caller = some ⟨caller, key, gate, phase⟩ := by
    simp [call?]
  rw [leave, found]
  show forget (goOut (cleanUp _ caller key gate answer) caller answer) caller = _
  rw [cleanUp, known, setPhase_alone, goOut, setPhase_alone]
  simp [forget]

/-- A caller who is alone and gets an answer stocks the shelf with it. -/
theorem settle_alone (shelf : Shelf α) (gates : List (String × Nat))
    (nextGate caller gate loads hits : Nat) (key : String) (phase : Phase ε α)
    (answer : Except ε α) :
    settle ⟨shelf, gates, nextGate, [⟨caller, key, gate, phase⟩], loads, hits⟩ caller key answer =
      ⟨stocked shelf key answer, gates, nextGate, [⟨caller, key, gate, .settled answer⟩], loads,
        hits⟩ := by
  cases answer with
  | ok value => exact setPhase_alone ..
  | error fault => exact setPhase_alone ..

/-- A caller alone that has looked in vain once and taken the only gate goes on to load. -/
theorem finish_alone {shelf : Shelf α} {key : String} (absent : (shelf.touch key).1 = none)
    (gate nextGate loads hits caller : Nat) (load : σ → Except ε α × σ) (source : σ) :
    finish ⟨shelf, [(key, gate)], nextGate, [⟨caller, key, gate, .waiting⟩], loads, hits⟩ caller
        key load source =
      ((load source).1,
        ⟨stocked (shelf.touch key).2 key (load source).1, [], nextGate, [], loads + 1, hits⟩,
        (load source).2) := by
  rcases looked : shelf.touch key with ⟨value, touched⟩
  rw [looked] at absent
  subst absent
  -- Looking again finds as little, so that the caller counts a load.
  have again : lookAgain (enter ⟨shelf, [(key, gate)], nextGate, [⟨caller, key, gate, .waiting⟩],
        loads, hits⟩ caller) caller key =
      ((none : Option α), ⟨touched, [(key, gate)], nextGate,
        [⟨caller, key, gate, (.loading : Phase ε α)⟩], loads + 1, hits⟩) := by
    rw [enter, setPhase_alone, lookAgain, House.get, looked]
    show (none, setPhase ⟨touched, _, _, [⟨caller, key, gate, .inside⟩], _, _⟩ caller .loading) = _
    rw [setPhase_alone]
    rfl
  rw [finish, again]
  show ((load source).1, leave (settle _ caller key (load source).1) caller key _, _) = _
  rw [settle_alone, leave_alone]

/-- A caller alone that finds nothing loads once, and no gate or call is left behind. -/
theorem getOrLoad_alone {shelf : Shelf α} {key : String} (absent : (shelf.touch key).1 = none)
    (absentAgain : ((shelf.touch key).2.touch key).1 = none) (nextGate loads hits caller : Nat)
    (load : σ → Except ε α × σ) (source : σ) :
    getOrLoad ⟨shelf, [], nextGate, [], loads, hits⟩ caller key load source =
      ((load source).1,
        ⟨stocked ((shelf.touch key).2.touch key).2 key (load source).1, [], nextGate + 1, [],
          loads + 1, hits⟩,
        (load source).2) := by
  rw [← finish_alone absentAgain nextGate]
  unfold getOrLoad request House.get
  -- The value was absent at the first look too.
  rcases looked : shelf.touch key with ⟨value, touched⟩
  rw [looked] at absent
  cases absent
  rfl

/-- Looking in vain twice leaves all pairs in order. -/
theorem Mirrors.lists_again (mirrors : house.Mirrors list) {key : String}
    (absent : list.entries.lookup key = none) :
    (house.shelf.touch key).1 = none ∧ ((house.shelf.touch key).2.touch key).1 = none ∧
      ((house.shelf.touch key).2.touch key).2.Lists list.entries := by
  -- A miss moves the clock alone, whose readings only have to go up.
  have still : Recency.toFront key list.entries = list.entries := by
    rw [Recency.toFront, absent]
  obtain ⟨first, lists⟩ := mirrors.lists.touch key
  rw [still] at lists
  obtain ⟨second, listsAgain⟩ := lists.touch key
  rw [still] at listsAgain
  exact ⟨first.trans absent, second.trans absent, listsAgain⟩

/-- A value that is there is handed out by both, without a load. -/
theorem Mirrors.getOrLoad_present (mirrors : house.Mirrors list) (caller : Nat) {key : String}
    {value : α} (found : list.entries.lookup key = some value) (load : σ → Except ε α × σ)
    (source : σ) :
    house.getOrLoad caller key load source = (.ok value, (house.get key).2, source) ∧
      list.getOrLoad key load source = (.ok value, (list.get key).2, source) := by
  have present : (list.get key).1 = some value := by rw [RecencyList.get, found]
  have answer := (mirrors.get key).1
  rw [House.getOrLoad, request, RecencyList.getOrLoad]
  -- Both are asked for the value first, and both have it.
  rcases looked : house.get key with ⟨held, next⟩
  rcases expected : list.get key with ⟨listed, after⟩
  rw [expected] at present
  rw [looked, expected, present] at answer
  cases present
  cases answer
  exact ⟨rfl, rfl⟩

/-- A value that is not there is loaded once, and both put it in if there is one. -/
theorem Mirrors.getOrLoad_absent (mirrors : house.Mirrors list) (caller : Nat) {key : String}
    (found : list.entries.lookup key = none) (load : σ → Except ε α × σ) (source : σ) :
    (house.getOrLoad caller key load source).1 = (list.getOrLoad key load source).1 ∧
      (house.getOrLoad caller key load source).2.1.Mirrors (list.getOrLoad key load source).2.1 ∧
        (house.getOrLoad caller key load source).2.2 = (list.getOrLoad key load source).2.2 := by
  obtain ⟨absent, absentAgain, lists⟩ := mirrors.lists_again found
  have capacity := mirrors.capacity
  have positive := mirrors.positive
  have balance := mirrors.balance
  have evictions := mirrors.evictions
  rw [RecencyList.getOrLoad, RecencyList.get, found]
  obtain ⟨shelf, gates, nextGate, calls, loads, hits⟩ := house
  obtain rfl : gates = [] := mirrors.gates
  obtain rfl : calls = [] := mirrors.calls
  rw [getOrLoad_alone absent absentAgain]
  rcases load source with ⟨fault | value, after⟩
  · -- The shelf has only been looked at.
    refine ⟨rfl, ⟨lists, capacity, positive, mirrors.room, mirrors.hits, ?_, evictions, balance,
      rfl, rfl⟩, rfl⟩
    exact congrArg (· + 1) mirrors.loads
  · change shelf.capacity = list.limit at capacity
    change shelf.evictions = list.evictions at evictions
    obtain ⟨put, counted, held⟩ := lists.insert (capacity ▸ positive) found value
    change _ = shelf.evictions + (list.entries.length + 1 - shelf.capacity) at counted
    change _ = shelf.capacity at held
    change Shelf.Lists _ (_ :: list.entries.take (shelf.capacity - 1)) at put
    rw [capacity] at put counted held
    -- As many pairs are counted as are dropped from the back.
    have kept : (list.entries.take (list.limit - 1)).length =
        min (list.limit - 1) list.entries.length := List.length_take
    refine ⟨rfl, ⟨put, held, positive, ?_, mirrors.hits, ?_, ?_, ?_, rfl, rfl⟩, rfl⟩
    · show (list.entries.take (list.limit - 1)).length + 1 ≤ list.limit
      omega
    · exact congrArg (· + 1) mirrors.loads
    · rw [evictions] at counted
      exact counted
    · show list.stored + 1 = (list.entries.take (list.limit - 1)).length + 1 +
        (list.evictions + (list.entries.length + 1 - list.limit))
      omega

/-- A caller alone gets the answer of the list, whatever a load does. -/
theorem Mirrors.getOrLoad (mirrors : house.Mirrors list) (caller : Nat) (key : String)
    (load : σ → Except ε α × σ) (source : σ) :
    (house.getOrLoad caller key load source).1 = (list.getOrLoad key load source).1 ∧
      (house.getOrLoad caller key load source).2.1.Mirrors (list.getOrLoad key load source).2.1 ∧
        (house.getOrLoad caller key load source).2.2 = (list.getOrLoad key load source).2.2 := by
  -- A value that is there is found at the first look, and nothing is loaded.
  cases found : list.entries.lookup key with
  | some value =>
    obtain ⟨hit, expected⟩ := mirrors.getOrLoad_present caller found load source
    rw [hit, expected]
    exact ⟨rfl, (mirrors.get key).2, rfl⟩
  | none => exact mirrors.getOrLoad_absent caller found load source

/-- Evicting takes out the pair of a key. -/
theorem Mirrors.evict (mirrors : house.Mirrors list) (key : String) :
    (house.evict key).1 = (list.evict key).1 ∧ (house.evict key).2.Mirrors (list.evict key).2 := by
  obtain ⟨answer, lists, counted⟩ := mirrors.lists.evict key
  have length := Shelf.length_without mirrors.lists.keys key
  have balance := mirrors.balance
  have evictions := mirrors.evictions
  have room := mirrors.room
  have capacity : (house.shelf.evict key).2.capacity = list.limit := by
    rw [Shelf.capacity_evict]
    exact mirrors.capacity
  rw [RecencyList.evict]
  cases found : list.entries.lookup key with
  | none =>
    rw [found] at answer
    rw [Shelf.without_of_lookup_eq_none found] at lists counted
    refine ⟨answer, lists, capacity, mirrors.positive, room, mirrors.hits, mirrors.loads, ?_,
      balance, mirrors.gates, mirrors.calls⟩
    show (house.shelf.evict key).2.evictions = list.evictions
    omega
  | some value =>
    -- The pair that goes is counted, so that the balance is kept.
    rw [found] at answer length
    change _ + 1 = _ at length
    refine ⟨answer, lists, capacity, mirrors.positive, ?_, mirrors.hits, mirrors.loads, ?_, ?_,
      mirrors.gates, mirrors.calls⟩
    · show (Recency.without key list.entries).length ≤ list.limit
      omega
    · show (house.shelf.evict key).2.evictions = list.evictions + 1
      omega
    · show list.stored = (Recency.without key list.entries).length + (list.evictions + 1)
      omega

/-- Clearing takes out all pairs. -/
theorem Mirrors.clear (mirrors : house.Mirrors list) : house.clear.Mirrors list.clear := by
  obtain ⟨lists, counted⟩ := mirrors.lists.clear
  have balance := mirrors.balance
  rw [mirrors.evictions] at counted
  refine ⟨lists, mirrors.capacity, mirrors.positive, Nat.zero_le _, mirrors.hits, mirrors.loads,
    counted, ?_, mirrors.gates, mirrors.calls⟩
  -- All pairs move from the list to the count of evictions.
  show list.stored = 0 + (list.evictions + list.entries.length)
  omega

end House

end HeapAtlas
