import Mathlib.Algebra.Order.BigOperators.Group.Finset
import HeapAtlas.Proofs.BitSet.Stamps
import HeapAtlas.Proofs.Graph.Mirror
import HeapAtlas.Proofs.Paths.Bounded
import HeapAtlas.Proofs.Paths.Traced

/-! The search in an arena finds the paths of the search with trails, and never runs out of room. -/

namespace HeapAtlas

/-- At different objects there arrive different references. -/
theorem HeapGraph.Made.sum_map_inDegree_le {graph : HeapGraph} (made : graph.Made)
    {slots : List Slot} (apart : slots.Nodup) (inside : ∀ slot ∈ slots, slot < graph.objectCount) :
    (slots.map graph.inDegree).sum ≤ graph.edgeCount := by
  have among : slots.toFinset ⊆ Finset.range graph.objectCount := by
    intro slot member
    exact Finset.mem_range.mpr (inside slot (List.mem_toFinset.mp member))
  -- Summed over all objects the degrees count each reference that does not dangle.
  calc (slots.map graph.inDegree).sum
      = ∑ slot ∈ slots.toFinset, graph.inDegree slot := (List.sum_toFinset _ apart).symm
    _ ≤ ∑ slot ∈ Finset.range graph.objectCount, graph.inDegree slot :=
        Finset.sum_le_sum_of_subset among
    _ = (graph.edges.items.toList.filterMap (·.target)).length := made.sum_inDegree
    _ ≤ graph.edgeCount := List.length_filterMap_le _ _

namespace PathArena

open PathSearch

/-- The arena's search where it has come as far as a search with trails. -/
def State.ofSearch (search : Search) (arena : Array Step) (queue : List Nat) : State :=
  ⟨search.visited, arena, queue, search.paths, search.expanded, search.status⟩

/-- The objects that were taken from the queue, and those that still wait in it. -/
def reached (done : List Slot) (rest : List Trail) (search : Search) : List Slot :=
  done ++ (rest ++ search.next.reverse).map (·.head)

/--
A search that goes on, and the arena and queue behind it.

Of the level at `depth` there are still the trails of `rest`, and `left` references to be followed
back from the object that was last taken from the queue.
-/
structure Queued (graph : HeapGraph) (maxPaths depth : Nat) (done : List Slot) (left : Nat)
    (rest : List Trail) (search : Search) (arena : Array Step) (queue : List Nat) : Prop where
  searching : search.status = .searching
  traced : List.Forall₂ (Traced arena) queue (rest ++ search.next.reverse)
  near : ∀ trail ∈ rest, trail.edges.length = depth
  far : ∀ trail ∈ search.next, trail.edges.length = depth + 1
  wanted : search.paths.length + search.wanted = maxPaths
  wanted_pos : 0 < search.wanted
  usable : search.visited.Usable
  marked : ∀ slot ∈ reached done rest search, search.visited.test slot = true
  apart : (reached done rest search).Nodup
  inside : ∀ slot ∈ reached done rest search, slot < graph.objectCount
  /-- Every step but the first was added for a reference of its own. -/
  size_le : arena.size + left ≤ 1 + (done.map graph.inDegree).sum

/-- An arena and a queue behind a search, which goes on or has ended. -/
structure Carries (graph : HeapGraph) (maxPaths depth : Nat) (done : List Slot) (left : Nat)
    (rest : List Trail) (search : Search) (arena : Array Step) (queue : List Nat) : Prop where
  size_le : arena.size ≤ graph.edgeCount + 1
  queued : search.status = .searching →
    Queued graph maxPaths depth done left rest search arena queue

variable {graph : HeapGraph} {limits : PathLimits} {deadline : Deadline} {now : Instant}
  {maxPaths depth left room : Nat} {done : List Slot} {rest : List Trail} {search : Search}
  {arena : Array Step} {queue : List Nat} {position : Nat} {trail : Trail}

/-- A place that is taken from the queue leads back to the step that stands there. -/
theorem pop_of_held {state : State} {step : Step}
    (early : ¬ ((state.popped + 1) % stride = 0 ∧ deadline.expired now = true))
    (held : state.arena[position]? = some step) :
    PathArena.pop graph limits deadline now position state
      = if limits.maxDepth ≤ step.depth.toNat then some { state with popped := state.popped + 1 }
        else (graph.inEdges step.slot).foldlM
          (PathArena.follow graph limits position (step.depth + 1))
          { state with popped := state.popped + 1 } := by
  refine (if_neg early).trans ?_
  -- What is left is to read the place, where the step is known to stand.
  dsimp only
  rw [held]
  rfl

/-- Once a search with trails has ended, no more references are followed. -/
theorem foldl_follow_of_ended (ended : search.status ≠ .searching) (arrivals : List InEdge) :
    arrivals.foldl (PathSearch.follow graph limits depth trail) search = search := by
  induction arrivals with
  | nil => rfl
  | cons arrival others ih => rw [List.foldl_cons, follow_of_ended ended, ih]

/-- Once the arena's search has ended, no more references are followed. -/
theorem foldlM_follow_of_ended {state : State} (ended : state.status ≠ .searching)
    (behind : UInt32) (arrivals : List InEdge) :
    arrivals.foldlM (PathArena.follow graph limits position behind) state = some state := by
  induction arrivals with
  | nil => rfl
  | cons arrival others ih =>
    rw [List.foldlM_cons, PathArena.follow, if_pos ended]
    exact ih

namespace Queued

/-- No object is taken from the queue twice, so the arena has no more steps than references. -/
theorem size_add_le (made : graph.Made)
    (queued : Queued graph maxPaths depth done left rest search arena queue) :
    arena.size + left ≤ graph.edgeCount + 1 := by
  -- Each step but the first answers for a reference to an object that was taken.
  have apart := (List.nodup_append.mp queued.apart).1
  have sum := made.sum_map_inDegree_le apart fun slot member =>
    queued.inside slot (List.mem_append_left _ member)
  have size := queued.size_le
  omega

/-- What is reached are different objects of the heap. -/
theorem length_le (queued : Queued graph maxPaths depth done left rest search arena queue) :
    done.length + rest.length ≤ graph.objectCount := by
  have among : reached done rest search ⊆ List.range graph.objectCount := fun slot member =>
    List.mem_range.mpr (queued.inside slot member)
  -- They are distinct and among all objects, so there are no more of them.
  have count := (List.subperm_of_subset queued.apart among).length_le
  rw [List.length_range, reached, List.length_append, List.length_map, List.length_append] at count
  omega

/-- No trail is longer than the arena, so that depths are told by their numbers. -/
theorem toNat_ofNat_of_le_length (made : graph.Made) (few : graph.edgeCount < noParent.toNat)
    (queued : Queued graph maxPaths depth done left rest search arena queue)
    (traced : Traced arena position trail) {steps : Nat} (near : steps ≤ trail.edges.length + 1) :
    (UInt32.ofNat steps).toNat = steps := by
  have size := queued.size_add_le made
  have below := traced.lt_size
  have longest := traced.length_le
  have most := noParent.toNat_lt
  have fits : steps < 2 ^ 32 := by omega
  exact UInt32.toNat_ofNat_of_lt' fits

/-- A search that goes on is carried by what is queued for it. -/
theorem carries (made : graph.Made)
    (queued : Queued graph maxPaths depth done left rest search arena queue) :
    Carries graph maxPaths depth done left rest search arena queue where
  size_le := Nat.le_trans (Nat.le_add_right _ _) (queued.size_add_le made)
  queued _ := queued

/-- Fewer references may be left than there were. -/
theorem mono {fewer : Nat} (queued : Queued graph maxPaths depth done left rest search arena queue)
    (less : fewer ≤ left) : Queued graph maxPaths depth done fewer rest search arena queue :=
  { queued with size_le := Nat.le_trans (Nat.add_le_add_left less _) queued.size_le }

/-- Back to a root both searches make a path, which may be the last one asked for. -/
theorem follow_root (made : graph.Made) (few : graph.edgeCount < noParent.toNat)
    (queued : Queued graph limits.maxPaths depth done (left + 1) rest search arena queue)
    (traced : Traced arena position trail) (length : trail.edges.length = depth)
    {arrival : InEdge} (isRoot : graph.isRoot arrival.source = true) :
    PathArena.follow graph limits position (.ofNat (depth + 1)) (.ofSearch search arena queue)
        arrival
      = some (.ofSearch (PathSearch.follow graph limits depth trail search arrival)
          (arena.push (.back position (.ofNat (depth + 1)) arrival)) queue) ∧
      Carries graph limits.maxPaths depth done left rest
        (PathSearch.follow graph limits depth trail search arrival)
        (arena.push (.back position (.ofNat (depth + 1)) arrival)) queue := by
  have size := queued.size_add_le made
  subst length
  have extended := traced.extend arrival
  have path := extended.materialise?_eq (by rw [Array.size_push]; omega)
  have enough : limits.maxPaths ≤ search.paths.length + 1 ↔ search.wanted ≤ 1 := by
    have wanted := queued.wanted
    omega
  rw [follow_of_root queued.searching isRoot]
  constructor
  · simp only [PathArena.follow, State.ofSearch, queued.searching, isRoot, path, enough]
    rfl
  · refine ⟨by rw [Array.size_push]; omega, fun goesOn => ?_⟩
    -- As the search goes on, this was not the last path.
    have more : ¬ search.wanted ≤ 1 := by
      intro last
      simp [last] at goesOn
    exact {
      searching := goesOn
      traced := queued.traced.imp fun _ _ before => before.push _
      near := queued.near
      far := queued.far
      wanted := by
        have wanted := queued.wanted
        simp only [List.length_cons]
        omega
      wanted_pos := by
        show 0 < search.wanted - 1
        omega
      usable := queued.usable
      marked := queued.marked
      apart := queued.apart
      inside := queued.inside
      size_le := by
        have size := queued.size_le
        rw [Array.size_push]
        omega }

/-- An object that was reached, or that is too far away, is marked at most. -/
theorem follow_idle (made : graph.Made)
    (queued : Queued graph limits.maxPaths depth done (left + 1) rest search arena queue)
    (told : (UInt32.ofNat (depth + 1)).toNat = depth + 1) (position : Nat) (trail : Trail)
    {arrival : InEdge} (inner : graph.isRoot arrival.source = false)
    (idle : ¬ (search.visited.test arrival.source = false ∧ depth + 1 < limits.maxDepth)) :
    PathArena.follow graph limits position (.ofNat (depth + 1)) (.ofSearch search arena queue)
        arrival
      = some (.ofSearch (PathSearch.follow graph limits depth trail search arrival) arena queue) ∧
      Carries graph limits.maxPaths depth done left rest
        (PathSearch.follow graph limits depth trail search arrival) arena queue := by
  rw [follow_of_inner queued.searching inner, if_neg idle]
  constructor
  · simp only [PathArena.follow, State.ofSearch, queued.searching, inner, told,
      VersionedBitSet.insert_fst]
    simpa using idle
  · refine Queued.carries made ?_
    -- One reference fewer is left, and what was marked stays marked.
    exact {
      queued with
      usable := queued.usable.insert _
      marked := by
        intro slot member
        rw [queued.usable.test_insert, queued.marked slot member]
        simp
      size_le := by
        have size := queued.size_le
        omega }

/-- An object that is new and near enough is marked, and waits behind all others. -/
theorem follow_new (made : graph.Made)
    (queued : Queued graph limits.maxPaths depth done (left + 1) rest search arena queue)
    (told : (UInt32.ofNat (depth + 1)).toNat = depth + 1)
    (traced : Traced arena position trail) (length : trail.edges.length = depth)
    {arrival : InEdge} (source : arrival.source < graph.objectCount)
    (inner : graph.isRoot arrival.source = false)
    (fresh : search.visited.test arrival.source = false) (near : depth + 1 < limits.maxDepth) :
    PathArena.follow graph limits position (.ofNat (depth + 1)) (.ofSearch search arena queue)
        arrival
      = some (.ofSearch (PathSearch.follow graph limits depth trail search arrival)
          (arena.push (.back position (.ofNat (depth + 1)) arrival)) (queue ++ [arena.size])) ∧
      Carries graph limits.maxPaths depth done left rest
        (PathSearch.follow graph limits depth trail search arrival)
        (arena.push (.back position (.ofNat (depth + 1)) arrival)) (queue ++ [arena.size]) := by
  rw [follow_of_inner queued.searching inner, if_pos ⟨fresh, near⟩]
  constructor
  · simp only [PathArena.follow, State.ofSearch, queued.searching, inner, told,
      VersionedBitSet.insert_fst, fresh]
    simpa using near
  · -- The new object is reached behind all others.
    have waits : reached done rest { search with
        visited := (search.visited.insert arrival.source).2
        next := trail.extend arrival :: search.next }
          = reached done rest search ++ [arrival.source] := by
      simp [reached, Trail.extend]
    have unseen : arrival.source ∉ reached done rest search := by
      intro member
      rw [queued.marked _ member] at fresh
      cases fresh
    refine Queued.carries made ?_
    exact {
      searching := queued.searching
      traced := by
        subst length
        rw [List.reverse_cons, ← List.append_assoc]
        refine List.rel_append (queued.traced.imp fun _ _ before => before.push _) ?_
        exact .cons (traced.extend arrival) .nil
      near := queued.near
      far := by
        refine List.forall_mem_cons.mpr ⟨?_, queued.far⟩
        rw [Trail.extend, List.length_cons, length]
      wanted := queued.wanted
      wanted_pos := queued.wanted_pos
      usable := queued.usable.insert _
      marked := by
        intro slot member
        rw [waits, List.mem_append, List.mem_singleton] at member
        rw [queued.usable.test_insert]
        rcases member with before | rfl
        · rw [queued.marked slot before]
          simp
        · simp
      apart := by
        rw [waits]
        refine List.nodup_append.mpr ⟨queued.apart, List.nodup_singleton _, ?_⟩
        intro slot before last only same
        cases List.mem_singleton.mp only
        exact unseen (same ▸ before)
      inside := by
        rw [waits]
        intro slot member
        rcases List.mem_append.mp member with before | last
        · exact queued.inside slot before
        · exact List.mem_singleton.mp last ▸ source
      size_le := by
        have size := queued.size_le
        rw [Array.size_push]
        omega }

/-- Both searches go back over a reference alike. -/
theorem follow (made : graph.Made) (few : graph.edgeCount < noParent.toNat)
    (queued : Queued graph limits.maxPaths depth done (left + 1) rest search arena queue)
    (traced : Traced arena position trail) (length : trail.edges.length = depth)
    {arrival : InEdge} (source : arrival.source < graph.objectCount) :
    ∃ arena' queue', PathArena.follow graph limits position (.ofNat (depth + 1))
        (.ofSearch search arena queue) arrival
          = some (.ofSearch (PathSearch.follow graph limits depth trail search arrival) arena'
              queue') ∧
      Carries graph limits.maxPaths depth done left rest
        (PathSearch.follow graph limits depth trail search arrival) arena' queue' ∧
      Traced arena' position trail := by
  cases inner : graph.isRoot arrival.source with
  | true =>
    have root := queued.follow_root made few traced length inner
    exact ⟨_, _, root.1, root.2, traced.push _⟩
  | false =>
    have told : (UInt32.ofNat (depth + 1)).toNat = depth + 1 :=
      queued.toNat_ofNat_of_le_length made few traced (by omega)
    -- Only an object that is new and near enough is added to the arena.
    by_cases new : search.visited.test arrival.source = false ∧ depth + 1 < limits.maxDepth
    · have added := queued.follow_new made told traced length source inner new.1 new.2
      exact ⟨_, _, added.1, added.2, traced.push _⟩
    · have idle := queued.follow_idle made told position trail inner new
      exact ⟨_, _, idle.1, idle.2, traced⟩

/-- Both searches go back alike over all references that arrive at an object. -/
theorem foldl_follow (made : graph.Made) (few : graph.edgeCount < noParent.toNat)
    (length : trail.edges.length = depth) (arrivals : List InEdge)
    (sources : ∀ arrival ∈ arrivals, arrival.source < graph.objectCount) :
    ∀ {search : Search} {arena : Array Step} {queue : List Nat},
      Queued graph limits.maxPaths depth done arrivals.length rest search arena queue →
      Traced arena position trail →
      ∃ arena' queue', arrivals.foldlM (PathArena.follow graph limits position (.ofNat (depth + 1)))
          (.ofSearch search arena queue)
            = some (.ofSearch (arrivals.foldl (PathSearch.follow graph limits depth trail) search)
                arena' queue') ∧
        Carries graph limits.maxPaths depth done 0 rest
          (arrivals.foldl (PathSearch.follow graph limits depth trail) search) arena' queue' := by
  induction arrivals with
  | nil => exact fun queued _ => ⟨_, _, rfl, queued.carries made⟩
  | cons arrival others ih =>
    intro search arena queue queued traced
    obtain ⟨arena', queue', step, carries, kept⟩ :=
      queued.follow made few traced length (sources arrival List.mem_cons_self)
    rw [List.foldlM_cons, List.foldl_cons, step]
    by_cases goesOn : (PathSearch.follow graph limits depth trail search arrival).status
        = .searching
    · exact ih (fun other member => sources other (List.mem_cons_of_mem _ member))
        (carries.queued goesOn) kept
    · -- Enough paths were found, and the other references are left out by both searches.
      rw [foldl_follow_of_ended goesOn]
      exact ⟨arena', queue', foldlM_follow_of_ended goesOn _ others, carries.size_le,
        fun searching => absurd searching goesOn⟩

/-- An object that is taken from the queue is done, and what arrives there is to be followed. -/
theorem take (queued : Queued graph maxPaths depth done 0 (trail :: rest) search arena
    (position :: queue)) :
    Queued graph maxPaths depth (done ++ [trail.head]) (graph.inDegree trail.head) rest
      { search with expanded := search.expanded + 1 } arena queue := by
  -- The object goes from the queue to those that are done, so what is reached stays the same.
  have same : reached (done ++ [trail.head]) rest { search with expanded := search.expanded + 1 }
      = reached done (trail :: rest) search := by
    simp [reached]
  exact {
    searching := queued.searching
    traced := (List.forall₂_cons.mp queued.traced).2
    near := fun other member => queued.near other (List.mem_cons_of_mem _ member)
    far := queued.far
    wanted := queued.wanted
    wanted_pos := queued.wanted_pos
    usable := queued.usable
    marked := same ▸ queued.marked
    apart := same ▸ queued.apart
    inside := same ▸ queued.inside
    size_le := by
      have size := queued.size_le
      rw [List.map_append, List.sum_append, List.map_singleton, List.sum_singleton]
      omega }

/-- What is taken from the queue is expanded as its trail is, whatever the clock says. -/
theorem pop (made : graph.Made) (few : graph.edgeCount < noParent.toNat) (deadline : Deadline)
    (now : Instant) (queued : Queued graph limits.maxPaths depth done 0 (trail :: rest) search arena
      (position :: queue)) :
    ∃ arena' queue', PathArena.pop graph limits deadline now position
        (.ofSearch search arena queue)
          = some (.ofSearch (PathSearch.expand graph limits deadline now depth search trail) arena'
              queue') ∧
      Carries graph limits.maxPaths depth (done ++ [trail.head]) 0 rest
        (PathSearch.expand graph limits deadline now depth search trail) arena' queue' := by
  have traced : Traced arena position trail := (List.forall₂_cons.mp queued.traced).1
  have length : trail.edges.length = depth := queued.near trail List.mem_cons_self
  have inside : trail.head < graph.objectCount :=
    queued.inside trail.head (by simp [reached])
  obtain ⟨step, held, slot, steps⟩ := traced.exists_step
  -- The depth that the step tells is that of the level.
  have told : step.depth.toNat = depth := by
    rw [steps, length]
    exact queued.toNat_ofNat_of_le_length made few traced (by omega)
  have taken := queued.take
  rw [PathSearch.expand, if_neg (not_not.mpr queued.searching)]
  by_cases expired : (search.expanded + 1) % stride = 0 ∧ deadline.expired now = true
  · simp only [if_pos expired]
    exact ⟨arena, queue, if_pos expired, (taken.carries made).size_le, by simp⟩
  · simp only [if_neg expired]
    rw [pop_of_held expired held, told, slot, steps, length]
    by_cases far : limits.maxDepth ≤ depth
    · rw [if_pos far, if_pos far]
      exact ⟨arena, queue, rfl, (taken.mono (Nat.zero_le _)).carries made⟩
    · rw [if_neg far, if_neg far]
      have sources : ∀ arrival ∈ graph.inEdges trail.head, arrival.source < graph.objectCount :=
        fun arrival member => (made.lt_of_refers ((made.mem_inEdges inside).mp member)).1
      rw [made.inDegree_eq inside] at taken
      have followed := foldl_follow made few length (graph.inEdges trail.head) sources taken traced
      rwa [UInt32.ofNat_add] at followed

end Queued

/-- Once a search with trails has ended, no more trails are expanded. -/
theorem foldl_expand_of_ended (ended : search.status ≠ .searching) (trails : List Trail) :
    trails.foldl (PathSearch.expand graph limits deadline now depth) search = search := by
  induction trails with
  | nil => rfl
  | cons trail others ih => rw [List.foldl_cons, PathSearch.expand, if_pos ended, ih]

/-- Once the arena's search has ended, nothing more is taken from the queue. -/
theorem run_of_ended {state : State} (ended : state.status ≠ .searching) (room : Nat) :
    run graph limits deadline now room state = some state := by
  cases room with
  | zero => exact if_neg fun both => ended both.1
  | succ room => exact if_pos ended

namespace Queued

/--
The places of a level are taken from the queue one after another, as its trails are expanded.

What is left is a run with the next level in the queue, unless the search has ended.
-/
theorem level (made : graph.Made) (few : graph.edgeCount < noParent.toNat) (deadline : Deadline)
    (now : Instant) (rest : List Trail) :
    ∀ {done : List Slot} {search : Search} {arena : Array Step} {queue : List Nat} {room : Nat},
      Queued graph limits.maxPaths depth done 0 rest search arena queue →
      graph.objectCount ≤ done.length + room →
      ∃ arena' queue',
        run graph limits deadline now room (.ofSearch search arena queue)
          = run graph limits deadline now (room - rest.length)
              (.ofSearch (rest.foldl (PathSearch.expand graph limits deadline now depth) search)
                arena' queue') ∧
        Carries graph limits.maxPaths depth (done ++ rest.map (·.head)) 0 []
          (rest.foldl (PathSearch.expand graph limits deadline now depth) search) arena'
          queue' := by
  -- The induction is on the trails that are left of the level.
  induction rest with
  | nil =>
    intro done search arena queue room queued _
    rw [List.map_nil, List.append_nil]
    exact ⟨arena, queue, rfl, queued.carries made⟩
  | cons trail others ih =>
    intro done search arena queue room queued enough
    obtain ⟨position, waiting, _, _, rfl⟩ : ∃ position waiting, Traced arena position trail ∧
        List.Forall₂ (Traced arena) waiting (others ++ search.next.reverse) ∧
        queue = position :: waiting := List.forall₂_cons_right_iff.mp queued.traced
    -- As not all objects are done, there is room for one more.
    have objects := queued.length_le
    rw [List.length_cons] at objects
    obtain ⟨room, rfl⟩ := Nat.exists_eq_add_one_of_ne_zero (by omega : room ≠ 0)
    obtain ⟨arena', queue', popped, carries⟩ := queued.pop made few deadline now
    have taken : run graph limits deadline now (room + 1)
        (.ofSearch search arena (position :: waiting))
          = run graph limits deadline now room (.ofSearch
              (PathSearch.expand graph limits deadline now depth search trail) arena' queue') := by
      refine (if_neg (not_not.mpr queued.searching)).trans ?_
      show (PathArena.pop graph limits deadline now position (.ofSearch search arena waiting)).bind
        _ = _
      rw [popped]
      rfl
    rw [taken, List.foldl_cons, List.length_cons, Nat.add_sub_add_right, List.map_cons,
      List.append_cons]
    by_cases goesOn : (PathSearch.expand graph limits deadline now depth search trail).status
        = .searching
    · exact ih (carries.queued goesOn) (by rw [List.length_append, List.length_singleton]; omega)
    · -- Both searches have ended, and leave the rest of the level as it is.
      rw [foldl_expand_of_ended goesOn]
      refine ⟨arena', queue', ?_, carries.size_le, fun searching => absurd searching goesOn⟩
      rw [run_of_ended goesOn, run_of_ended goesOn]

/-- The trails that were put aside are those of the next level. -/
theorem turn (queued : Queued graph maxPaths depth done 0 [] search arena queue) :
    Queued graph maxPaths (depth + 1) done 0 search.next.reverse { search with next := [] } arena
      queue where
  searching := queued.searching
  traced := by simpa using queued.traced
  near trail member := queued.far trail (List.mem_reverse.mp member)
  far := by simp
  wanted := queued.wanted
  wanted_pos := queued.wanted_pos
  usable := queued.usable
  -- What waits is only called differently, and nothing more is reached.
  marked := by simpa [reached] using queued.marked
  apart := by simpa [reached] using queued.apart
  inside := by simpa [reached] using queued.inside
  size_le := queued.size_le

/-- Level after level the arena's search does what the search with trails does, to its end. -/
theorem advance (made : graph.Made) (few : graph.edgeCount < noParent.toNat) (deadline : Deadline)
    (now : Instant) (levels : Nat) :
    ∀ {depth : Nat} {done : List Slot} {trails : List Trail} {search : Search}
      {arena : Array Step} {queue : List Nat} {room : Nat},
      Queued graph limits.maxPaths depth done 0 trails { search with next := [] } arena queue →
      graph.objectCount ≤ done.length + room → depth ≤ done.length →
      graph.objectCount < depth + levels →
      ∃ arena' queue', run graph limits deadline now room (.ofSearch search arena queue)
          = some (.ofSearch
              (PathSearch.advance graph limits deadline now levels depth trails search) arena'
              queue') ∧ arena'.size ≤ graph.edgeCount + 1 := by
  -- The induction is on the levels, each of which takes at least one object from the queue.
  induction levels with
  | zero =>
    intro depth done trails search arena queue room queued _ deep enough
    have objects := queued.length_le
    omega
  | succ levels ih =>
    intro depth done trails search arena queue room queued left deep enough
    rw [PathSearch.advance]
    cases trails with
    | nil =>
      -- Nothing waits any more.
      have empty : queue = [] := List.forall₂_nil_right_iff.mp queued.traced
      subst empty
      rw [if_pos (by simp)]
      refine ⟨arena, [], ?_, (queued.carries made).size_le⟩
      cases room with
      | zero => exact if_neg fun both => both.2 rfl
      | succ room => exact if_neg (not_not.mpr queued.searching)
    | cons trail others =>
      have searching : search.status = .searching := queued.searching
      rw [if_neg (by simp [searching])]
      obtain ⟨arena', queue', same, carries⟩ :=
        level made few deadline now (trail :: others) queued left
      have start : State.ofSearch search arena queue
          = .ofSearch { search with next := [] } arena queue := rfl
      rw [start, same]
      dsimp only
      have longer : (done ++ (trail :: others).map (·.head)).length
          = done.length + (trail :: others).length := by simp
      have one : 0 < (trail :: others).length := Nat.zero_lt_succ _
      by_cases goesOn : ((trail :: others).foldl
          (PathSearch.expand graph limits deadline now depth) { search with next := [] }).status
            = .searching
      · exact ih (carries.queued goesOn).turn (by omega) (by omega) (by omega)
      · rw [advance_of_ended goesOn, run_of_ended goesOn]
        exact ⟨arena', queue', rfl, carries.size_le⟩

end Queued

section Search

variable {target : Slot} {visited : VersionedBitSet}

/-- At first only the object asked for is visited, and it waits at the first place. -/
theorem queued_start (within : target < graph.objectCount) (usable : visited.Usable)
    (marked : visited.test target = true) (positive : 0 < maxPaths) :
    Queued graph maxPaths 0 [] 0 [.ofTarget target]
      { (⟨visited, [], [], maxPaths, 0, .searching⟩ : Search) with next := [] }
      #[.ofTarget target] [0] where
  searching := rfl
  traced := .cons (.first rfl) .nil
  near := by simp [Trail.ofTarget]
  far := by simp
  wanted := Nat.zero_add _
  wanted_pos := positive
  usable := usable
  -- Nothing is done yet, and the object asked for is all that was reached.
  marked := List.forall_mem_singleton.mpr marked
  apart := List.nodup_singleton _
  inside := List.forall_mem_singleton.mpr within
  size_le := Nat.le_refl _

/-- The arena's search comes to an end, with no more steps than references and the first one. -/
theorem exists_search_eq (made : graph.Made) (few : graph.edgeCount < noParent.toNat)
    (within : target < graph.objectCount) (usable : visited.Usable)
    (positive : 0 < limits.maxPaths) (deadline : Deadline) (now : Instant) :
    ∃ arena queue, PathArena.search graph target limits deadline now visited
        = some (.ofSearch (PathSearch.advance graph limits deadline now (graph.objectCount + 1) 0
            [.ofTarget target] ⟨((visited.reset).ensureCount graph.objectCount).mark target, [], [],
              limits.maxPaths, 0, .searching⟩) arena queue) ∧
      arena.size ≤ graph.edgeCount + 1 := by
  have cleared : ((visited.reset).ensureCount graph.objectCount).Usable :=
    usable.reset.ensureCount _
  have start := queued_start within (cleared.mark target) (by simp [cleared.test_mark]) positive
  -- There are enough levels and enough room, as no object is taken twice.
  exact start.advance made few deadline now (graph.objectCount + 1) (Nat.le_add_left _ _)
    (Nat.le_refl _) (by omega)

end Search

end PathArena

/--
The arena gives the paths of the search with trails, also where the clock cuts it short.

Links tell the places of the arena apart, as it has at most one step for every reference.
-/
theorem arenaPaths_eq {graph : HeapGraph} (made : graph.Made)
    (few : graph.edgeCount < PathArena.noParent.toNat) {target : Slot}
    (within : target < graph.objectCount) (limits : PathLimits) (deadline : Deadline)
    (now : Instant) {visited : VersionedBitSet} (usable : visited.Usable) :
    arenaPaths graph target limits deadline now visited
      = some (pathsToRoot graph target limits deadline now visited) := by
  rw [arenaPaths, pathsToRoot]
  by_cases none : limits.maxPaths = 0
  · rw [if_pos none, if_pos none]
    rfl
  · rw [if_neg none, if_neg none]
    -- Only for an object that is no root there is anything to search.
    cases isRoot : graph.isRoot target with
    | true => rfl
    | false =>
      obtain ⟨arena, queue, found, _⟩ := PathArena.exists_search_eq made few within usable
        (Nat.pos_of_ne_zero none) deadline now
      rw [found]
      rfl

end HeapAtlas
