import HeapAtlas.Proofs.BitSet.Stamps
import HeapAtlas.Proofs.Paths.Wave

/-! A search that asks for some paths only finds the first ones of the search for all. -/

namespace HeapAtlas.PathSearch

/-- How far a search for so many paths has come that takes the steps of a search for all. -/
structure Keeps (maxPaths : Nat) (search : Search) (wave : Wave) : Prop where
  usable : search.visited.Usable
  stage : (search.status = .searching ∧
      (∀ node, search.visited.test node = true ↔ node ∈ wave.visited) ∧
      search.next = wave.next ∧ search.paths = wave.paths ∧ 0 < search.wanted ∧
      wave.paths.length + search.wanted = maxPaths) ∨
    (search.status = .enough ∧ search.paths <:+ wave.paths ∧ search.paths.length = maxPaths)

variable {graph : HeapGraph} {limits : PathLimits} {depth : Nat} {now : Instant} {maxPaths : Nat}
  {search : Search} {wave : Wave}

/-- The search for all only ever adds to its paths. -/
theorem Wave.paths_suffix_foldl (maxDepth : Nat) (steps : List (Trail × InEdge)) (wave : Wave) :
    wave.paths <:+ (steps.foldl (Wave.follow graph maxDepth depth) wave).paths := by
  rw [Wave.paths_foldl]
  exact List.suffix_append _ _

/-- Level after level it only adds to them. -/
theorem Wave.paths_suffix_advance (maxDepth levels : Nat) :
    ∀ (depth : Nat) (trails : List Trail) (wave : Wave),
      wave.paths <:+ (wave.advance graph maxDepth levels depth trails).paths := by
  -- The induction is on the levels, each of which adds to the paths of those before.
  induction levels with
  | zero => exact fun depth trails wave => List.suffix_refl _
  | succ levels ih =>
    intro depth trails wave
    rw [Wave.advance]
    split
    · exact List.suffix_refl _
    · have level : wave.paths <:+ (wave.pass graph maxDepth depth trails).paths :=
        Wave.paths_suffix_foldl maxDepth _ { wave with next := [] }
      exact level.trans (ih _ _ _)

section Following

variable {trail : Trail} {arrival : InEdge}

/-- A search that has ended follows no more references. -/
theorem follow_of_ended (ended : search.status ≠ .searching) :
    follow graph limits depth trail search arrival = search := if_pos ended

/-- Back to a root a path is found, with which there may be enough. -/
theorem follow_of_root (searching : search.status = .searching)
    (isRoot : graph.isRoot arrival.source = true) :
    follow graph limits depth trail search arrival =
      { search with
        paths := (trail.extend arrival).toPath :: search.paths
        wanted := search.wanted - 1
        status := if search.wanted ≤ 1 then .enough else .searching } := by
  simp [follow, searching, isRoot]

/-- Any other object is marked, and kept if it is new and near enough. -/
theorem follow_of_inner (searching : search.status = .searching)
    (inner : graph.isRoot arrival.source = false) :
    follow graph limits depth trail search arrival =
      { search with
        visited := (search.visited.insert arrival.source).2
        next := if search.visited.test arrival.source = false ∧ depth + 1 < limits.maxDepth then
          trail.extend arrival :: search.next else search.next } := by
  simp [follow, searching, inner, VersionedBitSet.insert_fst]

end Following

/-- A search that has ended goes through no more levels. -/
theorem advance_of_ended {search : Search} (ended : search.status ≠ .searching) {levels : Nat}
    {deadline : Deadline} {trails : List Trail} :
    advance graph limits deadline now levels depth trails search = search := by
  cases levels with
  | zero => rfl
  | succ levels => simp [advance, ended]

namespace Keeps

/-- As long as paths are asked for, both searches hold the same. -/
theorem of_searching (keeps : Keeps maxPaths search wave)
    (searching : search.status = .searching) :
    (∀ node, search.visited.test node = true ↔ node ∈ wave.visited) ∧
      search.next = wave.next ∧ search.paths = wave.paths ∧ 0 < search.wanted ∧
      wave.paths.length + search.wanted = maxPaths := by
  -- The other stage begins when enough paths are found.
  rcases keeps.stage with ⟨_, same⟩ | ⟨enough, _⟩
  · exact same
  · rw [searching] at enough
    cases enough

/-- Once enough paths are found, the search for all may go on as it likes. -/
theorem of_enough {after : Wave} (keeps : Keeps maxPaths search wave)
    (enough : search.status = .enough) (adds : wave.paths <:+ after.paths) :
    Keeps maxPaths search after := by
  refine ⟨keeps.usable, ?_⟩
  -- The paths found so far stay at the end of the list, whatever is put in front.
  rcases keeps.stage with ⟨searching, _⟩ | ⟨_, suffix, length⟩
  · rw [searching] at enough
    cases enough
  · exact .inr ⟨enough, suffix.trans adds, length⟩

/-- Back to a root both searches make a path, which may be the last one asked for. -/
theorem follow_root (keeps : Keeps maxPaths search wave) (searching : search.status = .searching)
    {trail : Trail} {arrival : InEdge} (isRoot : graph.isRoot arrival.source = true) :
    Keeps maxPaths (PathSearch.follow graph limits depth trail search arrival)
      (wave.follow graph limits.maxDepth depth (trail, arrival)) := by
  have spread : wave.follow graph limits.maxDepth depth (trail, arrival) =
      { wave with paths := (trail.extend arrival).toPath :: wave.paths } := by
    simp [Wave.follow, isRoot, pathOf]
  obtain ⟨visited, next, paths, wanted, count⟩ := keeps.of_searching searching
  rw [follow_of_root searching isRoot, spread]
  refine ⟨keeps.usable, ?_⟩
  -- With the last path asked for the search has enough, and otherwise it still goes on.
  by_cases last : search.wanted ≤ 1
  · refine .inr ⟨by simp [last], by simp [paths], ?_⟩
    simp only [List.length_cons, paths]
    omega
  · refine .inl ⟨by simp [last], visited, next, by rw [paths], ?_, ?_⟩
    · show 0 < search.wanted - 1
      omega
    · simp only [List.length_cons]
      omega

/-- Any other object is marked and kept by both searches or by none. -/
theorem follow_inner (keeps : Keeps maxPaths search wave) (searching : search.status = .searching)
    {trail : Trail} {arrival : InEdge} (inner : graph.isRoot arrival.source = false) :
    Keeps maxPaths (PathSearch.follow graph limits depth trail search arrival)
      (wave.follow graph limits.maxDepth depth (trail, arrival)) := by
  obtain ⟨visited, next, paths, wanted, count⟩ := keeps.of_searching searching
  -- What one search has visited is marked in the other, so both find it new or neither does.
  by_cases known : arrival.source ∈ wave.visited
  · have spread : wave.follow graph limits.maxDepth depth (trail, arrival) = wave := by
      simp [Wave.follow, inner, known]
    have marked := (visited arrival.source).mpr known
    rw [follow_of_inner searching inner, spread]
    refine ⟨keeps.usable.insert _, .inl ⟨searching, ?_, ?_, paths, wanted, count⟩⟩
    · simpa [VersionedBitSet.insert, marked] using visited
    · simpa [marked] using next
  · have spread : wave.follow graph limits.maxDepth depth (trail, arrival) =
        { wave with
          visited := arrival.source :: wave.visited
          next := if depth + 1 < limits.maxDepth then trail.extend arrival :: wave.next
            else wave.next } := by
      simp [Wave.follow, inner, known]
    have unmarked : search.visited.test arrival.source = false := by
      rw [← Bool.not_eq_true, visited]
      exact known
    rw [follow_of_inner searching inner, spread]
    refine ⟨keeps.usable.insert _, .inl ⟨searching, ?_, ?_, paths, wanted, count⟩⟩
    · intro node
      rw [keeps.usable.test_insert]
      simp [visited]
    · simp [unmarked, next]

/-- Both searches go back over a reference alike. -/
theorem follow (keeps : Keeps maxPaths search wave) (trail : Trail) (arrival : InEdge) :
    Keeps maxPaths (PathSearch.follow graph limits depth trail search arrival)
      (wave.follow graph limits.maxDepth depth (trail, arrival)) := by
  rcases keeps.stage with ⟨searching, _⟩ | ⟨enough, _⟩
  · cases isRoot : graph.isRoot arrival.source with
    | true => exact keeps.follow_root searching isRoot
    | false => exact keeps.follow_inner searching isRoot
  · -- A search that has enough stays as it is, while the search for all only adds paths.
    rw [follow_of_ended (by simp [enough])]
    exact keeps.of_enough enough (Wave.paths_suffix_foldl limits.maxDepth [(trail, arrival)] wave)

/-- Both searches go back over all references that arrive at the head of a trail alike. -/
theorem foldl_follow (trail : Trail) (arrivals : List InEdge) :
    ∀ {search : Search} {wave : Wave}, Keeps maxPaths search wave →
      Keeps maxPaths (arrivals.foldl (PathSearch.follow graph limits depth trail) search)
        ((arrivals.map fun arrival => (trail, arrival)).foldl
          (Wave.follow graph limits.maxDepth depth) wave) := by
  -- One reference after another, with both searches as they then are.
  induction arrivals with
  | nil => exact fun keeps => keeps
  | cons arrival rest ih => exact fun keeps => ih (keeps.follow trail arrival)

/-- Without a deadline a trail is expanded to the steps that the search for all takes from it. -/
theorem expand (keeps : Keeps maxPaths search wave) (trail : Trail) :
    Keeps maxPaths (PathSearch.expand graph limits .never now depth search trail)
      ((stepsFrom graph limits.maxDepth depth [trail]).foldl
        (Wave.follow graph limits.maxDepth depth) wave) := by
  have adds : wave.paths <:+ ((stepsFrom graph limits.maxDepth depth [trail]).foldl
      (Wave.follow graph limits.maxDepth depth) wave).paths := Wave.paths_suffix_foldl _ _ _
  by_cases searching : search.status = .searching
  · -- Counting the trail changes nothing that the two have in common.
    have counted : Keeps maxPaths { search with expanded := search.expanded + 1 } wave :=
      ⟨keeps.usable, keeps.stage⟩
    have step : PathSearch.expand graph limits .never now depth search trail =
        if limits.maxDepth ≤ depth then { search with expanded := search.expanded + 1 }
        else (graph.inEdges trail.head).foldl (PathSearch.follow graph limits depth trail)
          { search with expanded := search.expanded + 1 } := by
      simp [PathSearch.expand, searching, Deadline.never, Deadline.expired]
    rw [step]
    by_cases far : limits.maxDepth ≤ depth
    · rw [if_pos far, stepsFrom, if_neg (by omega)]
      exact counted
    · rw [if_neg far, stepsFrom, if_pos (by omega), List.flatMap_singleton]
      exact foldl_follow trail _ counted
  · have still : PathSearch.expand graph limits .never now depth search trail = search := by
      simp [PathSearch.expand, searching]
    rw [still]
    rcases keeps.stage with ⟨goesOn, _⟩ | ⟨enough, _⟩
    · exact absurd goesOn searching
    · exact keeps.of_enough enough adds

/-- Trail by trail, both searches go through a level alike. -/
theorem foldl_expand (trails : List Trail) :
    ∀ {search : Search} {wave : Wave}, Keeps maxPaths search wave →
      Keeps maxPaths (trails.foldl (PathSearch.expand graph limits .never now depth) search)
        ((stepsFrom graph limits.maxDepth depth trails).foldl
          (Wave.follow graph limits.maxDepth depth) wave) := by
  induction trails with
  | nil =>
    intro search wave keeps
    simpa [stepsFrom] using keeps
  | cons trail rest ih =>
    intro search wave keeps
    -- The steps of a level are those of its trails, one trail after another.
    have split : stepsFrom graph limits.maxDepth depth (trail :: rest) =
        stepsFrom graph limits.maxDepth depth [trail] ++
          stepsFrom graph limits.maxDepth depth rest := by
      unfold stepsFrom
      split <;> simp
    rw [split, List.foldl_append]
    exact ih (keeps.expand trail)

/-- Level by level, a search without a deadline keeps to the search for all. -/
theorem advance (levels : Nat) :
    ∀ {depth : Nat} {trails : List Trail} {search : Search} {wave : Wave},
      Keeps maxPaths search wave →
      Keeps maxPaths (PathSearch.advance graph limits .never now levels depth trails search)
        (wave.advance graph limits.maxDepth levels depth trails) := by
  induction levels with
  | zero => exact fun keeps => keeps
  | succ levels ih =>
    intro depth trails search wave keeps
    by_cases searching : search.status = .searching
    · rw [PathSearch.advance, Wave.advance]
      cases empty : trails.isEmpty with
      | true => simpa using keeps
      | false =>
        rw [if_neg (by simp [searching]), if_neg (by simp)]
        -- Both go through the level with no trails kept yet.
        have cleared : Keeps maxPaths { search with next := [] } { wave with next := [] } := by
          obtain ⟨visited, _, rest⟩ := keeps.of_searching searching
          exact ⟨keeps.usable, .inl ⟨searching, visited, rfl, rest⟩⟩
        have level : Keeps maxPaths
            (trails.foldl (PathSearch.expand graph limits .never now depth)
              { search with next := [] })
            (wave.pass graph limits.maxDepth depth trails) := foldl_expand trails cleared
        rcases level.stage with ⟨_, _, next, _⟩ | ⟨enough, _⟩
        · -- With the same trails kept, both go on to the next level.
          simp only [next]
          exact ih level
        · have ended := enough.trans_ne (by decide : Status.enough ≠ .searching)
          simp only [advance_of_ended ended]
          exact level.of_enough enough (Wave.paths_suffix_advance _ _ _ _ _)
    · rcases keeps.stage with ⟨goesOn, _⟩ | ⟨enough, _⟩
      · exact absurd goesOn searching
      · rw [advance_of_ended searching]
        exact keeps.of_enough enough (Wave.paths_suffix_advance _ _ _ _ _)

end Keeps

end HeapAtlas.PathSearch
