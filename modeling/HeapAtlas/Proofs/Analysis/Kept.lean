import HeapAtlas.Analysis
import HeapAtlas.Proofs.Categorize.Memo
import HeapAtlas.Proofs.Paths.Reuse
import HeapAtlas.Proofs.Ranking.Timed

/-! What questions leave behind in an analysis, and that no later answer is spoiled by it. -/

namespace HeapAtlas.HeapAnalysis

/-- An analysis that was asked nothing yet. -/
structure Fresh (analysis : HeapAnalysis) : Prop where
  index_eq : analysis.index = none
  pool_eq : analysis.pool = []

/-- A heap that was taken in for analysis was asked nothing yet. -/
theorem fresh_ofGraph {graph : HeapGraph} {options : AnalysisOptions} {analysis : HeapAnalysis}
    (made : ofGraph graph options = .ok analysis) : analysis.Fresh := by
  obtain ⟨_, _, opened⟩ := bind_eq_ok_iff.mp made
  cases opened
  exact ⟨rfl, rfl⟩

/-- Declared field types are attached before anything is asked. -/
theorem Fresh.withLayout {analysis : HeapAnalysis} (fresh : analysis.Fresh) (layout : ClassLayout) :
    (analysis.withLayout layout).Fresh := ⟨fresh.index_eq, fresh.pool_eq⟩

variable (start : HeapAnalysis)

/-- The index of the largest objects that is built without a deadline. -/
def wholeIndex : RankingIndex := .whole start.graph start.sizes start.options.indexOptions

/-- The same analysis later on: with or without the whole index, and with some visited sets. -/
def later (built : Bool) (pool : List VersionedBitSet) : HeapAnalysis :=
  { start with index := if built then some start.wholeIndex else none, pool := pool }

/-- A ranking that is asked for in time: before its deadline, or when there is nothing to rank. -/
def inTime (deadline : Deadline) (now : Instant) : Bool :=
  start.graph.objectCount = 0 || !deadline.expired now

variable {start}

/-- Before anything was asked there is no index and no visited set. -/
theorem Fresh.eq_later (fresh : start.Fresh) : start = start.later false [] := by
  obtain ⟨graph, sizes, layout, options, index, pool⟩ := start
  obtain ⟨rfl, rfl⟩ := fresh
  rfl

variable (built : Bool) (pool : List VersionedBitSet)

/-- The steps of a path are told of the heap and its sizes alone. -/
theorem pathSteps_later (nodes : List Slot) (edges : List Nat) :
    (start.later built pool).pathSteps nodes edges = start.pathSteps nodes edges := by
  induction nodes generalizing edges with
  | nil => rfl
  | cons slot rest ih =>
    rw [pathSteps, pathSteps, ih]
    rfl

/-- What was asked before changes nothing about how a path is shown. -/
theorem showPath_later : (start.later built pool).showPath = start.showPath := by
  funext path
  rw [showPath, showPath, pathSteps_later]
  rfl

/-- A visited set is usable when it is taken, whether from the pool or new, as are those left. -/
theorem usable_takeVisited (start : HeapAnalysis) {pool : List VersionedBitSet}
    (usable : ∀ visited ∈ pool, visited.Usable) :
    ((start.later built pool).takeVisited).1.Usable ∧
      ∀ visited ∈ ((start.later built pool).takeVisited).2, visited.Usable := by
  -- With an empty pool a new set is made.
  cases pool with
  | nil => exact ⟨VersionedBitSet.usable_ofCount _, usable⟩
  | cons visited rest => exact List.forall_mem_cons.mp usable

/-- A search for paths answers as at first, and puts its visited set back in a usable state. -/
theorem pathsToRoot_later (fresh : start.Fresh) (usable : ∀ visited ∈ pool, visited.Usable)
    (text : String) (maxPaths maxDepth : Int) (deadline : Deadline) (now : Instant) :
    ((start.later built pool).pathsToRoot text maxPaths maxDepth deadline now).1
        = (start.pathsToRoot text maxPaths maxDepth deadline now).1 ∧
      ∃ left, (∀ visited ∈ left, visited.Usable) ∧
        ((start.later built pool).pathsToRoot text maxPaths maxDepth deadline now).2
          = start.later built left := by
  have resolved : (start.later built pool).resolve text = start.resolve text := rfl
  unfold pathsToRoot
  rw [resolved]
  cases start.resolve text with
  | error fault => exact ⟨rfl, pool, usable, rfl⟩
  | ok slot =>
    -- The visited set taken is as good as the new one that is taken at first.
    have taken := usable_takeVisited built start usable
    have first : start.takeVisited = (.ofCount start.graph.objectCount, []) := by
      rw [takeVisited, fresh.pool_eq]
    obtain ⟨same, left⟩ := pathsToRoot_alike start.graph slot
      ⟨boundOr start.options.defaults.maxPaths maxPaths,
        boundOr start.options.defaults.maxDepth maxDepth⟩ deadline now taken.1
      (VersionedBitSet.usable_ofCount start.graph.objectCount)
    dsimp only
    rw [first, showPath_later]
    exact ⟨congrArg (fun found : Outcome (List RootPath) =>
      Except.ok (found.map fun paths => paths.map start.showPath)) same,
      _, List.forall_mem_cons.mpr ⟨left, taken.2⟩, rfl⟩

/-- In time the whole index is built. -/
theorem build_of_inTime {deadline : Deadline} {now : Instant}
    (timely : start.inTime deadline now = true) :
    RankingIndex.build start.graph start.sizes start.options.indexOptions deadline now
      = ⟨start.wholeIndex, true⟩ := by
  -- To be in time is to be complete, and all complete indices are the same.
  have complete : (RankingIndex.build start.graph start.sizes start.options.indexOptions deadline
      now).complete = true := by
    rw [RankingIndex.build_complete_iff]
    simpa [inTime] using timely
  exact RankingIndex.build_of_complete _ _ complete

/-- Too late nothing is built. -/
theorem build_of_not_inTime {deadline : Deadline} {now : Instant}
    (late : start.inTime deadline now = false) :
    RankingIndex.build start.graph start.sizes start.options.indexOptions deadline now
      = ⟨.bare start.graph start.options.indexOptions, false⟩ := by
  simp only [inTime, Bool.or_eq_false_iff, decide_eq_false_iff_not, Bool.not_eq_false'] at late
  rw [RankingIndex.build_late _ _ _ late.2, decide_eq_false late.1]

/-- A ranking goes by the whole index, kept or built in time, or by one without instances. -/
theorem rankingIndex_later (deadline : Deadline) (now : Instant) :
    (start.later built pool).rankingIndex deadline now =
      if built || start.inTime deadline now then
        (⟨start.wholeIndex, true⟩, start.later true pool)
      else (⟨.bare start.graph start.options.indexOptions, false⟩, start.later false pool) := by
  cases built with
  | true => rfl
  | false =>
    -- Nothing is kept, so an index is built now, and kept if it is the whole one.
    have step : (start.later false pool).rankingIndex deadline now =
        let outcome := RankingIndex.build start.graph start.sizes start.options.indexOptions
          deadline now
        (outcome, if outcome.complete then
          { start.later false pool with index := some outcome.value }
        else start.later false pool) := rfl
    rw [step, Bool.false_or]
    cases timely : start.inTime deadline now with
    | true =>
      rw [build_of_inTime timely]
      rfl
    | false =>
      rw [build_of_not_inTime timely]
      rfl

/-- At first, and without a deadline, a ranking goes by the whole index. -/
theorem Fresh.rankingIndex_never (fresh : start.Fresh) :
    start.rankingIndex .never 0 = (⟨start.wholeIndex, true⟩, start.later true []) := by
  have timely : start.inTime .never 0 = true := Bool.or_true _
  have whole := @rankingIndex_later start false [] .never 0
  rwa [← fresh.eq_later, timely, Bool.or_true, if_pos rfl] at whole

variable {deadline : Deadline} {now : Instant}

section Instances

variable (name : String) (topN : Int) (key : SortKey)

/-- In time the largest instances are those told at first, and the whole index is kept. -/
theorem biggestByClass_of_inTime (fresh : start.Fresh)
    (timely : (built || start.inTime deadline now) = true) :
    (start.later built pool).biggestByClass name topN key deadline now =
      ((start.biggestByClass name topN key .never 0).1, start.later true pool) := by
  unfold biggestByClass
  -- Both go by the whole index, which knows the classes of the name or not.
  rw [rankingIndex_later, if_pos timely, fresh.rankingIndex_never]
  dsimp only [later]
  generalize start.wholeIndex.byClass start.graph name _ key = found
  cases found with
  | none => rfl
  | some slots => rfl

/-- Without a deadline the answer is complete. -/
theorem complete_of_biggestByClass (fresh : start.Fresh) {outcome : Outcome (List ObjectDescriptor)}
    (answer : (start.biggestByClass name topN key .never 0).1 = .ok outcome) :
    outcome.complete = true := by
  unfold biggestByClass at answer
  rw [fresh.rankingIndex_never] at answer
  dsimp only at answer
  -- A class that is not known gives no outcome at all.
  split at answer
  · cases answer
  · cases answer
    rfl

/-- Too late the answer is incomplete, and nothing is kept. -/
theorem biggestByClass_of_late (late : (built || start.inTime deadline now) = false) :
    ((start.later built pool).biggestByClass name topN key deadline now).2
        = start.later false pool ∧
      ∀ outcome,
        ((start.later built pool).biggestByClass name topN key deadline now).1 = .ok outcome →
          outcome.complete = false := by
  unfold biggestByClass
  rw [rankingIndex_later, if_neg (by simp [late])]
  dsimp only
  -- A class without instances has no answer, and any other answer is cut short.
  split
  · exact ⟨rfl, fun outcome answer => by cases answer⟩
  · refine ⟨rfl, fun outcome answer => ?_⟩
    cases answer
    rfl

end Instances

section Classes

variable {κ : Type} [RuledCategorizer κ] (categorizer : κ) (topN : Int) (key : SortKey)
  (filter : CategoryFilter)

/-- In time the classes are ranked as at first under the rules in force. -/
theorem biggestClasses_of_inTime (fresh : start.Fresh) (sound : RuledCategorizer.Sound categorizer)
    (timely : (built || start.inTime deadline now) = true) :
    let answered := (start.later built pool).biggestClasses categorizer topN key filter deadline now
    answered.1 =
        (start.biggestClasses (RuledCategorizer.anew categorizer) topN key filter .never 0).1 ∧
      answered.1.complete = true ∧ answered.2.1 = start.later true pool ∧
      RuledCategorizer.Sound answered.2.2 := by
  unfold biggestClasses
  rw [rankingIndex_later, if_pos timely, fresh.rankingIndex_never]
  -- The index is the whole one, and what the categorizer remembers does not show in the answer.
  obtain ⟨rankings, sound, _⟩ := RankingIndex.topClasses_of_sound start.wholeIndex start.graph
    sound (boundOr start.options.defaults.topN topN) key filter
  dsimp only [later]
  exact ⟨by rw [rankings], rfl, rfl, sound⟩

/-- Too late no class is ranked, and nothing is kept or remembered. -/
theorem biggestClasses_of_late (late : (built || start.inTime deadline now) = false) :
    (start.later built pool).biggestClasses categorizer topN key filter deadline now =
      (⟨[], false⟩, start.later false pool, categorizer) := by
  unfold biggestClasses
  rw [rankingIndex_later, if_neg (by simp [late])]
  -- Without instances there are no totals, and so no class to ask the categorizer for.
  dsimp only [later]
  rw [(RankingIndex.covers_bare start.graph start.sizes start.options.indexOptions).topClasses_nil]

end Classes

end HeapAtlas.HeapAnalysis
