import HeapAtlas.Proofs.Residency.RecencyList
import HeapAtlas.Residency.Cache

/-!
Any number of calls of a cache, one after another, against the same calls of a recency list.

All that is said holds of every source of snapshots, and of whatever takes frames off them.
-/

namespace HeapAtlas

/-- A call of a cache of analyses. -/
inductive CacheCall where
  | getOrLoad (key : String)
  | get (key : String)
  | evict (key : String)
  | clear

/-- What a call of a cache answers. -/
inductive CacheAnswer where
  | loaded (answer : Except LoadError Handle)
  | found (handle : Option Handle)
  | dropped (present : Bool)
  | cleared

/-- A recency list of analyses with the source they come from. -/
structure RecentAnalyses (σ : Type) where
  source : σ
  options : AnalysisOptions
  list : RecencyList Handle
  /-- All analyses ever made, by handle. -/
  analyses : Array HeapAnalysis

/-- No analyses, with room for at least one. -/
def RecentAnalyses.ofSource {σ : Type} (source : σ) (options : CacheOptions) : RecentAnalyses σ :=
  ⟨source, options.analysis, .ofLimit options.maxResident, #[]⟩

namespace SnapshotCache

variable {σ : Type}

/-- A cache is in the state of a recency list, of which every handle has its analysis. -/
structure Follows (cache : SnapshotCache σ) (recent : RecentAnalyses σ) : Prop where
  source : cache.source = recent.source
  options : cache.options.analysis = recent.options
  analyses : cache.analyses = recent.analyses
  mirrors : cache.house.Mirrors recent.list
  /-- A handle was given by every load that gave one. -/
  made : recent.analyses.size = recent.list.stored
  handles : ∀ pair ∈ recent.list.entries, pair.2 < recent.analyses.size

/-- A new cache follows the empty list. -/
theorem follows_ofSource (source : σ) (options : CacheOptions) :
    (ofSource source options).Follows (.ofSource source options) where
  source := rfl
  options := rfl
  analyses := rfl
  mirrors := House.mirrors_ofCapacity options.maxResident
  made := rfl
  handles := by
    intro pair listed
    cases listed

variable [SnapshotSource σ] (unframe : Zstd.Unframer)

/-- Answers one call. -/
def answer (cache : SnapshotCache σ) : CacheCall → CacheAnswer × SnapshotCache σ
  | .getOrLoad key =>
    let (answer, cache) := cache.getOrLoad unframe key
    (.loaded answer, cache)
  | .get key =>
    let (handle, cache) := cache.get key
    (.found handle, cache)
  | .evict key =>
    let (present, cache) := cache.evict key
    (.dropped present, cache)
  | .clear => (.cleared, cache.clear)

/-- Answers calls one after another. -/
def run : List CacheCall → SnapshotCache σ → List CacheAnswer × SnapshotCache σ
  | [], cache => ([], cache)
  | call :: calls, cache =>
    let (answer, cache) := cache.answer unframe call
    let (answers, cache) := run calls cache
    (answer :: answers, cache)

end SnapshotCache

namespace RecentAnalyses

variable {σ : Type} [SnapshotSource σ] (unframe : Zstd.Unframer)

/-- Answers one call from the list. -/
def answer (recent : RecentAnalyses σ) : CacheCall → CacheAnswer × RecentAnalyses σ
  | .getOrLoad key =>
    let (answer, list, source, analyses) := recent.list.getOrLoad key
      (SnapshotCache.load unframe recent.options key) (recent.source, recent.analyses)
    (.loaded answer, { recent with list := list, source := source, analyses := analyses })
  | .get key =>
    let (handle, list) := recent.list.get key
    (.found handle, { recent with list := list })
  | .evict key =>
    let (present, list) := recent.list.evict key
    (.dropped present, { recent with list := list })
  | .clear => (.cleared, { recent with list := recent.list.clear })

/-- Answers calls one after another. -/
def run : List CacheCall → RecentAnalyses σ → List CacheAnswer × RecentAnalyses σ
  | [], recent => ([], recent)
  | call :: calls, recent =>
    let (answer, recent) := recent.answer unframe call
    let (answers, recent) := run calls recent
    (answer :: answers, recent)

/-- No call changes for how many pairs there is room. -/
theorem limit_answer (recent : RecentAnalyses σ) (call : CacheCall) :
    (recent.answer unframe call).2.list.limit = recent.list.limit := by
  cases call with
  | getOrLoad key =>
    rw [answer]
    -- Neither a hit nor a load, whether it succeeds or fails, changes the limit.
    rcases recent.list.getOrLoad_cases key (SnapshotCache.load unframe recent.options key)
      (recent.source, recent.analyses) with ⟨value, hit⟩ | miss
    · rw [hit]
      exact recent.list.limit_get key
    · rw [miss]
      rcases SnapshotCache.load unframe recent.options key (recent.source, recent.analyses) with
        ⟨fault | handle, after⟩
      · rfl
      · rfl
  | get key => exact recent.list.limit_get key
  | evict key => exact recent.list.limit_evict key
  | clear => rfl

/-- Whatever is called, the limit stays as it is. -/
theorem limit_run (recent : RecentAnalyses σ) (calls : List CacheCall) :
    (recent.run unframe calls).2.list.limit = recent.list.limit := by
  induction calls generalizing recent with
  | nil => rfl
  | cons call calls ih => exact (ih _).trans (recent.limit_answer unframe call)

end RecentAnalyses

namespace SnapshotCache

variable {σ : Type} [SnapshotSource σ] (unframe : Zstd.Unframer)

/-- A load makes one analysis, whose handle is new, or none. -/
theorem load_cases (options : AnalysisOptions) (key : String) (source : σ)
    (analyses : Array HeapAnalysis) :
    (∃ after analysis,
      load unframe options key (source, analyses)
        = (.ok analyses.size, after, analyses.push analysis)) ∨
    (∃ fault after,
      load unframe options key (source, analyses) = (.error fault, after, analyses)) := by
  rw [load]
  rcases SnapshotSource.fetch source key with ⟨fetched, after⟩
  -- Whether the fetch or the analysis fails, nothing is added.
  cases made : fetched.bind fun stored => stored.analyse unframe key options with
  | ok analysis => exact .inl ⟨after, analysis, by simp only [made]⟩
  | error fault => exact .inr ⟨fault, after, by simp only [made]⟩

variable {cache : SnapshotCache σ} {recent : RecentAnalyses σ}

/-- After a call that may load, every handle has been given with a load. -/
theorem made_getOrLoad (recent : RecentAnalyses σ) (key : String)
    (made : recent.analyses.size = recent.list.stored)
    (handles : ∀ pair ∈ recent.list.entries, pair.2 < recent.analyses.size) :
    (recent.answer unframe (.getOrLoad key)).2.analyses.size =
        (recent.answer unframe (.getOrLoad key)).2.list.stored ∧
      ∀ pair ∈ (recent.answer unframe (.getOrLoad key)).2.list.entries,
        pair.2 < (recent.answer unframe (.getOrLoad key)).2.analyses.size := by
  rw [RecentAnalyses.answer]
  rcases recent.list.getOrLoad_cases key (load unframe recent.options key)
    (recent.source, recent.analyses) with ⟨value, hit⟩ | miss
  · -- A value that was there only moves to the front.
    rw [hit]
    refine ⟨made.trans (RecencyList.stored_get _ _).symm, fun pair listed => ?_⟩
    exact handles pair (RecencyList.mem_of_mem_get listed)
  · rcases load_cases unframe recent.options key recent.source recent.analyses with
      ⟨after, analysis, loaded⟩ | ⟨fault, after, failed⟩
    · -- The new handle is the number of analyses before, so that it is below their number after.
      rw [miss, loaded]
      have grown : (recent.analyses.push analysis).size = recent.analyses.size + 1 :=
        Array.size_push _
      refine ⟨grown.trans (congrArg (· + 1) made), fun pair listed => ?_⟩
      show pair.2 < (recent.analyses.push analysis).size
      rw [grown]
      rcases List.mem_cons.mp listed with rfl | other
      · exact Nat.lt_succ_self _
      · exact Nat.lt_succ_of_lt (handles pair (List.mem_of_mem_take other))
    · rw [miss, failed]
      exact ⟨made, handles⟩

/-- Moving a pair to the front makes no analysis. -/
theorem Follows.get (follows : cache.Follows recent) (key : String) :
    (cache.answer unframe (.get key)).1 = (recent.answer unframe (.get key)).1 ∧
      (cache.answer unframe (.get key)).2.Follows (recent.answer unframe (.get key)).2 := by
  obtain ⟨same, mirrors⟩ := follows.mirrors.get key
  refine ⟨congrArg CacheAnswer.found same, follows.source, follows.options, follows.analyses,
    mirrors, ?_, ?_⟩
  · show recent.analyses.size = (recent.list.get key).2.stored
    rw [RecencyList.stored_get]
    exact follows.made
  · -- Its pairs were there before, and so were the analyses that they stand for.
    intro pair listed
    exact follows.handles pair (RecencyList.mem_of_mem_get listed)

/-- Dropping a pair makes no analysis. -/
theorem Follows.evict (follows : cache.Follows recent) (key : String) :
    (cache.answer unframe (.evict key)).1 = (recent.answer unframe (.evict key)).1 ∧
      (cache.answer unframe (.evict key)).2.Follows (recent.answer unframe (.evict key)).2 := by
  obtain ⟨same, mirrors⟩ := follows.mirrors.evict key
  refine ⟨congrArg CacheAnswer.dropped same, follows.source, follows.options, follows.analyses,
    mirrors, ?_, ?_⟩
  · show recent.analyses.size = (recent.list.evict key).2.stored
    rw [RecencyList.stored_evict]
    exact follows.made
  · intro pair listed
    exact follows.handles pair (RecencyList.mem_of_mem_evict listed)

/-- A load that gives an analysis gives it a new handle, which is put in front. -/
theorem Follows.getOrLoad (follows : cache.Follows recent) (key : String) :
    (cache.answer unframe (.getOrLoad key)).1 = (recent.answer unframe (.getOrLoad key)).1 ∧
      (cache.answer unframe (.getOrLoad key)).2.Follows
        (recent.answer unframe (.getOrLoad key)).2 := by
  obtain ⟨same, mirrors, rest⟩ := follows.mirrors.getOrLoad 0 key (load unframe recent.options key)
    (recent.source, recent.analyses)
  -- Source and analyses are what the load works on, so that they change alike.
  have loaded : cache.getOrLoad unframe key =
      let result := cache.house.getOrLoad 0 key (load unframe recent.options key)
        (recent.source, recent.analyses)
      (result.1, { cache with
        house := result.2.1, source := result.2.2.1, analyses := result.2.2.2 }) := by
    rw [SnapshotCache.getOrLoad, follows.options, follows.source, follows.analyses]
  have whole : (cache.answer unframe (.getOrLoad key)).2 = (cache.getOrLoad unframe key).2 := rfl
  refine ⟨?_, ?_⟩
  · show CacheAnswer.loaded (cache.getOrLoad unframe key).1 = _
    rw [loaded]
    exact congrArg CacheAnswer.loaded same
  rw [whole, loaded]
  obtain ⟨made, handles⟩ := made_getOrLoad unframe recent key follows.made follows.handles
  exact ⟨congrArg (·.1) rest, follows.options, congrArg (·.2) rest, mirrors, made, handles⟩

/-- Every call gets the answer of the recency list and leaves the cache in its state. -/
theorem Follows.answer (follows : cache.Follows recent) (call : CacheCall) :
    (cache.answer unframe call).1 = (recent.answer unframe call).1 ∧
      (cache.answer unframe call).2.Follows (recent.answer unframe call).2 := by
  cases call with
  | getOrLoad key => exact follows.getOrLoad unframe key
  | get key => exact follows.get unframe key
  | evict key => exact follows.evict unframe key
  | clear =>
    -- Nothing is kept after clearing, so there is nothing that had to be made.
    refine ⟨rfl, follows.source, follows.options, follows.analyses, follows.mirrors.clear,
      follows.made, ?_⟩
    intro pair listed
    cases listed

/-- So do any number of calls. -/
theorem Follows.run (follows : cache.Follows recent) (calls : List CacheCall) :
    (cache.run unframe calls).1 = (recent.run unframe calls).1 ∧
      (cache.run unframe calls).2.Follows (recent.run unframe calls).2 := by
  induction calls generalizing cache recent with
  | nil => exact ⟨rfl, follows⟩
  | cons call calls ih =>
    obtain ⟨same, after⟩ := follows.answer unframe call
    -- The later calls start from what the first one left on both sides.
    obtain ⟨others, last⟩ := ih after
    exact ⟨congrArg₂ List.cons same others, last⟩

/--
A cache answers any calls, one after another, like a list of pairs with the one asked for last in
front, and has loaded, found and evicted as often.

No key is resident twice, no gate stays behind, and of the analyses that were ever made each is
resident or was evicted.
-/
theorem run_eq_recencyList (source : σ) (options : CacheOptions) (calls : List CacheCall) :
    let (answers, cache) := (ofSource source options).run unframe calls
    let (expected, recent) := (RecentAnalyses.ofSource source options).run unframe calls
    answers = expected ∧ cache.Follows recent ∧
      recent.list.limit = max 1 options.maxResident ∧
      recent.list.entries.length ≤ max 1 options.maxResident ∧
      (cache.house.shelf.residents.map (·.key)).Nodup ∧ cache.house.gates = [] ∧
      cache.analyses.size = cache.house.shelf.size + cache.house.shelf.evictions := by
  obtain ⟨same, follows⟩ := (follows_ofSource source options).run unframe calls
  have limit : ((RecentAnalyses.ofSource source options).run unframe calls).2.list.limit =
      max 1 options.maxResident := RecentAnalyses.limit_run unframe _ calls
  have mirrors := follows.mirrors
  refine ⟨same, follows, limit, limit ▸ mirrors.room, mirrors.lists.keys_residents,
    mirrors.gates, ?_⟩
  -- What was stored is on the list or was counted when it left.
  show ((ofSource source options).run unframe calls).2.analyses.size = _
  rw [follows.analyses, follows.made, mirrors.balance, mirrors.lists.length_eq, mirrors.evictions]

end SnapshotCache

end HeapAtlas
