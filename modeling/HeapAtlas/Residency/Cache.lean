import HeapAtlas.Analysis
import HeapAtlas.Residency.Gates
import HeapAtlas.Residency.Source
import HeapAtlas.Snapshot.Decode
import HeapAtlas.Zstd.Packing

/-!
A bounded number of analysed snapshots, whose frames are taken off by an `unframe` that is given.

Analyses go by handles, so that whoever holds one shares what it has learned with the cache, also
after the cache has dropped it.
-/

namespace HeapAtlas

/-- How many analyses are kept, and how snapshots are analysed. -/
structure CacheOptions where
  maxResident : Nat
  analysis : AnalysisOptions
  deriving DecidableEq, Repr

namespace CacheOptions

/-- Two analyses. -/
def standard : CacheOptions := ⟨2, .standard⟩

instance : Inhabited CacheOptions := ⟨standard⟩

/-- The same options with room for at least one analysis. -/
def effective (options : CacheOptions) : CacheOptions :=
  { options with maxResident := max 1 options.maxResident }

end CacheOptions

/-- Analyses a heap with the declared field types beside it; an unreadable layout is ignored. -/
def HeapAnalysis.ofStored (graph : HeapGraph) (layout : Option Bytes)
    (options : AnalysisOptions) : Except QueryError HeapAnalysis := do
  let analysis ← HeapAnalysis.ofGraph graph options
  return match layout.bind fun bytes => (ClassLayout.parse bytes).toOption with
    | some layout => analysis.withLayout layout
    | none => analysis

/--
Analyses a stored snapshot.

The counts in its header are checked against the limit on bytes before any record is read.
-/
def StoredSnapshot.analyse (unframe : Zstd.Unframer) (stored : StoredSnapshot) (key : String)
    (options : AnalysisOptions) : Except LoadError HeapAnalysis :=
  match Zstd.plain? unframe stored.content with
  | none => .error .badFrame
  | some bytes => do
    -- The limit is checked first, so that a large snapshot is not decoded in vain.
    let counts ← (Snapshot.peek bytes).mapError (.decode key)
    (checkCeiling counts.requiredBytes options.maxGraphBytes).mapError (.analysis key)
    let graph ← (Snapshot.decode bytes).mapError (.decode key)
    (HeapAnalysis.ofStored graph stored.layout options).mapError (.analysis key)

/-- The place of an analysis among all that were ever made. -/
abbrev Handle := Nat

/-- Analyses of snapshots from a source. -/
structure SnapshotCache (σ : Type) where
  source : σ
  options : CacheOptions
  house : House LoadError Handle
  /-- All analyses ever made, by handle. -/
  analyses : Array HeapAnalysis

namespace SnapshotCache

variable {σ : Type} [SnapshotSource σ]

/-- A cache without analyses. -/
def ofSource (source : σ) (options : CacheOptions) : SnapshotCache σ :=
  ⟨source, options.effective, .ofCapacity options.maxResident, #[]⟩

/-- Fetches and analyses the snapshot of a key and gives the analysis a new handle. -/
def load (unframe : Zstd.Unframer) (options : AnalysisOptions) (key : String)
    (state : σ × Array HeapAnalysis) : Except LoadError Handle × σ × Array HeapAnalysis :=
  let (source, analyses) := state
  let (fetched, source) := SnapshotSource.fetch source key
  match fetched.bind fun stored => stored.analyse unframe key options with
  -- Handles are never given twice, as no analysis is taken out of the array.
  | .ok analysis => (.ok analyses.size, source, analyses.push analysis)
  | .error fault => (.error fault, source, analyses)

/-- The analysis of a key, loaded unless it is there. -/
def getOrLoad (unframe : Zstd.Unframer) (cache : SnapshotCache σ) (key : String) :
    Except LoadError Handle × SnapshotCache σ :=
  let (answer, house, source, analyses) := cache.house.getOrLoad 0 key
    (load unframe cache.options.analysis key) (cache.source, cache.analyses)
  (answer, { cache with house := house, source := source, analyses := analyses })

/-- The answers to so many callers who all ask for a key at once. -/
def getTogether (unframe : Zstd.Unframer) (cache : SnapshotCache σ) (callers : Nat)
    (key : String) : List (Except LoadError Handle) × SnapshotCache σ :=
  let (answers, house, source, analyses) := cache.house.getTogether callers key
    (load unframe cache.options.analysis key) (cache.source, cache.analyses)
  (answers, { cache with house := house, source := source, analyses := analyses })

/-- Whether any two answers in a row give the same analysis, as a single one does even in vain. -/
def shared : List (Except LoadError Handle) → Bool
  | .ok one :: .ok other :: rest => one = other && shared (.ok other :: rest)
  | _ :: _ :: _ => false
  | _ => true

/-- The analysis of a key if it is there. -/
def get (cache : SnapshotCache σ) (key : String) : Option Handle × SnapshotCache σ :=
  let (answer, house) := cache.house.get key
  (answer, { cache with house := house })

/-- Drops the analysis of a key and says whether there was one. -/
def evict (cache : SnapshotCache σ) (key : String) : Bool × SnapshotCache σ :=
  let (found, house) := cache.house.evict key
  (found, { cache with house := house })

/-- Drops all analyses. -/
def clear (cache : SnapshotCache σ) : SnapshotCache σ :=
  { cache with house := cache.house.clear }

/-- The analysis of a handle. -/
def analysis? (cache : SnapshotCache σ) (handle : Handle) : Option HeapAnalysis :=
  cache.analyses[handle]?

/-- Puts back what an analysis has become by a question. -/
def setAnalysis (cache : SnapshotCache σ) (handle : Handle) (analysis : HeapAnalysis) :
    SnapshotCache σ :=
  { cache with analyses := cache.analyses.setIfInBounds handle analysis }

end SnapshotCache

end HeapAtlas
