import HeapAtlas.Inspect
import HeapAtlas.QueryError
import HeapAtlas.Ranking

/-! Questions about one heap, with what is kept from one question to the next. -/

namespace HeapAtlas

/-- The bounds in force where a question gives none. -/
structure QueryDefaults where
  maxPaths : Nat
  maxDepth : Nat
  maxRetainers : Nat
  topN : Nat
  deriving DecidableEq, Repr

namespace QueryDefaults

/-- Five paths of twenty hops, fifty retainers, rankings of twenty. -/
def standard : QueryDefaults := ⟨5, 20, 50, 20⟩

instance : Inhabited QueryDefaults := ⟨standard⟩

end QueryDefaults

/-- How a heap is analysed; without a number of workers there are as many as the machine offers. -/
structure AnalysisOptions where
  workers : Option Nat
  chunkSize : Nat
  topKPerClass : Nat
  maxGraphBytes : Nat
  defaults : QueryDefaults
  deriving DecidableEq, Repr

namespace AnalysisOptions

/-- Chunks of 65536 objects, the hundred largest instances of a class, and no limit on bytes. -/
def standard : AnalysisOptions := ⟨none, 65536, 100, 0, .standard⟩

instance : Inhabited AnalysisOptions := ⟨standard⟩

/-- The number of workers; no answer depends on it. -/
def crewSize (options : AnalysisOptions) : Nat := options.workers.getD 1

/-- How the index of the largest objects is built. -/
def indexOptions (options : AnalysisOptions) : IndexOptions :=
  ⟨options.topKPerClass, options.chunkSize, options.crewSize⟩

end AnalysisOptions

/-- One object on a path, with the label of the reference that holds it. -/
structure PathStep where
  object : ObjectId
  className : String
  shallowSize : Nat
  retainedSize : Nat
  referencedBy : Option String
  deriving DecidableEq, Repr

/-- A path to a root, and the kinds of root that its end is. -/
structure RetentionPath where
  steps : List PathStep
  rootKinds : List RootKind
  deriving DecidableEq, Repr

/-- An object that refers to another, and how. -/
structure Retainer where
  object : ObjectId
  className : String
  shallowSize : Nat
  retainedSize : Nat
  field : String
  deriving DecidableEq, Repr

/-- The first retainers of an object, and the number of all. -/
structure RetainerList where
  retainers : List Retainer
  total : Nat
  deriving DecidableEq, Repr

namespace Outcome

/-- Changes the value and not its completeness. -/
def map {α β : Type} (f : α → β) (outcome : Outcome α) : Outcome β :=
  ⟨f outcome.value, outcome.complete⟩

/-- The value of a complete outcome; an incomplete one is a timeout of the question. -/
def strict {α : Type} (outcome : Outcome α) (query : TimedQuery) : Except QueryError α :=
  if outcome.complete then .ok outcome.value else .error (.timedOut query)

end Outcome

/-- A heap with its retained sizes, and what earlier questions left behind for later ones. -/
structure HeapAnalysis where
  graph : HeapGraph
  sizes : RetainedSizes
  layout : Option ClassLayout
  options : AnalysisOptions
  /-- The index of the largest objects, once it was built to the end. -/
  index : Option RankingIndex
  /-- Visited sets of earlier path searches. -/
  pool : List VersionedBitSet

namespace HeapAnalysis

/-- The bound that a question gives if it is positive, and otherwise the one by default. -/
def boundOr (default : Nat) (given : Int) : Nat := if given ≤ 0 then default else given.toNat

/-- Analyses a heap, unless it is expected to take too much memory. -/
def ofGraph (graph : HeapGraph) (options : AnalysisOptions) : Except QueryError HeapAnalysis := do
  -- What the analysis itself takes counts as well.
  checkCeiling
    (Capped.add graph.estimatedBytes (Counts.analysisBytes graph.objectCount))
    options.maxGraphBytes
  return {
    graph := graph
    sizes := .compute graph (.ofWorkers options.crewSize)
    layout := none
    options := options
    index := none
    pool := [] }

/-- The same analysis with declared field types. -/
def withLayout (analysis : HeapAnalysis) (layout : ClassLayout) : HeapAnalysis :=
  { analysis with layout := some layout }

/-- The slot of the object that a text names. -/
def resolve (analysis : HeapAnalysis) (text : String) : Except QueryError Slot :=
  -- A text that is no identifier is told from one that names nothing.
  match ObjectId.parse text with
  | .error fault => .error (.invalidId fault)
  | .ok id =>
    match analysis.graph.slotOf? id with
    | some slot => .ok slot
    | none => .error (.objectNotFound id)

/-- Describes an object. -/
def describe (analysis : HeapAnalysis) (slot : Slot) : ObjectDescriptor :=
  Inspect.describe analysis.graph analysis.sizes slot

/-- What an object is. -/
def objectInfo (analysis : HeapAnalysis) (text : String) : Except QueryError ObjectDescriptor :=
  (analysis.resolve text).map analysis.describe

/-- The fields of an object. -/
def objectFields (analysis : HeapAnalysis) (text : String) :
    Except QueryError (List FieldDescriptor) :=
  (analysis.resolve text).map (Inspect.fields analysis.graph analysis.sizes analysis.layout)

/-- The retainer at the other end of an arriving reference. -/
def retainerOf (analysis : HeapAnalysis) (arrival : InEdge) : Retainer :=
  let graph := analysis.graph
  { object := graph.objectId arrival.source
    className := graph.className (graph.classOf arrival.source)
    shallowSize := graph.shallowSize arrival.source
    retainedSize := analysis.sizes.retainedSize arrival.source
    field := (graph.label arrival.edge).render }

/-- The objects that refer to an object. -/
def retainers (analysis : HeapAnalysis) (text : String) (maxCount : Int) :
    Except QueryError RetainerList := do
  let slot ← analysis.resolve text
  let (arrivals, total) := directRetainers analysis.graph slot
    (boundOr analysis.options.defaults.maxRetainers maxCount)
  return ⟨arrivals.map analysis.retainerOf, total⟩

/-- The steps of a path; every object but the root is held by the next one. -/
def pathSteps (analysis : HeapAnalysis) : List Slot → List Nat → List PathStep
  | [], _ => []
  | slot :: slots, edges =>
    let graph := analysis.graph
    -- The last object has no reference behind it.
    { object := graph.objectId slot
      className := graph.className (graph.classOf slot)
      shallowSize := graph.shallowSize slot
      retainedSize := analysis.sizes.retainedSize slot
      referencedBy := edges.head?.map fun edge => (graph.label edge).render }
      :: pathSteps analysis slots edges.tail

/-- A path as it is shown. -/
def showPath (analysis : HeapAnalysis) (path : RootPath) : RetentionPath :=
  ⟨analysis.pathSteps path.nodes path.edges, analysis.graph.rootKinds path.root⟩

/-- A visited set from the pool, or a new one if the pool is empty. -/
def takeVisited (analysis : HeapAnalysis) : VersionedBitSet × List VersionedBitSet :=
  match analysis.pool with
  | visited :: pool => (visited, pool)
  | [] => (.ofCount analysis.graph.objectCount, [])

/-- The shortest paths from an object to roots. -/
def pathsToRoot (analysis : HeapAnalysis) (text : String) (maxPaths maxDepth : Int)
    (deadline : Deadline) (now : Instant) :
    Except QueryError (Outcome (List RetentionPath)) × HeapAnalysis :=
  match analysis.resolve text with
  | .error fault => (.error fault, analysis)
  | .ok slot =>
    let defaults := analysis.options.defaults
    let limits : PathLimits := ⟨boundOr defaults.maxPaths maxPaths,
      boundOr defaults.maxDepth maxDepth⟩
    -- The visited set is taken out of the pool while it is in use.
    let (visited, pool) := analysis.takeVisited
    let (found, visited) :=
      HeapAtlas.pathsToRoot analysis.graph slot limits deadline now visited
    (.ok (found.map fun paths => paths.map analysis.showPath),
      { analysis with pool := visited :: pool })

/-- The index of the largest objects, which is kept once it was built to the end. -/
def rankingIndex (analysis : HeapAnalysis) (deadline : Deadline) (now : Instant) :
    Outcome RankingIndex × HeapAnalysis :=
  match analysis.index with
  | some index => (⟨index, true⟩, analysis)
  | none =>
    let built := RankingIndex.build analysis.graph analysis.sizes analysis.options.indexOptions
      deadline now
    -- An index that was cut short is given, but not kept.
    (built, if built.complete then { analysis with index := some built.value } else analysis)

/-- The largest instances of the classes of a name. -/
def biggestByClass (analysis : HeapAnalysis) (name : String) (topN : Int) (key : SortKey)
    (deadline : Deadline) (now : Instant) :
    Except QueryError (Outcome (List ObjectDescriptor)) × HeapAnalysis :=
  let bound := boundOr analysis.options.defaults.topN topN
  -- The index is built even for a name without classes.
  let (index, analysis) := analysis.rankingIndex deadline now
  match index.value.byClass analysis.graph name bound key with
  | none => (.error (.classNotFound name), analysis)
  | some slots => (.ok ⟨slots.map analysis.describe, index.complete⟩, analysis)

/-- The classes of the kept categories with the largest totals. -/
def biggestClasses {κ : Type} [Categorizer κ] (analysis : HeapAnalysis) (categorizer : κ)
    (topN : Int) (key : SortKey) (filter : CategoryFilter) (deadline : Deadline)
    (now : Instant) : Outcome (List ClassRanking) × HeapAnalysis × κ :=
  let bound := boundOr analysis.options.defaults.topN topN
  -- The index is taken or made first: the categories only choose among its rows.
  let (index, analysis) := analysis.rankingIndex deadline now
  let (rankings, categorizer) :=
    index.value.topClasses analysis.graph categorizer bound key filter
  (⟨rankings, index.complete⟩, analysis, categorizer)

end HeapAnalysis

end HeapAtlas
