import Std.Data.HashMap
import Std.Data.TreeMap
import HeapAtlas.Categorize.Memo
import HeapAtlas.Dominance.Retained
import HeapAtlas.Paths
import HeapAtlas.Scan.TopK

/-! The largest objects of each class, and classes by the total of their instances. -/

namespace HeapAtlas

/-- The size that a ranking goes by. -/
inductive SortKey where
  | shallow | retained
  deriving DecidableEq, Repr

instance : Inhabited SortKey := ⟨.retained⟩

/-- The name of a sort key. -/
def SortKey.name : SortKey → String
  | shallow => "shallow" | retained => "retained"

/-- Totals over the instances of a class; objects may retain each other's bytes. -/
structure ClassSummary where
  instances : Nat
  shallowTotal : Nat
  retainedSum : Nat
  deriving DecidableEq, Repr

namespace ClassSummary

/-- No instances. -/
def zero : ClassSummary := ⟨0, 0, 0⟩

instance : Inhabited ClassSummary := ⟨zero⟩

/-- The totals of two sets of instances together. -/
def add (one other : ClassSummary) : ClassSummary :=
  ⟨one.instances + other.instances, Capped.add one.shallowTotal other.shallowTotal,
    Capped.add one.retainedSum other.retainedSum⟩

/-- The total that a ranking goes by. -/
def total (summary : ClassSummary) : SortKey → Nat
  | .shallow => summary.shallowTotal
  | .retained => summary.retainedSum

end ClassSummary

/-- A class name in a ranking, with the totals of all classes of that name. -/
structure ClassRanking where
  name : String
  category : Category
  summary : ClassSummary
  deriving DecidableEq, Repr

/-- An object with the size that it is ranked by. -/
structure Ranked where
  size : Nat
  id : ObjectId
  slot : Slot
  deriving DecidableEq, Repr

/-- Larger objects come first, equally large ones in the order of their identifiers. -/
instance : Ord Ranked where
  compare one other :=
    (compare other.size one.size).then
      ((compare one.id other.id).then (compare one.slot other.slot))

/-- What was found of a class in one chunk. -/
structure ClassPart where
  summary : ClassSummary
  byShallow : TopK Ranked
  byRetained : TopK Ranked

/-- The totals of a class and its largest instances. -/
structure RankedClass where
  summary : ClassSummary
  byShallow : List Ranked
  byRetained : List Ranked
  deriving DecidableEq, Repr

instance : Inhabited RankedClass := ⟨⟨.zero, [], []⟩⟩

/-- The largest instances by one of the sizes. -/
def RankedClass.ranked (entry : RankedClass) : SortKey → List Ranked
  | .shallow => entry.byShallow
  | .retained => entry.byRetained

/-- How an index is built. -/
structure IndexOptions where
  topK : Nat
  chunkSize : Nat
  workers : Nat
  deriving DecidableEq, Repr

/-- The largest instances of every class. -/
structure RankingIndex where
  classes : Array RankedClass
  topK : Nat
  deriving DecidableEq

namespace RankingIndex

/-- Nothing found of a class. -/
def noPart (topK : Nat) : ClassPart := ⟨.zero, .empty topK, .empty topK⟩

/-- Takes one more instance into a part. -/
def addInstance (graph : HeapGraph) (sizes : RetainedSizes) (part : ClassPart) (slot : Slot) :
    ClassPart :=
  let shallow := graph.shallowSize slot
  let retained := sizes.retainedSize slot
  let id := graph.objectId slot
  -- Both rankings hold every instance, each by its own size.
  { summary := part.summary.add ⟨1, shallow, retained⟩
    byShallow := part.byShallow.push ⟨shallow, id, slot⟩
    byRetained := part.byRetained.push ⟨retained, id, slot⟩ }

/-- Takes one more object into the part of its class. -/
def intoParts (graph : HeapGraph) (sizes : RetainedSizes) (topK : Nat)
    (parts : Std.HashMap Slot ClassPart) (slot : Slot) : Std.HashMap Slot ClassPart :=
  let classSlot := graph.classOf slot
  parts.insert classSlot (addInstance graph sizes (parts.getD classSlot (noPart topK)) slot)

/-- The parts of the classes that have instances among some objects. -/
def partsOf (graph : HeapGraph) (sizes : RetainedSizes) (topK : Nat) (slots : List Slot) :
    Std.HashMap Slot ClassPart := slots.foldl (intoParts graph sizes topK) ∅

/-- Of so many objects in a row, the signal is looked at before the last one is taken. -/
def stopStride : Nat := 4096

/--
Takes objects into parts one after another, of which the first has `taken` before it in its chunk.

The signal is looked at now and then, at the readings of a clock that has one for each place in the
chunk. When work has to stop, the object at hand and all after it are left out.
-/
def scanFrom (graph : HeapGraph) (sizes : RetainedSizes) (topK : Nat) (clock : Nat → Instant) :
    (taken : Nat) → List Slot → Std.HashMap Slot ClassPart → StopSignal →
      Std.HashMap Slot ClassPart × StopSignal
  | _, [], parts, signal => (parts, signal)
  | taken, slot :: slots, parts, signal =>
    let (stop, signal) :=
      if taken % stopStride = stopStride - 1 then signal.check (clock taken) else (false, signal)
    if stop then (parts, signal)
    else
      scanFrom graph sizes topK clock (taken + 1) slots (intoParts graph sizes topK parts slot)
        signal

/-- Scans a chunk for the parts of classes, at the readings of a clock. -/
def scanChunk (graph : HeapGraph) (sizes : RetainedSizes) (topK : Nat) (clock : Nat → Instant)
    (chunk : Chunk) (signal : StopSignal) : Std.HashMap Slot ClassPart × StopSignal :=
  scanFrom graph sizes topK clock 0 chunk.positions ∅ signal

/-- Puts the parts of one class together. -/
def combine (topK : Nat) (parts : List ClassPart) : RankedClass :=
  { summary := parts.foldl (fun summary part => summary.add part.summary) .zero
    byShallow := mergeSorted topK (parts.map (·.byShallow.toSorted))
    byRetained := mergeSorted topK (parts.map (·.byRetained.toSorted)) }

/-- Hands out the parts of chunks to their classes, in the order of the chunks. -/
def gather (classCount : Nat) (chunks : List (Std.HashMap Slot ClassPart)) :
    Array (List ClassPart) :=
  -- The last chunk goes first, so that the parts of a class stand in the order of the chunks.
  chunks.foldr (fun found gathered =>
    found.fold (fun gathered classSlot part => gathered.modify classSlot (part :: ·)) gathered)
    (Array.replicate classCount [])

/-- The index of what was found in chunks. -/
def ofParts (graph : HeapGraph) (topK : Nat) (chunks : List (Std.HashMap Slot ClassPart)) :
    RankingIndex :=
  ⟨(gather graph.classCount chunks).map (combine topK), topK⟩

/-- Builds the index chunk by chunk; at its deadline it covers what was scanned by then. -/
def build (graph : HeapGraph) (sizes : RetainedSizes) (options : IndexOptions)
    (deadline : Deadline) (now : Instant) : Outcome RankingIndex :=
  let scan := Scan.run graph.objectCount options.chunkSize options.workers deadline now
    (scanChunk graph sizes options.topK fun _ => now)
  ⟨ofParts graph options.topK (scan.parts.map (·.2)), scan.complete⟩

/-- The totals of a class. -/
def summary (index : RankingIndex) (classSlot : Slot) : ClassSummary :=
  (index.classes.getD classSlot default).summary

/-- The largest instances of all ranked classes of a name, none if there is no such class. -/
def byClass (index : RankingIndex) (graph : HeapGraph) (name : String) (topN : Nat)
    (key : SortKey) : Option (List Slot) :=
  -- Several loaders may have defined classes of one name.
  match (graph.classesNamed name).filterMap (index.classes[·]?) with
  | [] => none
  | ranked =>
    let lists := ranked.map (·.ranked key)
    some ((mergeSorted (min topN index.topK) lists).map (·.slot))

/-- The totals of all classes that have instances, by name in ascending order. -/
def totalsByName (index : RankingIndex) (graph : HeapGraph) : List (String × ClassSummary) :=
  let totals : Std.TreeMap String ClassSummary := (List.range index.classes.size).foldl
    (fun totals classSlot =>
      let summary := index.summary classSlot
      -- A name none of whose classes has instances gets no row.
      if summary.instances = 0 then totals
      else
        let name := graph.className classSlot
        totals.insert name ((totals.getD name .zero).add summary)) ∅
  totals.toList

variable {κ : Type} [Categorizer κ]

/-- Asks for the category of every name in turn. -/
def categorized (categorizer : κ) : List (String × ClassSummary) → List ClassRanking × κ
  | [] => ([], categorizer)
  | (name, summary) :: rest =>
    let (category, categorizer) := Categorizer.categorize categorizer name
    let (rankings, categorizer) := categorized categorizer rest
    (⟨name, category, summary⟩ :: rankings, categorizer)

/--
The class names of the kept categories with the largest totals, equal totals in the order of names.
-/
def topClasses (index : RankingIndex) (graph : HeapGraph) (categorizer : κ) (topN : Nat)
    (key : SortKey) (filter : CategoryFilter) : List ClassRanking × κ :=
  let (rankings, categorizer) := categorized categorizer (index.totalsByName graph)
  let kept := rankings.filter fun ranking => filter.allows ranking.category
  let sorted := kept.mergeSort fun one other => other.summary.total key ≤ one.summary.total key
  (sorted.take topN, categorizer)

end RankingIndex

end HeapAtlas
