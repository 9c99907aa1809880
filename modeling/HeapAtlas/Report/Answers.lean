import HeapAtlas.Analysis
import HeapAtlas.Report.Records

/-! The JSON form of answers: descriptors, rankings, paths, retainers and options. -/

namespace HeapAtlas

open JsonValue (ofNat ofOption member?)

/-- The kinds of root that an object is. -/
def RootKind.listJson (kinds : List RootKind) : JsonValue := .array (kinds.map RootKind.toJson)

/-- What an object is; a dominator and kinds of root are shown where there are any. -/
def ObjectDescriptor.toJson (object : ObjectDescriptor) : JsonValue :=
  .object <|
    [("id", object.id.toJson), ("class_id", object.classId.toJson),
      ("class_name", .text object.className), ("shallow_size", ofNat object.shallowSize),
      ("retained_size", ofNat object.retainedSize), ("reachable", .bool object.reachable)]
    ++ member? "dominator" ObjectId.toJson object.dominator
    ++ (if object.rootKinds.isEmpty then [] else
      [("root_kinds", RootKind.listJson object.rootKinds)])
    ++ [("outgoing", ofNat object.outgoing), ("incoming", ofNat object.incoming)]

/-- What a field holds, by its kind. -/
def FieldValue.toJson : FieldValue → JsonValue
  | reference target className shallowSize retainedSize =>
    .object
      [("kind", .text "reference"), ("target", target.toJson), ("class_name", .text className),
        ("shallow_size", ofNat shallowSize), ("retained_size", ofNat retainedSize)]
  | dangling target => .object [("kind", .text "dangling"), ("target", target.toJson)]
  | primitive value => .object [("kind", .text "primitive"), ("value", value.toJson)]
  | null => .object [("kind", .text "null")]

/-- A field; its type is shown where one is known. -/
def FieldDescriptor.toJson (field : FieldDescriptor) : JsonValue :=
  .object <|
    ("name", .text field.name) :: member? "declared_type" .text field.declaredType
    ++ [("value", field.value.toJson)]

/-- The totals of a class. -/
def ClassSummary.members (summary : ClassSummary) : List (String × JsonValue) :=
  [("instance_count", ofNat summary.instances), ("shallow_total", ofNat summary.shallowTotal),
    ("retained_sum", ofNat summary.retainedSum)]

/-- A class name in a ranking. -/
def ClassRanking.toJson (ranking : ClassRanking) : JsonValue :=
  .object <|
    [("name", .text ranking.name), ("category", .text ranking.category.name)]
    ++ ranking.summary.members

/-- One object on a path; a label is shown where a reference holds it. -/
def PathStep.toJson (step : PathStep) : JsonValue :=
  .object <|
    [("object", step.object.toJson), ("class_name", .text step.className),
      ("shallow_size", ofNat step.shallowSize), ("retained_size", ofNat step.retainedSize)]
    ++ member? "referenced_by" .text step.referencedBy

/-- A path to a root. -/
def RetentionPath.toJson (path : RetentionPath) : JsonValue :=
  .object
    [("steps", .array (path.steps.map PathStep.toJson)),
      ("root_kinds", RootKind.listJson path.rootKinds)]

/-- An object that refers to another. -/
def Retainer.toJson (retainer : Retainer) : JsonValue :=
  .object
    [("object", retainer.object.toJson), ("class_name", .text retainer.className),
      ("shallow_size", ofNat retainer.shallowSize),
      ("retained_size", ofNat retainer.retainedSize), ("field", .text retainer.field)]

/-- The first retainers, and the number of all. -/
def RetainerList.toJson (list : RetainerList) : JsonValue :=
  .object
    [("retainers", .array (list.retainers.map Retainer.toJson)), ("total", ofNat list.total)]

/-- The bounds where a question gives none. -/
def QueryDefaults.toJson (defaults : QueryDefaults) : JsonValue :=
  .object
    [("max_paths", ofNat defaults.maxPaths), ("max_depth", ofNat defaults.maxDepth),
      ("max_retainers", ofNat defaults.maxRetainers), ("top_n", ofNat defaults.topN)]

/-- How a heap is analysed; the machine's own number of workers is shown as `default`. -/
def AnalysisOptions.toJson (options : AnalysisOptions) : JsonValue :=
  .object
    [("workers", match options.workers with
      | some workers => ofNat workers
      | none => .text "default"),
    ("chunk_size", ofNat options.chunkSize), ("top_k_per_class", ofNat options.topKPerClass),
    ("max_graph_bytes", ofNat options.maxGraphBytes), ("defaults", options.defaults.toJson)]

/-- A path by identifiers and edge numbers. -/
def RootPath.toJson (graph : HeapGraph) (path : RootPath) : JsonValue :=
  .object
    [("nodes", graph.idsJson path.nodes), ("edges", .array (path.edges.map ofNat)),
      ("hops", ofNat path.hops), ("root", (graph.objectId path.root).toJson)]

/-- An object by its identifier, or the super-root. -/
def Dominator.toJson (graph : HeapGraph) : Dominator → JsonValue
  | superRoot => .text "super_root"
  | object slot => (graph.objectId slot).toJson

namespace RetainedSizes

/-- The numbers of objects that the roots reach and do not reach, and the bytes of the former. -/
def totalsJson (sizes : RetainedSizes) : JsonValue :=
  .object
    [("reachable", ofNat sizes.reachableCount), ("unreachable", ofNat sizes.unreachableCount),
      ("reachable_shallow_total", ofNat sizes.reachableTotal)]

/-- What dominates an object, whether the roots reach it and what it retains. -/
def objectJson (sizes : RetainedSizes) (graph : HeapGraph) (slot : Slot) : JsonValue :=
  .object
    [("dominator", ofOption (Dominator.toJson graph) (sizes.dominator? slot)),
      ("reachable", .bool (sizes.isReachable slot)),
      ("retained", ofNat (sizes.retainedSize slot))]

end RetainedSizes

/-- The prefixes in force, their generation and how many names are remembered. -/
def PrefixCategorizer.toJson (categorizer : PrefixCategorizer) : JsonValue :=
  .object
    [("generation", ofNat categorizer.generation), ("prefixes", .ofTexts categorizer.business),
      ("memo", ofNat categorizer.memoSize), ("fresh", ofNat categorizer.freshSize)]

/-- A value that a deadline may have cut short. -/
def Outcome.toJson (outcome : Outcome JsonValue) : JsonValue :=
  .object [("value", outcome.value), ("complete", .bool outcome.complete)]

end HeapAtlas
