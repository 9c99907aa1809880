import HeapAtlas.Json.Codec
import HeapAtlas.Residency.Cache

/-! Settings of the engine, as they are kept in JSON and as what they stand for. -/

namespace HeapAtlas

/-- The kept form of the bounds in force where a question gives none. -/
structure QueryLimits where
  maxPaths : UInt64
  maxDepth : UInt64
  maxRetainers : UInt64
  topN : UInt64
  deriving DecidableEq, Repr

namespace QueryLimits

/-- The standard bounds. -/
def standard : QueryLimits := ⟨5, 20, 50, 20⟩

instance : Inhabited QueryLimits := ⟨standard⟩

/-- Bounds are given by their names; one left out is the standard one. -/
def codec : JsonCodec QueryLimits :=
  .record
    [JsonCodec.field "max_paths" false .word fun n limits => { limits with maxPaths := n },
      JsonCodec.field "max_depth" false .word fun n limits => { limits with maxDepth := n },
      JsonCodec.field "max_retainers" false .word fun n limits => { limits with maxRetainers := n },
      JsonCodec.field "top_n" false .word fun n limits => { limits with topN := n }]
    standard

/-- The bounds by their names. -/
def toJson (limits : QueryLimits) : JsonValue :=
  .object
    [("max_paths", .ofNat limits.maxPaths.toNat), ("max_depth", .ofNat limits.maxDepth.toNat),
      ("max_retainers", .ofNat limits.maxRetainers.toNat), ("top_n", .ofNat limits.topN.toNat)]

end QueryLimits

/-- A kept number, or if it is zero the one in its place. -/
def orElse (default : Nat) (kept : UInt64) : Nat := if kept = 0 then default else kept.toNat

/-- The bounds that kept ones stand for; zero stands for the standard one. -/
def QueryLimits.defaults (limits : QueryLimits) : QueryDefaults :=
  let standard := QueryDefaults.standard
  ⟨orElse standard.maxPaths limits.maxPaths, orElse standard.maxDepth limits.maxDepth,
    orElse standard.maxRetainers limits.maxRetainers, orElse standard.topN limits.topN⟩

/--
Settings of the engine.

Zero stands for the standard number of workers, chunk size and instances per class, and for no
limit on bytes and no time limit.
-/
structure EngineSettings where
  workers : UInt64
  chunkSize : UInt64
  topKPerClass : UInt64
  maxGraphBytes : UInt64
  maxResident : UInt64
  timeoutMillis : UInt64
  limits : QueryLimits
  businessPrefixes : List String
  deriving DecidableEq, Repr

namespace EngineSettings

/-- The standard settings. -/
def standard : EngineSettings := ⟨0, 65536, 100, 0, 2, 0, .standard, []⟩

instance : Inhabited EngineSettings := ⟨standard⟩

/-- Settings are given by their names; one left out is the standard one. -/
def codec : JsonCodec EngineSettings :=
  .record
    [JsonCodec.field "workers" false .word fun n kept => { kept with workers := n },
      JsonCodec.field "chunk_size" false .word fun n kept => { kept with chunkSize := n },
      JsonCodec.field "top_k_per_class" false .word fun n kept => { kept with topKPerClass := n },
      JsonCodec.field "max_graph_bytes" false .word fun n kept => { kept with maxGraphBytes := n },
      JsonCodec.field "max_resident_graphs" false .word fun n kept =>
        { kept with maxResident := n },
      JsonCodec.field "query_timeout_ms" false .word fun n kept => { kept with timeoutMillis := n },
      JsonCodec.field "defaults" false QueryLimits.codec fun limits kept =>
        { kept with limits := limits },
      JsonCodec.field "business_prefixes" false (.list .text) fun starts kept =>
        { kept with businessPrefixes := starts }]
    standard

/-- The settings by their names. -/
def toJson (kept : EngineSettings) : JsonValue :=
  .object
    [("workers", .ofNat kept.workers.toNat), ("chunk_size", .ofNat kept.chunkSize.toNat),
      ("top_k_per_class", .ofNat kept.topKPerClass.toNat),
      ("max_graph_bytes", .ofNat kept.maxGraphBytes.toNat),
      ("max_resident_graphs", .ofNat kept.maxResident.toNat),
      ("query_timeout_ms", .ofNat kept.timeoutMillis.toNat), ("defaults", kept.limits.toJson),
      ("business_prefixes", .ofTexts kept.businessPrefixes)]

/-- How heaps are analysed under settings. -/
def analysisOptions (kept : EngineSettings) : AnalysisOptions where
  -- Zero workers stand for as many as the machine offers.
  workers := if kept.workers = 0 then none else some kept.workers.toNat
  chunkSize := orElse AnalysisOptions.standard.chunkSize kept.chunkSize
  topKPerClass := orElse AnalysisOptions.standard.topKPerClass kept.topKPerClass
  maxGraphBytes := kept.maxGraphBytes.toNat
  defaults := kept.limits.defaults

/-- How analyses are kept under settings. -/
def cacheOptions (kept : EngineSettings) : CacheOptions :=
  CacheOptions.effective ⟨kept.maxResident.toNat, kept.analysisOptions⟩

/-- The deadline of a question that is asked now. -/
def deadline (kept : EngineSettings) (now : Instant) : Deadline :=
  .ofMillis now kept.timeoutMillis.toNat

/-- A categorizer with the business prefixes of settings. -/
def categorizer (kept : EngineSettings) : PrefixCategorizer := .ofPrefixes kept.businessPrefixes

end EngineSettings

end HeapAtlas
