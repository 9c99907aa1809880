import HeapAtlas.Report.Answers
import HeapAtlas.Residency.Cache
import HeapAtlas.Settings.Store

/-! The JSON form of caches and of what settings stand for. -/

namespace HeapAtlas

open JsonValue (ofNat ofTexts)

/-- How many analyses are kept, and how snapshots are analysed. -/
def CacheOptions.toJson (options : CacheOptions) : JsonValue :=
  .object
    [("max_resident_graphs", ofNat options.maxResident), ("analysis", options.analysis.toJson)]

/-- The keys of a house with the numbers of loads, hits and evictions so far. -/
def House.toJson {ε α : Type} (house : House ε α) : JsonValue :=
  .object
    [("len", ofNat house.shelf.size), ("empty", .bool (house.shelf.size = 0)),
      ("keys", ofTexts house.shelf.keys), ("loads", ofNat house.loads),
      ("hits", ofNat house.hits), ("evictions", ofNat house.shelf.evictions)]

/-- The number of fetches of a key and of all keys. -/
def MemorySource.fetchesJson (source : MemorySource) (key : String) : JsonValue :=
  .object [("key", ofNat (source.fetchCount key)), ("total", ofNat source.totalFetches)]

/-- The attempts to load and to save, the keys, and whether there is a given one. -/
def MemoryStore.toJson (store : MemoryStore) (key : String) : JsonValue :=
  .object
    [("loads", ofNat store.loads), ("saves", ofNat store.saves),
      ("keys", JsonValue.ofTexts store.keys), ("has_key", .bool (store.contains key))]

end HeapAtlas
