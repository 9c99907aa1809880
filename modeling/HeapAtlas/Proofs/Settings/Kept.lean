import HeapAtlas.Proofs.Json.Records
import HeapAtlas.Proofs.Settings.Stores

/-! Settings that are kept: they are loaded as they were saved, and members left out as standard. -/

namespace HeapAtlas

open JsonText

attribute [ext] QueryLimits EngineSettings

/-- An object with the value of one member changed; any other value as it is. -/
def JsonValue.alter (name : String) (change : JsonValue → JsonValue) : JsonValue → JsonValue
  | .object members => .object (members.map fun member =>
      if member.1 = name then (name, change member.2) else member)
  | value => value

/-! ### Bounds -/

namespace QueryLimits

/-- Bounds of which some are the standard ones. -/
def forgetting (gone : List String) (limits : QueryLimits) : QueryLimits where
  maxPaths := if "max_paths" ∈ gone then standard.maxPaths else limits.maxPaths
  maxDepth := if "max_depth" ∈ gone then standard.maxDepth else limits.maxDepth
  maxRetainers := if "max_retainers" ∈ gone then standard.maxRetainers else limits.maxRetainers
  topN := if "top_n" ∈ gone then standard.topN else limits.topN

/-- The members of bounds, each with its setting. -/
def settings (limits : QueryLimits) : List (Setting QueryLimits) :=
  [⟨"max_paths", .ofNat limits.maxPaths.toNat,
      fun read => { read with maxPaths := limits.maxPaths }⟩,
    ⟨"max_depth", .ofNat limits.maxDepth.toNat,
      fun read => { read with maxDepth := limits.maxDepth }⟩,
    ⟨"max_retainers", .ofNat limits.maxRetainers.toNat,
      fun read => { read with maxRetainers := limits.maxRetainers }⟩,
    ⟨"top_n", .ofNat limits.topN.toNat, fun read => { read with topN := limits.topN }⟩]

/-- What is left of the members of bounds makes the bounds, but for those left out. -/
theorem applyAll_settings (limits : QueryLimits) (gone : List String) :
    applyAll (limits.settings.filter fun setting => setting.name ∉ gone) standard =
      limits.forgetting gone := by
  refine QueryLimits.ext ?_ ?_ ?_ ?_
  · exact get_applyAll_filter maxPaths (by simp [settings]) (by simp [settings]) gone _
  · exact get_applyAll_filter maxDepth (by simp [settings]) (by simp [settings]) gone _
  · exact get_applyAll_filter maxRetainers (by simp [settings]) (by simp [settings]) gone _
  · exact get_applyAll_filter topN (by simp [settings]) (by simp [settings]) gone _

/-- Bounds are read as they were written, but for those left out. -/
theorem reads_without (limits : QueryLimits) (gone : List String) :
    Reads codec.read (limits.toJson.without gone) (limits.forgetting gone) := by
  have members : limits.toJson = .object (limits.settings.map (·.member)) := rfl
  rw [members, ← applyAll_settings]
  -- Each limit is a word under a name of its own.
  refine JsonText.reads_without ?_ ?_ ?_ ?_ standard gone
  · simp [JsonCodec.field]
  · simp only [settings, List.forall_mem_cons]
    exact ⟨⟨_, rfl, (reads_word _).field _ _ _⟩, ⟨_, rfl, (reads_word _).field _ _ _⟩,
      ⟨_, rfl, (reads_word _).field _ _ _⟩, ⟨_, rfl, (reads_word _).field _ _ _⟩,
      List.forall_mem_nil _⟩
  · simp [settings]
  · simp [settings]

end QueryLimits

namespace EngineSettings

/-- What is written of settings, without some members and without some of the bounds. -/
def toJsonWithout (kept : EngineSettings) (gone limitsGone : List String) : JsonValue :=
  (kept.toJson.alter "defaults" (.without limitsGone)).without gone

/-- Settings of which some are the standard ones, and some of the bounds among them. -/
def forgetting (gone limitsGone : List String) (kept : EngineSettings) : EngineSettings where
  workers := if "workers" ∈ gone then standard.workers else kept.workers
  chunkSize := if "chunk_size" ∈ gone then standard.chunkSize else kept.chunkSize
  topKPerClass := if "top_k_per_class" ∈ gone then standard.topKPerClass else kept.topKPerClass
  maxGraphBytes := if "max_graph_bytes" ∈ gone then standard.maxGraphBytes else kept.maxGraphBytes
  maxResident := if "max_resident_graphs" ∈ gone then standard.maxResident else kept.maxResident
  timeoutMillis := if "query_timeout_ms" ∈ gone then standard.timeoutMillis else kept.timeoutMillis
  limits := if "defaults" ∈ gone then standard.limits else kept.limits.forgetting limitsGone
  businessPrefixes :=
    if "business_prefixes" ∈ gone then standard.businessPrefixes else kept.businessPrefixes

/-- The members of settings, each with its setting, where some bounds are left out. -/
def settings (kept : EngineSettings) (limitsGone : List String) : List (Setting EngineSettings) :=
  [⟨"workers", .ofNat kept.workers.toNat, fun read => { read with workers := kept.workers }⟩,
    ⟨"chunk_size", .ofNat kept.chunkSize.toNat,
      fun read => { read with chunkSize := kept.chunkSize }⟩,
    ⟨"top_k_per_class", .ofNat kept.topKPerClass.toNat,
      fun read => { read with topKPerClass := kept.topKPerClass }⟩,
    ⟨"max_graph_bytes", .ofNat kept.maxGraphBytes.toNat,
      fun read => { read with maxGraphBytes := kept.maxGraphBytes }⟩,
    ⟨"max_resident_graphs", .ofNat kept.maxResident.toNat,
      fun read => { read with maxResident := kept.maxResident }⟩,
    ⟨"query_timeout_ms", .ofNat kept.timeoutMillis.toNat,
      fun read => { read with timeoutMillis := kept.timeoutMillis }⟩,
    ⟨"defaults", kept.limits.toJson.without limitsGone,
      fun read => { read with limits := kept.limits.forgetting limitsGone }⟩,
    ⟨"business_prefixes", .ofTexts kept.businessPrefixes,
      fun read => { read with businessPrefixes := kept.businessPrefixes }⟩]

/-- What is left of the members of settings makes the settings, but for those left out. -/
theorem applyAll_settings (kept : EngineSettings) (gone limitsGone : List String) :
    applyAll ((kept.settings limitsGone).filter fun setting => setting.name ∉ gone) standard =
      kept.forgetting gone limitsGone := by
  -- Settings are told by their fields, of which each has one member.
  refine EngineSettings.ext ?_ ?_ ?_ ?_ ?_ ?_ ?_ ?_
  · exact get_applyAll_filter workers (by simp [settings]) (by simp [settings]) gone _
  · exact get_applyAll_filter chunkSize (by simp [settings]) (by simp [settings]) gone _
  · exact get_applyAll_filter topKPerClass (by simp [settings]) (by simp [settings]) gone _
  · exact get_applyAll_filter maxGraphBytes (by simp [settings]) (by simp [settings]) gone _
  · exact get_applyAll_filter maxResident (by simp [settings]) (by simp [settings]) gone _
  · exact get_applyAll_filter timeoutMillis (by simp [settings]) (by simp [settings]) gone _
  · exact get_applyAll_filter limits (by simp [settings]) (by simp [settings]) gone _
  · exact get_applyAll_filter businessPrefixes (by simp [settings]) (by simp [settings]) gone _

/-- Settings are read as they were written, but for those left out. -/
theorem reads_without (kept : EngineSettings) (gone limitsGone : List String) :
    Reads codec.read (kept.toJsonWithout gone limitsGone) (kept.forgetting gone limitsGone) := by
  -- The prefixes and the bounds are read by codecs of their own, the others as words.
  have texts : Reads (JsonCodec.list .text).read (.ofTexts kept.businessPrefixes)
      kept.businessPrefixes := by
    refine reads_list ?_
    rw [List.forall₂_map_left_iff, List.forall₂_same]
    exact fun start _ => reads_text start
  have changed : kept.toJson.alter "defaults" (.without limitsGone) =
      .object ((kept.settings limitsGone).map (·.member)) := by
    simp [toJson, JsonValue.alter, settings, Setting.member]
  rw [toJsonWithout, changed, ← applyAll_settings]
  refine JsonText.reads_without ?_ ?_ ?_ ?_ standard gone
  · simp [JsonCodec.field]
  · simp only [settings, List.forall_mem_cons]
    exact ⟨⟨_, rfl, (reads_word _).field _ _ _⟩, ⟨_, rfl, (reads_word _).field _ _ _⟩,
      ⟨_, rfl, (reads_word _).field _ _ _⟩, ⟨_, rfl, (reads_word _).field _ _ _⟩,
      ⟨_, rfl, (reads_word _).field _ _ _⟩, ⟨_, rfl, (reads_word _).field _ _ _⟩,
      ⟨_, rfl, (kept.limits.reads_without limitsGone).field _ _ _⟩, ⟨_, rfl, texts.field _ _ _⟩,
      List.forall_mem_nil _⟩
  · simp [settings]
  · simp [settings]

/-! ### Loading -/

/-- With nothing removed, the whole value is written. -/
theorem toJsonWithout_nil (kept : EngineSettings) : kept.toJsonWithout [] [] = kept.toJson := by
  simp [toJsonWithout, toJson, JsonValue.alter, JsonValue.without, QueryLimits.toJson]

/-- With nothing removed, nothing is forgotten. -/
theorem forgetting_nil (kept : EngineSettings) : kept.forgetting [] [] = kept := rfl

end EngineSettings

/-- A value is loaded from any text of what its codec reads. -/
theorem SettingsStore.loadValue?_of_whole {σ α : Type} [SettingsStore σ] {store : σ}
    {key : String} {bytes : Bytes} (loaded : (SettingsStore.load store key).1 = .ok bytes)
    {codec : JsonCodec α} {value : JsonValue} {result : α} (reads : Reads codec.read value result)
    (whole : Whole value bytes) :
    (SettingsStore.loadValue? store key codec).1 = .ok (some result) := by
  -- There are bytes, without which nothing would count as kept.
  obtain ⟨first, others, rfl⟩ := List.exists_cons_of_ne_nil (whole.ne_nil reads)
  cases answer : SettingsStore.load store key with
  | mk outcome after =>
    rw [answer] at loaded
    cases loaded
    rw [SettingsStore.loadValue?, answer]
    simp only [parse_whole reads whole]
    rfl

namespace EngineSettings

open SettingsStore

/--
Settings that were saved are loaded as they were, from every store that gives back what was last
saved under a key. From any text of them without some members, of the bounds or of the others,
exactly the fields of those members are loaded as the standard ones.
-/
theorem load_saved {σ : Type} [SettingsStore σ] {store : σ} (remembers : Remembers store)
    (kept : EngineSettings) :
    (∀ saved later, kept.save store = (.ok (), saved) → Undisturbed key saved later →
      (load later).1 = .ok kept) ∧
    ∀ gone limitsGone bytes, Whole (kept.toJsonWithout gone limitsGone) bytes →
      ∀ saved later, SettingsStore.save store key bytes = (.ok (), saved) →
        Undisturbed key saved later → (load later).1 = .ok (kept.forgetting gone limitsGone) := by
  have loads (gone limitsGone : List String) (bytes : Bytes)
      (whole : Whole (kept.toJsonWithout gone limitsGone) bytes) (saved later : σ)
      (held : SettingsStore.save store key bytes = (.ok (), saved))
      (undisturbed : Undisturbed key saved later) :
      (load later).1 = .ok (kept.forgetting gone limitsGone) := by
    have answer := loadValue?_of_whole (remembers key bytes saved later held undisturbed)
      (kept.reads_without gone limitsGone) whole
    have first : (load later).1 =
        (SettingsStore.loadValue? later key codec).1.map (·.getD standard) := rfl
    rw [first, answer]
    rfl
  refine ⟨fun saved later held undisturbed => ?_, loads⟩
  -- What is saved is a text of the settings with nothing left out.
  have whole := whole_render kept.toJson
  rw [← toJsonWithout_nil] at whole
  have all := loads [] [] _ whole saved later held undisturbed
  rwa [forgetting_nil] at all

/-- Settings with marks in their texts and a number at the limit come back from memory, and so do
the two that are left of them in a text in another order. -/
theorem load_saved_partial :
    let kept : EngineSettings := ⟨3, 1, 18446744073709551615, 0, 2, 250, ⟨5, 6, 0, 7⟩,
      ["com.\"acme\"\\", "\n\x01", "日本", ""]⟩
    let left := Bytes.ofText "\x7b\"defaults\": \x7b\"top_n\":7\x7d,\"workers\":3 \x7d\n"
    Remembers MemoryStore.empty ∧
      (load (kept.save MemoryStore.empty).2).1 = .ok kept ∧
      (load (SettingsStore.save MemoryStore.empty key left).2).1 =
        .ok { standard with workers := 3, limits := { QueryLimits.standard with topN := 7 } } := by
  intro kept left
  have remembers := MemoryStore.remembers (show MemoryStore.empty.failLoads = false from rfl)
  have loads := load_saved remembers kept
  -- The text on hand is spelled out member by member, with its gaps.
  have limits : Spells (.object [("top_n", .integer 7)]) _ :=
    .object (.refl _) (.cons (.first gap_nil) (.mk gap_nil gap_nil (.integer 7)) (.nil gap_nil))
  have whole : Whole (kept.toJsonWithout ["chunk_size", "top_k_per_class", "max_graph_bytes",
      "max_resident_graphs", "query_timeout_ms", "business_prefixes"]
      ["max_paths", "max_depth", "max_retainers"]) left :=
    ⟨[], _, [ascii '\n'], gap_nil,
      .object (.swap _ _ []) (.cons (.first gap_nil) (.mk gap_nil gap_space limits)
        (.cons (.next gap_nil gap_nil) (.mk gap_nil gap_nil (.integer 3)) (.nil gap_space))),
      List.forall_mem_singleton.mpr rfl, rfl⟩
  exact ⟨remembers, loads.1 _ _ rfl .refl, loads.2 _ _ left whole _ _ rfl .refl⟩

end EngineSettings

end HeapAtlas
