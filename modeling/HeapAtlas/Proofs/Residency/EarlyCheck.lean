import HeapAtlas.Proofs.Capped
import HeapAtlas.Proofs.Snapshot.Peek
import HeapAtlas.Residency.Cache

/-! The limit on bytes, held against a header, refuses nothing that the heap itself would pass. -/

namespace HeapAtlas

/-- What passes a limit passes it as well when fewer bytes are expected. -/
theorem checkCeiling_mono {required more limit : Nat} (le : required ≤ more)
    (passed : checkCeiling more limit = .ok ()) : checkCeiling required limit = .ok () := by
  rw [checkCeiling, guard_eq_ok_iff] at passed ⊢
  exact ⟨fun refused => passed.1 ⟨refused.1, by omega⟩, rfl⟩

/-- A heap is analysed exactly when the bytes that it is expected to take pass the limit. -/
theorem HeapAnalysis.exists_ofGraph_iff (graph : HeapGraph) (options : AnalysisOptions) :
    (∃ analysis, ofGraph graph options = .ok analysis) ↔
      checkCeiling (Capped.add graph.estimatedBytes (Counts.analysisBytes graph.objectCount))
        options.maxGraphBytes = .ok () := by
  simp only [ofGraph, bind_eq_ok_iff, pure, Except.pure, Except.ok.injEq]
  constructor
  · intro analysed
    obtain ⟨_, _, passed, _⟩ := analysed
    exact passed
  · intro passed
    exact ⟨_, _, passed, rfl⟩

/-- A layout, be it readable or not, never keeps a heap from being analysed. -/
theorem HeapAnalysis.exists_ofStored_iff (graph : HeapGraph) (layout : Option Bytes)
    (options : AnalysisOptions) : (∃ analysis, ofStored graph layout options = .ok analysis) ↔
      ∃ analysis, ofGraph graph options = .ok analysis := by
  simp only [ofStored, bind_eq_ok_iff, pure, Except.pure, Except.ok.injEq]
  constructor
  · intro analysed
    obtain ⟨_, analysis, first, _⟩ := analysed
    exact ⟨analysis, first⟩
  · intro analysed
    obtain ⟨analysis, first⟩ := analysed
    exact ⟨_, analysis, first, rfl⟩

/-- What was stored last under a key is what is fetched, unless the key is told to fail. -/
theorem MemorySource.fetch_insert (source : MemorySource) (key : String)
    (snapshot : StoredSnapshot) (sound : source.failing.contains key = false) :
    ((source.insert key snapshot).fetch key).1 = .ok snapshot := by
  have stored : (source.insert key snapshot).snapshots[key]? = some snapshot :=
    Std.TreeMap.getElem?_insert_self
  have kept : (source.insert key snapshot).failing.contains key = false := sound
  rw [fetch, kept, stored]
  rfl

namespace Snapshot

variable {bytes : Bytes} {graph : HeapGraph}

/-- Besides what its counts tell, a heap is expected to take just the table of its identifiers. -/
theorem requiredBytes_of_decode (accepted : decode bytes = .ok graph) :
    Capped.add graph.estimatedBytes (Counts.analysisBytes graph.objectCount) =
        Capped.add graph.counts.requiredBytes graph.slotIndex.byteCount ∧
      graph.slotIndex.byteCount ≤ 8 * graph.objectCount := by
  obtain ⟨_, columns, _, _, _, rfl⟩ := decode_eq_ok_iff.mp accepted
  constructor
  · rw [HeapGraph.estimatedBytes, Capped.add_right_comm]
    rfl
  · -- The index has at most one entry of eight bytes for every object.
    have table := SlotIndex.byteCount_build_le (columns.objects.map (·.id))
    have objects : columns.resolved.objectCount = columns.objects.size := Array.size_map ..
    rw [Array.size_map] at table
    rw [objects]
    exact table

/-- What passes the limit when it is analysed has passed it before it was decoded. -/
theorem checkCeiling_of_ofGraph (accepted : decode bytes = .ok graph) {options : AnalysisOptions}
    {analysis : HeapAnalysis} (analysed : HeapAnalysis.ofGraph graph options = .ok analysis) :
    checkCeiling graph.counts.requiredBytes options.maxGraphBytes = .ok () := by
  have passed := (HeapAnalysis.exists_ofGraph_iff graph options).mp ⟨analysis, analysed⟩
  rw [(requiredBytes_of_decode accepted).1] at passed
  refine checkCeiling_mono ?_ passed
  -- The table adds to a total that is capped itself.
  have word : graph.counts.requiredBytes ≤ wordMax := Capped.add_le_wordMax _ _
  unfold Capped.add
  omega

/-- A plain snapshot is analysed when it can be decoded and its heap be analysed. -/
theorem exists_analyse_iff (plain : Zstd.sniff bytes = .plain) (unframe : Zstd.Unframer)
    (layout : Option Bytes) (key : String) (options : AnalysisOptions) :
    (∃ analysis, StoredSnapshot.analyse unframe ⟨bytes, layout⟩ key options = .ok analysis) ↔
      ∃ graph analysis, decode bytes = .ok graph ∧
        HeapAnalysis.ofGraph graph options = .ok analysis := by
  simp only [StoredSnapshot.analyse, Zstd.plain?_of_plain plain, bind_eq_ok_iff,
    mapError_eq_ok_iff]
  -- The peek and the ceiling stop nothing that decoding and analysing would let through.
  constructor
  · intro analysed
    obtain ⟨analysis, _, _, _, _, graph, accepted, last⟩ := analysed
    obtain ⟨analysis, first⟩ := (HeapAnalysis.exists_ofStored_iff _ _ _).mp ⟨analysis, last⟩
    exact ⟨graph, analysis, accepted, first⟩
  · intro both
    obtain ⟨graph, analysis, accepted, first⟩ := both
    obtain ⟨analysis, last⟩ :=
      (HeapAnalysis.exists_ofStored_iff graph layout options).mpr ⟨analysis, first⟩
    exact ⟨analysis, _, peek_of_decode accepted, (), checkCeiling_of_ofGraph accepted first, graph,
      accepted, last⟩

/-- A plain snapshot is loaded when it can be decoded and its heap be analysed. -/
theorem exists_load_iff (plain : Zstd.sniff bytes = .plain) (unframe : Zstd.Unframer) {σ : Type}
    [SnapshotSource σ] {source after : σ} {key : String} {layout : Option Bytes}
    (analyses : Array HeapAnalysis) (options : AnalysisOptions)
    (fetched : SnapshotSource.fetch source key = (.ok ⟨bytes, layout⟩, after)) :
    (∃ handle next,
        SnapshotCache.load unframe options key (source, analyses) = (.ok handle, next)) ↔
      ∃ graph analysis, decode bytes = .ok graph ∧
        HeapAnalysis.ofGraph graph options = .ok analysis := by
  rw [← exists_analyse_iff plain unframe layout key options, SnapshotCache.load, fetched]
  -- A handle is given when there is an analysis to keep.
  simp only [Except.bind]
  cases StoredSnapshot.analyse unframe ⟨bytes, layout⟩ key options with
  | ok analysis => exact iff_of_true ⟨_, _, rfl⟩ ⟨analysis, rfl⟩
  | error fault => simp

/-- For all bytes, the check made on a header agrees with the one made on the heap: the counts are
the same, the expected bytes differ by the table of identifiers alone, whatever the first check
refuses is refused by the second one, and so a plain snapshot is loaded exactly when it can be
decoded and its heap be analysed. -/
theorem early_check (bytes : Bytes) :
    (∀ graph, decode bytes = .ok graph → peek bytes = .ok graph.counts) ∧
    (∀ graph, decode bytes = .ok graph →
      Capped.add graph.estimatedBytes (Counts.analysisBytes graph.objectCount) =
          Capped.add graph.counts.requiredBytes graph.slotIndex.byteCount ∧
        graph.slotIndex.byteCount ≤ 8 * graph.objectCount) ∧
    (∀ graph counts (options : AnalysisOptions) limit fault, decode bytes = .ok graph →
      peek bytes = .ok counts → checkCeiling counts.requiredBytes limit = .error fault →
        ∃ fault, HeapAnalysis.ofGraph graph { options with maxGraphBytes := limit }
          = .error fault) ∧
    (Zstd.sniff bytes = .plain → ∀ (unframe : Zstd.Unframer) (σ : Type) [SnapshotSource σ]
      (source after : σ) key layout analyses options,
      SnapshotSource.fetch source key = (.ok ⟨bytes, layout⟩, after) →
      ((∃ handle next,
          SnapshotCache.load unframe options key (source, analyses) = (.ok handle, next)) ↔
        ∃ graph analysis, decode bytes = .ok graph ∧
          HeapAnalysis.ofGraph graph options = .ok analysis)) := by
  refine ⟨fun graph accepted => peek_of_decode accepted,
    fun graph accepted => requiredBytes_of_decode accepted, ?_,
    fun plain unframe σ _ source after key layout analyses options fetched =>
      exists_load_iff plain unframe analyses options fetched⟩
  intro graph counts options limit fault accepted told refused
  rw [peek_of_decode accepted] at told
  cases told
  -- Had the analysis been made, the ceiling would have been passed before.
  cases analysed : HeapAnalysis.ofGraph graph { options with maxGraphBytes := limit } with
  | error fault => exact ⟨fault, rfl⟩
  | ok analysis =>
    have passed := checkCeiling_of_ofGraph accepted analysed
    rw [refused] at passed
    cases passed

/-- The snapshot of the ring is plain; it is counted, refused for one byte, and loaded without a
limit. -/
theorem ring_early_check :
    decode (encode Columns.ring.resolved) = .ok Columns.ring.resolved ∧
    peek (encode Columns.ring.resolved) = .ok Columns.ring.resolved.counts ∧
    (∃ fault, HeapAnalysis.ofGraph Columns.ring.resolved { AnalysisOptions.standard with
      maxGraphBytes := 1 } = .error fault) ∧
    Zstd.sniff (encode Columns.ring.resolved) = .plain ∧
    ∀ unframe, ∃ handle next, SnapshotCache.load unframe .standard "ring"
      (MemorySource.empty.insert "ring" ⟨encode Columns.ring.resolved, none⟩, #[]) =
        (.ok handle, next) := by
  have accepted := decode_of_made HeapGraph.made_ring length_encode_ring
  obtain ⟨counts, _, refused, loaded⟩ := early_check (encode Columns.ring.resolved)
  -- A ceiling of one byte is below what the ring takes.
  have tooLarge : checkCeiling Columns.ring.resolved.counts.requiredBytes 1 =
      .error (.tooLarge Columns.ring.resolved.counts.requiredBytes 1) := by
    decide +kernel
  have plain : Zstd.sniff (encode Columns.ring.resolved) = .plain := by
    decide +kernel
  have fetched := MemorySource.fetch_insert .empty "ring" ⟨encode Columns.ring.resolved, none⟩ rfl
  refine ⟨accepted, counts _ accepted,
    refused _ _ .standard 1 _ accepted (counts _ accepted) tooLarge, plain, fun unframe => ?_⟩
  exact (loaded plain unframe _ _ _ "ring" none _ _ (Prod.ext fetched rfl)).mpr
    ⟨_, _, accepted, rfl⟩

end Snapshot

end HeapAtlas
