import HeapAtlas.Proofs.Ranking.Covers
import HeapAtlas.Proofs.Scan.Chunks

/-! A chunk is scanned up to the first look that tells to stop, and as a whole if none does. -/

namespace HeapAtlas.RankingIndex

variable (graph : HeapGraph) (sizes : RetainedSizes)

/-- A look at the signal leaves it as it is, or tells to stop and leaves it up. -/
theorem check_cases (signal : StopSignal) (now : Instant) :
    signal.check now = (false, signal) ∨ signal.check now = (true, signal.raise) := by
  rcases signal with ⟨raised, deadline⟩
  -- The deadline is only looked at while the signal is down.
  cases raised with
  | true => exact .inr rfl
  | false =>
    rw [StopSignal.check]
    cases deadline.expired now with
    | true => exact .inr rfl
    | false => exact .inl rfl

/-- Some of the objects are taken from the first on, and all of them unless the signal goes up. -/
theorem exists_scanFrom (topK : Nat) (clock : Nat → Instant) (taken : Nat) (slots : List Slot)
    (parts : Std.HashMap Slot ClassPart) (signal : StopSignal) :
    ∃ count, (scanFrom graph sizes topK clock taken slots parts signal).1 =
        (slots.take count).foldl (intoParts graph sizes topK) parts ∧
      ((scanFrom graph sizes topK clock taken slots parts signal).2 = signal ∧
          slots.take count = slots ∨
        (scanFrom graph sizes topK clock taken slots parts signal).2 = signal.raise) := by
  -- The induction is on the objects to come; before some of them the signal is looked at.
  induction slots generalizing taken parts with
  | nil => exact ⟨0, rfl, .inl ⟨rfl, rfl⟩⟩
  | cons slot slots ih =>
    obtain ⟨count, found, left⟩ := ih (taken + 1) (intoParts graph sizes topK parts slot)
    have onward : scanFrom graph sizes topK clock (taken + 1) slots
        (intoParts graph sizes topK parts slot) signal =
          scanFrom graph sizes topK clock taken (slot :: slots) parts signal ∨
        scanFrom graph sizes topK clock taken (slot :: slots) parts signal =
          (parts, signal.raise) := by
      rw [scanFrom]
      split
      next stop later look =>
        split at look
        · rcases check_cases signal (clock taken) with down | up
          · rw [down] at look
            cases look
            exact .inl rfl
          · rw [up] at look
            cases look
            exact .inr rfl
        · cases look
          exact .inl rfl
    rcases onward with same | stopped
    · rw [← same]
      refine ⟨count + 1, found, left.imp_left fun both => ⟨both.1, ?_⟩⟩
      rw [List.take_succ_cons, both.2]
    · rw [stopped]
      exact ⟨0, rfl, .inr rfl⟩

/-- At a reading at which a look tells nothing, all objects are taken. -/
theorem scanFrom_quiet (topK : Nat) {now : Instant} {signal : StopSignal}
    (down : signal.check now = (false, signal)) (taken : Nat) (slots : List Slot)
    (parts : Std.HashMap Slot ClassPart) :
    scanFrom graph sizes topK (fun _ => now) taken slots parts signal =
      (slots.foldl (intoParts graph sizes topK) parts, signal) := by
  induction slots generalizing taken parts with
  | nil => rfl
  | cons slot slots ih =>
    -- Looking and not looking come to the same here.
    rw [scanFrom, down, ite_self]
    exact ih (taken + 1) _

/-- At one reading of the clock a scan finds all of every chunk that it takes. -/
theorem run_scanChunk (options : IndexOptions) (deadline : Deadline) (now : Instant) :
    Scan.run graph.objectCount options.chunkSize options.workers deadline now
        (scanChunk graph sizes options.topK fun _ => now) =
      Scan.runPure graph.objectCount options.chunkSize options.workers deadline now
        fun chunk => partsOf graph sizes options.topK chunk.positions := by
  cases come : deadline.expired now with
  | true => rw [Scan.run_late come, Scan.runPure_late come]
  | false =>
    -- The look before the first chunk told that the deadline has not come.
    have down := Scan.check_early come
    have whole (chunk : Chunk) : scanChunk graph sizes options.topK (fun _ => now) chunk
        (.ofDeadline deadline) = (partsOf graph sizes options.topK chunk.positions,
          .ofDeadline deadline) := scanFrom_quiet graph sizes options.topK down 0 _ ∅
    rw [Scan.runPure, Scan.run_eq_workOff, Scan.run_eq_workOff,
      Scan.workOff_quiet down _ _ fun _ _ _ => by rw [whole],
      Scan.workOff_quiet down _ _ fun _ _ _ => rfl]
    simp only [whole]

/-- The index for which no chunk was looked at. -/
def bare (options : IndexOptions) : RankingIndex := ofParts graph options.topK []

/-- A bare index covers no object. -/
theorem covers_bare (options : IndexOptions) : Covers graph sizes (bare graph options) [] :=
  covers_ofParts graph sizes options.topK []

/-- The index that is made of all chunks. -/
def whole (options : IndexOptions) : RankingIndex :=
  ofParts graph options.topK (((Scan.chunks graph.objectCount options.chunkSize).map
    (·.2.positions)).map (partsOf graph sizes options.topK))

/-- The index of all chunks covers all objects. -/
theorem covers_whole (options : IndexOptions) :
    Covers graph sizes (whole graph sizes options) (List.range graph.objectCount) := by
  have covers := covers_ofParts graph sizes options.topK
    ((Scan.chunks graph.objectCount options.chunkSize).map (·.2.positions))
  rwa [← List.flatMap_def, Scan.flatMap_positions] at covers

/-- Before its deadline an index is built of all chunks. -/
theorem build_early (options : IndexOptions) {deadline : Deadline} {now : Instant}
    (early : deadline.expired now = false) :
    build graph sizes options deadline now = ⟨whole graph sizes options, true⟩ := by
  rw [build, run_scanChunk, Scan.runPure_early early, whole]
  simp only [List.map_map]
  rfl

/-- Without a deadline an index is built of all chunks. -/
theorem build_never (options : IndexOptions) (now : Instant) :
    build graph sizes options .never now = ⟨whole graph sizes options, true⟩ :=
  build_early graph sizes options rfl

/-- Behind its deadline an index is bare, and complete only if there is no object. -/
theorem build_late (options : IndexOptions) {deadline : Deadline} {now : Instant}
    (late : deadline.expired now = true) :
    build graph sizes options deadline now =
      ⟨bare graph options, decide (graph.objectCount = 0)⟩ := by
  rw [build, Scan.run_late late]
  rfl

end HeapAtlas.RankingIndex
