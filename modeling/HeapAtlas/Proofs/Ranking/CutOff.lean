import Mathlib.Data.List.Forall2
import Mathlib.Tactic.Choose
import HeapAtlas.Proofs.Ranking.ByTotal
import HeapAtlas.Proofs.Scan.Records

/-! An index whose scan ends anywhere, in whatever order its workers take their turns. -/

namespace HeapAtlas.RankingIndex

variable (graph : HeapGraph) (sizes : RetainedSizes) (options : IndexOptions)

/-- When a scan goes on: between two readings of the clock, with the readings within each chunk. -/
structure Timing where
  began : Instant
  ended : Instant
  began_le_ended : began ≤ ended
  clock : (start : Nat) → Nat → Instant

/-- The scan for an index, whose workers look at the signal also within chunks. -/
def scan (deadline : Deadline) (timing : Timing) : Scan.Plan (Std.HashMap Slot ClassPart) where
  total := graph.objectCount
  size := options.chunkSize
  workers := options.workers
  deadline := deadline
  began := timing.began
  ended := timing.ended
  began_le_ended := timing.began_le_ended
  work chunk := scanChunk graph sizes options.topK (timing.clock chunk.start) chunk
  -- A chunk leaves the signal as it was or puts it up.
  raises chunk signal := by
    obtain ⟨_, _, left⟩ := exists_scanFrom graph sizes options.topK (timing.clock chunk.start) 0
      chunk.positions ∅ signal
    exact left.imp_left And.left

/-- The index that a scan gives. -/
def ofScan (outcome : Scan.Outcome (Std.HashMap Slot ClassPart)) : Outcome RankingIndex :=
  ⟨ofParts graph options.topK (outcome.parts.map (·.2)), outcome.complete⟩

/-- At one reading of the clock, the index is that of the chunks worked off one after another. -/
theorem build_eq_ofScan (deadline : Deadline) (now : Instant) :
    build graph sizes options deadline now = ofScan graph options
      (scan graph sizes options deadline ⟨now, now, Nat.le_refl now, fun _ _ => now⟩).run := rfl

/-- Objects that a scan comes to before it is cut off: beginnings of the chunks in front. -/
def Scanned (slots : List Slot) : Prop :=
  ∃ count ≤ Scan.chunkCount graph.objectCount options.chunkSize, ∃ slotLists : List (List Slot),
    List.Forall₂ (fun index beginning =>
        beginning <+: (Scan.chunkAt graph.objectCount options.chunkSize index).positions)
      (List.range count) slotLists ∧
    slots = slotLists.flatten

variable {graph sizes options} {deadline : Deadline} {timing : Timing}

/-- A result of a scan is what was found in the beginning of its chunk, or in all of the chunk. -/
theorem exists_beginning {outcome : Scan.Outcome (Std.HashMap Slot ClassPart)}
    (yields : (scan graph sizes options deadline timing).Yields outcome) :
    ∀ part ∈ outcome.parts, ∃ beginning,
      beginning <+: (Scan.chunkAt graph.objectCount options.chunkSize part.1).positions ∧
      part.2 = partsOf graph sizes options.topK beginning ∧
      (outcome.complete = true →
        beginning = (Scan.chunkAt graph.objectCount options.chunkSize part.1).positions) := by
  intro part member
  obtain ⟨signal, same, quiet⟩ := yields.recorded.2 part member
  obtain ⟨count, found, left⟩ := exists_scanFrom graph sizes options.topK
    (timing.clock (Scan.chunkAt graph.objectCount options.chunkSize part.1).start) 0
    (Scan.chunkAt graph.objectCount options.chunkSize part.1).positions ∅ signal
  refine ⟨_, List.take_prefix count _, same.trans found, fun complete => ?_⟩
  -- Work that left something out has raised the signal.
  rcases left with ⟨-, all⟩ | raised
  · exact all
  · have down := quiet complete
    have up : signal.raise.raised = false := raised ▸ down
    cases up

/--
An index covers what was scanned, whenever and wherever its scan was ended.

It covers the beginnings of the chunks in front, and all objects if it counts as complete: then it
is the index that is built without a deadline.
-/
theorem exists_covers_of_yields {outcome : Scan.Outcome (Std.HashMap Slot ClassPart)}
    (yields : (scan graph sizes options deadline timing).Yields outcome) :
    (∃ slots, Scanned graph options slots ∧
      Covers graph sizes (ofScan graph options outcome).value slots) ∧
    (outcome.complete = true →
      ofScan graph options outcome = build graph sizes options .never 0) := by
  obtain ⟨⟨count, few, numbered, all⟩, -⟩ := yields.recorded
  choose! beginningOf begins found whole_ using exists_beginning yields
  have parts : outcome.parts.map (·.2) =
      (outcome.parts.map beginningOf).map (partsOf graph sizes options.topK) := by
    rw [List.map_map]
    exact List.map_congr_left found
  refine ⟨⟨_, ⟨count, few, outcome.parts.map beginningOf, ?_, rfl⟩, ?_⟩, fun complete => ?_⟩
  · rw [← numbered, List.forall₂_map_left_iff, List.forall₂_map_right_iff, List.forall₂_same]
    exact begins
  · rw [ofScan, parts]
    exact covers_ofParts graph sizes options.topK _
  · -- All chunks are there, and each of them as a whole.
    have lists : outcome.parts.map beginningOf =
        (Scan.chunks graph.objectCount options.chunkSize).map (·.2.positions) := by
      have every : count = Scan.chunkCount graph.objectCount options.chunkSize := all complete
      rw [Scan.chunks, ← every, ← numbered, List.map_map, List.map_map]
      exact List.map_congr_left fun part member => whole_ part member complete
    rw [build_never, ofScan, parts, lists, complete]
    rfl

/-- What was scanned are objects of the heap, each of them once, in their order. -/
theorem Scanned.sublist {slots : List Slot} (scanned : Scanned graph options slots) :
    slots.Sublist (List.range graph.objectCount) := by
  obtain ⟨count, few, slotLists, begin_, rfl⟩ := scanned
  have front : slotLists.flatten.Sublist ((List.range count).flatMap fun index =>
      (Scan.chunkAt graph.objectCount options.chunkSize index).positions) := by
    -- The induction is on the chunks in front, along with their beginnings.
    generalize List.range count = indices at begin_
    induction begin_ with
    | nil => exact .slnil
    | cons beginning _ ih =>
      rw [List.flatten_cons, List.flatMap_cons]
      exact beginning.sublist.append ih
  rw [Scan.flatMap_positions_range] at front
  exact front.trans (List.range_sublist.mpr (Nat.min_le_right _ _))

/-- A cut-off index lists the names that have instances among what was scanned, with the totals of
these. -/
theorem totals_of_yields (made : graph.Made)
    {outcome : Scan.Outcome (Std.HashMap Slot ClassPart)}
    (yields : (scan graph sizes options deadline timing).Yields outcome) :
    ∃ slots, Scanned graph options slots ∧ ∀ name summary,
      (name, summary) ∈ (ofScan graph options outcome).value.totalsByName graph ↔
        instancesOfName graph name slots ≠ [] ∧
          summary = totalsOf graph sizes (instancesOfName graph name slots) := by
  -- What the index covers is some of the objects; its totals are told of those alone.
  obtain ⟨⟨slots, scanned, covers⟩, -⟩ := exists_covers_of_yields yields
  exact ⟨slots, scanned, mem_totalsByName_iff made covers fun slot member =>
    List.mem_range.mp (scanned.sublist.subset member)⟩

end HeapAtlas.RankingIndex
