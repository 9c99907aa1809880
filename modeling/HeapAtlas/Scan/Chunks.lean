import HeapAtlas.Scan.Deadline

/-! Scans over a range in chunks that workers take in order, with an early end on a signal. -/

namespace HeapAtlas

/-- Positions from `start` up to `stop`, the latter excluded. -/
structure Chunk where
  start : Nat
  stop : Nat
  deriving DecidableEq, Repr, Inhabited

/-- The positions of a chunk, ascending. -/
def Chunk.positions (chunk : Chunk) : List Nat :=
  List.range' chunk.start (chunk.stop - chunk.start)

namespace Scan

/-- Number of chunks that cover `total` positions; chunks hold at least one. -/
def chunkCount (total size : Nat) : Nat := (total + (max size 1 - 1)) / max size 1

/-- The chunk at an index, the last one cut off at `total`. -/
def chunkAt (total size index : Nat) : Chunk :=
  ⟨index * max size 1, min (index * max size 1 + max size 1) total⟩

/-- The chunks that cover `total` positions, each with its index. -/
def chunks (total size : Nat) : List (Nat × Chunk) :=
  (List.range (chunkCount total size)).map fun index => (index, chunkAt total size index)

/-- Results of the chunks that were worked on, and whether that was all of them undisturbed. -/
structure Outcome (α : Type) where
  parts : List (Nat × α)
  complete : Bool
  deriving DecidableEq, Repr

/--
Works chunks off one after another until the signal is up: `left` of them, from an index on.

A chunk that is being worked on when the signal goes up keeps its result, but the scan then counts
as incomplete. Chunks after it are not even cut.
-/
def workOff {α : Type} (now : Instant) (cut : (index : Nat) → Chunk)
    (work : Chunk → StopSignal → α × StopSignal) :
    (left index : Nat) → StopSignal → Outcome α
  | 0, _, _ => ⟨[], true⟩
  | left + 1, index, signal =>
    let (stop, signal) := signal.check now
    if stop then ⟨[], false⟩
    else
      -- The work itself may raise the signal, which is seen after it.
      let (value, signal) := work (cut index) signal
      let outcome := workOff now cut work left (index + 1) signal
      ⟨(index, value) :: outcome.parts, outcome.complete && !signal.raised⟩

/-- The results as the workers hold them, who take chunks in turn and keep what they took. -/
def dealt {α : Type} (workers : Nat) (parts : List (Nat × α)) : List (Nat × α) :=
  (List.range workers).flatMap fun worker => parts.filter fun part => part.1 % workers = worker

/-- The number of workers that a scan of `count` chunks employs. -/
def crew (workers count : Nat) : Nat := max 1 (min workers count)

/-- Works on all chunks and puts the workers' results back into the order of the chunks. -/
def run {α : Type} (total size workers : Nat) (deadline : Deadline) (now : Instant)
    (work : Chunk → StopSignal → α × StopSignal) : Outcome α :=
  let count := chunkCount total size
  let outcome := workOff now (chunkAt total size) work count 0 (.ofDeadline deadline)
  let held := dealt (crew workers count) outcome.parts
  -- Whoever took a chunk, its result goes back to the place of the chunk.
  { outcome with parts := held.mergeSort fun one other => one.1 ≤ other.1 }

/-- A scan whose work does not look at the signal. -/
def runPure {α : Type} (total size workers : Nat) (deadline : Deadline) (now : Instant)
    (work : Chunk → α) : Outcome α :=
  run total size workers deadline now fun chunk signal => (work chunk, signal)

end Scan

end HeapAtlas
