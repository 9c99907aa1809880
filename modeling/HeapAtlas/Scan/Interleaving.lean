import HeapAtlas.Scan.Chunks

/-! Workers who take the chunks of a scan side by side, in every order of their turns. -/

namespace HeapAtlas.Scan

variable {α : Type}

/-- A scan to be made between two readings of the clock, with work that can raise the signal but do
nothing else to it. -/
structure Plan (α : Type) where
  total : Nat
  size : Nat
  workers : Nat
  deadline : Deadline
  began : Instant
  ended : Instant
  began_le_ended : began ≤ ended
  work : Chunk → StopSignal → α × StopSignal
  raises : ∀ chunk signal, (work chunk signal).2 = signal ∨ (work chunk signal).2 = signal.raise

/-- What a worker does next. -/
inductive Task where
  /-- Looks whether work has to stop. -/
  | look
  /-- Takes the next chunk, if there is one. -/
  | claim
  /-- Works on the chunk at an index. -/
  | work (index : Nat)
  /-- Counts the chunk as worked on. -/
  | count
  /-- Notes whether the signal was up by then. -/
  | note
  /-- Nothing more. -/
  | gone
  deriving DecidableEq, Repr

/-- A worker, with the results that it keeps. -/
structure Worker (α : Type) where
  task : Task
  kept : List (Nat × α)
  deriving Repr

/-- What the workers share: the signal, the next chunk, the chunks worked on, and the note. -/
structure Board where
  signal : StopSignal
  next : Nat
  done : Nat
  truncated : Bool
  deriving DecidableEq, Repr

/-- The workers of a scan and what they share. -/
structure Team (α : Type) where
  board : Board
  workers : List (Worker α)
  deriving Repr

namespace Plan

/-- The number of chunks. -/
def count (plan : Plan α) : Nat := chunkCount plan.total plan.size

/-- The chunk at an index. -/
def cut (plan : Plan α) (index : Nat) : Chunk := chunkAt plan.total plan.size index

/-- What the scan gives when the chunks are worked off one after another. -/
def run (plan : Plan α) : Outcome α :=
  Scan.run plan.total plan.size plan.workers plan.deadline plan.began plan.work

/-- The turn of a worker: what becomes of the board and of the worker. -/
def turn (plan : Plan α) (now : Instant) (board : Board) (worker : Worker α) : Board × Worker α :=
  match worker.task with
  | .look =>
    let looked := board.signal.check now
    ({ board with signal := looked.2 },
      { worker with task := if looked.1 then .gone else .claim })
  | .claim =>
    -- The counter goes up for a chunk that does not exist as well.
    ({ board with next := board.next + 1 },
      { worker with task := if board.next < plan.count then .work board.next else .gone })
  | .work index =>
    let worked := plan.work (plan.cut index) board.signal
    ({ board with signal := worked.2 }, ⟨.count, worker.kept ++ [(index, worked.1)]⟩)
  | .count => ({ board with done := board.done + 1 }, { worker with task := .note })
  | .note =>
    ({ board with truncated := board.truncated || board.signal.raised },
      { worker with task := .look })
  | .gone => (board, worker)

/-- The team before anyone's first turn. -/
def start (plan : Plan α) : Team α :=
  ⟨⟨.ofDeadline plan.deadline, 0, 0, false⟩,
    List.replicate (crew plan.workers plan.count) ⟨.look, []⟩⟩

/-- Someone who has not gone takes a turn, at any time while the scan goes on. -/
inductive Step (plan : Plan α) : Team α → Team α → Prop where
  | turn {board : Board} {worker : Worker α} {now : Instant} (before after : List (Worker α))
      (present : worker.task ≠ .gone) (since : plan.began ≤ now) (still : now ≤ plan.ended) :
      Step plan ⟨board, before ++ worker :: after⟩
        ⟨(plan.turn now board worker).1, before ++ (plan.turn now board worker).2 :: after⟩

/-- The teams that turns lead to. -/
inductive Reachable (plan : Plan α) : Team α → Prop where
  | start : Reachable plan plan.start
  | step {team next : Team α} : Reachable plan team → Step plan team next → Reachable plan next

/-- The results of all workers in the order of the chunks, and whether none of the chunks is missing
or was disturbed. -/
def outcome (plan : Plan α) (team : Team α) : Outcome α :=
  ⟨(team.workers.flatMap (·.kept)).mergeSort fun one other => one.1 ≤ other.1,
    team.board.done = plan.count && !team.board.truncated⟩

/-- Whether some order of turns, with which everyone is gone in the end, gives an outcome. -/
def Yields (plan : Plan α) (outcome : Outcome α) : Prop :=
  ∃ team, plan.Reachable team ∧ (∀ worker ∈ team.workers, worker.task = .gone) ∧
    plan.outcome team = outcome

end Plan

end HeapAtlas.Scan
