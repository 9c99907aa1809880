import HeapAtlas.Capped
import HeapAtlas.Scan.Interleaving

/-! Scans whose numbers are 64-bit words: none where a number on the way does not fit into one. -/

namespace HeapAtlas.Scan

/-- A number as a word. -/
def word? (n : Nat) : Option Nat := if n ≤ wordMax then some n else none

/-- Number of chunks, as a quotient that is rounded up. -/
def chunkCountInWords? (total size : Nat) : Option Nat :=
  let quotient := total / max size 1
  if total % max size 1 = 0 then some quotient else word? (quotient + 1)

/-- The chunk at an index. -/
def chunkAtInWords? (total size index : Nat) : Option Chunk := do
  let start ← word? (index * max size 1)
  -- The stop is worked out before it is cut off, and so may be beyond the positions.
  let stop ← word? (start + max size 1)
  return ⟨start, min stop total⟩

/-- The turn of a worker. -/
def Plan.turnInWords? {α : Type} (plan : Plan α) (now : Instant) (board : Board)
    (worker : Worker α) : Option (Board × Worker α) :=
  -- Only these three turns compute; the others are those of the exact scan.
  match worker.task with
  | .claim => do
    let next ← word? (board.next + 1)
    return ({ board with next },
      { worker with task := if board.next < plan.count then .work board.next else .gone })
  | .work index => do
    let chunk ← chunkAtInWords? plan.total plan.size index
    let worked := plan.work chunk board.signal
    return ({ board with signal := worked.2 }, ⟨.count, worker.kept ++ [(index, worked.1)]⟩)
  | .count => do
    let done ← word? (board.done + 1)
    return ({ board with done }, { worker with task := .note })
  | .look | .note | .gone => some (plan.turn now board worker)

end HeapAtlas.Scan
