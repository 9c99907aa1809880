import HeapAtlas.Proofs.Scan.Team
import HeapAtlas.Scan.Words

/-! Scans of fewer than two to the power of 32 positions, in which every number is a word. -/

namespace HeapAtlas.Scan

variable {α : Type} {total size index : Nat}

/-- A number that fits is a word. -/
theorem word?_eq_some {n : Nat} (fits : n ≤ wordMax) : word? n = some n := if_pos fits

/-- The number of chunks fits when the positions do. -/
theorem chunkCountInWords?_eq (small : total < 2 ^ 32) (size : Nat) :
    chunkCountInWords? total size = some (chunkCount total size) := by
  have fewer := Nat.div_le_self total (max size 1)
  have limit : wordMax = 2 ^ 64 - 1 := rfl
  rw [chunkCountInWords?, chunkCount_eq]
  -- Rounding up adds one to a quotient that is no larger than the total.
  split
  · rfl
  · exact word?_eq_some (by omega)

/-- Where a chunk begins and where it would stop fits, however long chunks should be. -/
theorem chunkAtInWords?_eq (small : total < 2 ^ 32) (word : size ≤ wordMax)
    (within : index < chunkCount total size) :
    chunkAtInWords? total size index = some (chunkAt total size index) := by
  have begins := mul_lt_of_lt_chunkCount within
  have limit : wordMax = 2 ^ 64 - 1 := rfl
  -- The first chunk may be longer than all positions; others are as long as some positions.
  have stops : index * max size 1 + max size 1 ≤ wordMax := by
    cases index with
    | zero => omega
    | succ before =>
      have one := Nat.le_mul_of_pos_left (max size 1) (show 0 < before + 1 by omega)
      omega
  rw [chunkAtInWords?, word?_eq_some (by omega), Option.bind_eq_bind, Option.bind_some,
    word?_eq_some stops]
  rfl

namespace Plan

variable {plan : Plan α} {team : Team α}

/-- A turn in words is a turn, whatever turns were taken before. -/
theorem Accounted.turnInWords?_eq (accounted : plan.Accounted team) (small : plan.total < 2 ^ 32)
    (word : plan.size ≤ wordMax) {worker : Worker α} (member : worker ∈ team.workers)
    (now : Instant) :
    plan.turnInWords? now team.board worker = some (plan.turn now team.board worker) := by
  have chunks : plan.count ≤ plan.total := chunkCount_le plan.total plan.size
  have limit : wordMax = 2 ^ 64 - 1 := rfl
  rcases worker with ⟨task, kept⟩
  cases task with
  | claim =>
    -- The counter goes beyond the chunks, but by no more than there are workers.
    have fits := accounted.next_le
    rw [Scan.crew] at fits
    simp only [turnInWords?, word?_eq_some (show team.board.next + 1 ≤ wordMax by omega)]
    rfl
  | work index =>
    have within := accounted.lt_count member rfl
    simp only [turnInWords?, chunkAtInWords?_eq small word within]
    rfl
  | count =>
    have fits := accounted.done_le
    simp only [turnInWords?, word?_eq_some (show team.board.done + 1 ≤ wordMax by omega)]
    rfl
  | look | note | gone => rfl

/-- Whether no number of a scan overflows: words give its number of chunks and all its turns. -/
def InWords (plan : Plan α) : Prop :=
  chunkCountInWords? plan.total plan.size = some plan.count ∧
    ∀ team, plan.Reachable team → ∀ worker ∈ team.workers, ∀ now,
      plan.turnInWords? now team.board worker = some (plan.turn now team.board worker)

/-- No number of a scan overflows. -/
theorem inWords (small : plan.total < 2 ^ 32) (word : plan.size ≤ wordMax) : plan.InWords :=
  ⟨chunkCountInWords?_eq small plan.size, fun _ reachable _ member now =>
    reachable.accounted.turnInWords?_eq small word member now⟩

end Plan

end HeapAtlas.Scan
