import HeapAtlas.Proofs.Scan.Team

/-! A worker alone does what working the chunks off one after another does. -/

namespace HeapAtlas.Scan.Plan

variable {α : Type}

/-- What the chunks from an index on give. -/
def rest (plan : Plan α) (signal : StopSignal) (next : Nat) : Outcome α :=
  workOff plan.began plan.cut plan.work (plan.count - next) next signal

/-- What a chunk gives, and then those from an index on. -/
def onward (plan : Plan α) (signal : StopSignal) (index next : Nat) : Outcome α :=
  let worked := plan.work (plan.cut index) signal
  let outcome := plan.rest worked.2 next
  ⟨(index, worked.1) :: outcome.parts, outcome.complete && !worked.2.raised⟩

/-- What a worker alone is still going to give. -/
def ahead (plan : Plan α) (board : Board) : Task → Outcome α
  | .look => plan.rest board.signal board.next
  | .claim =>
    if board.next < plan.count then plan.onward board.signal board.next (board.next + 1)
    else ⟨[], true⟩
  | .work index => plan.onward board.signal index board.next
  | .count | .note =>
    let outcome := plan.rest board.signal board.next
    { outcome with complete := outcome.complete && !board.signal.raised }
  | .gone => ⟨[], board.done = plan.count⟩

/-- What a worker alone is going to give together with what it has. -/
def foreseen (plan : Plan α) (board : Board) (worker : Worker α) : Outcome α :=
  let outcome := plan.ahead board worker.task
  ⟨worker.kept ++ outcome.parts, outcome.complete && !board.truncated⟩

/-- Nothing of how workers share chunks is left in what the scan gives. -/
theorem run_eq (plan : Plan α) :
    plan.run = workOff plan.began plan.cut plan.work plan.count 0 (.ofDeadline plan.deadline) :=
  run_eq_workOff ..

/-- The next chunk is worked on, unless work has to stop or no chunk is left. -/
theorem rest_eq (plan : Plan α) (signal : StopSignal) (next : Nat) :
    plan.rest signal next =
      if next < plan.count then
        if (signal.check plan.began).1 then ⟨[], false⟩
        else plan.onward (signal.check plan.began).2 next (next + 1)
      else ⟨[], true⟩ := by
  -- What is left is counted down from the number of chunks.
  by_cases within : next < plan.count
  · have left : plan.count - next = plan.count - (next + 1) + 1 := by omega
    rw [rest, left, workOff, if_pos within]
    rfl
  · rw [rest, Nat.sub_eq_zero_of_le (Nat.le_of_not_lt within), workOff, if_neg within]

variable {plan : Plan α} {board : Board} {worker : Worker α} {now : Instant}

/-- A turn changes nothing in what is foreseen. -/
theorem foreseen_turn (steady : board.signal.check now = board.signal.check plan.began)
    (counts : worker.task = .look ∨ worker.task = .claim →
      board.done = board.next ∧ board.next ≤ plan.count) :
    plan.foreseen (plan.turn now board worker).1 (plan.turn now board worker).2 =
      plan.foreseen board worker := by
  rcases worker with ⟨task, kept⟩
  cases task with
  | look =>
    obtain ⟨done, fits⟩ := counts (.inl rfl)
    simp only [turn, foreseen, ahead, steady, rest_eq plan board.signal board.next]
    cases stop : (board.signal.check plan.began).1 with
    | false => simp
    | true =>
      -- Whoever stops behind the last chunk has missed nothing.
      by_cases within : board.next < plan.count
      · have missing : board.done ≠ plan.count := by omega
        simp [within, missing]
      · have all : board.done = plan.count := by omega
        simp [within, all]
  | claim =>
    obtain ⟨done, fits⟩ := counts (.inr rfl)
    by_cases within : board.next < plan.count
    · simp [turn, foreseen, ahead, within]
    · have all : board.done = plan.count := by omega
      simp [turn, foreseen, ahead, within, all]
  | work index => simp [turn, foreseen, ahead, onward]
  | count => rfl
  | note =>
    -- The note of a raised signal takes the place of the signal that was seen behind the work.
    show (⟨_, _ && !(board.truncated || board.signal.raised)⟩ : Outcome α) = ⟨_, _ && _ && _⟩
    rw [Bool.not_or, Bool.and_comm (!board.truncated), ← Bool.and_assoc]
    rfl
  | gone => rfl

/-- A worker alone that looks for a chunk has counted all chunks that it took. -/
theorem Accounted.counts_alone (accounted : plan.Accounted ⟨board, [worker]⟩)
    (free : worker.task = .look ∨ worker.task = .claim) :
    board.done = board.next ∧ board.next ≤ plan.count := by
  -- Nothing is in hand and nothing waits to be counted, and the counter is not beyond the chunks.
  obtain ⟨inHand, uncounted, present⟩ :
      worker.task.inHand = [] ∧ worker.task ≠ .count ∧ worker.task ≠ .gone := by
    rcases free with task | task <;> simp [task, Task.inHand]
  have taken : worker.kept.length = min board.next plan.count := by
    simpa [Worker.taken, inHand] using accounted.taken.length_eq
  have counted : board.done = worker.kept.length := by
    simpa [uncounted] using accounted.counted
  have beyond : board.next ≤ plan.count := by
    simpa [present] using accounted.beyond
  omega

/-- The scan gives what is foreseen before the first turn. -/
theorem foreseen_start (plan : Plan α) :
    plan.foreseen plan.start.board ⟨.look, []⟩ = plan.run := by
  rw [run_eq]
  show (⟨_, _ && true⟩ : Outcome α) = _
  rw [Bool.and_true]
  rfl

variable {team next : Team α}

/-- One worker is there, of whom what the scan gives is foreseen. -/
def Foresees (plan : Plan α) (team : Team α) : Prop :=
  ∃ worker, team.workers = [worker] ∧ plan.foreseen team.board worker = plan.run

/-- Where one worker is employed, what the scan gives is foreseen from the start. -/
theorem foresees_start (alone : crew plan.workers plan.count = 1) : plan.Foresees plan.start :=
  ⟨⟨.look, []⟩, by rw [Plan.start, alone]; rfl, foreseen_start plan⟩

/-- Every turn leaves foreseen what was, unless the deadline comes in between. -/
theorem Foresees.step (foresees : plan.Foresees team) (accounted : plan.Accounted team)
    (steady : ∀ now, plan.began ≤ now → now ≤ plan.ended →
      plan.deadline.expired now = plan.deadline.expired plan.began)
    (step : plan.Step team next) : plan.Foresees next := by
  obtain ⟨worker, only, same⟩ := foresees
  cases step with
  | @turn board mover now before after present since still =>
    -- Whoever takes the turn is the only worker.
    obtain ⟨rfl, rfl, rfl⟩ : before = [] ∧ mover = worker ∧ after = [] := by
      simpa [List.append_eq_singleton_iff] using only
    have look : board.signal.check now = board.signal.check plan.began := by
      rw [StopSignal.check_eq, StopSignal.check_eq, accounted.bound, steady now since still]
    exact ⟨_, rfl, (foreseen_turn look accounted.counts_alone).trans same⟩

/-- A worker alone gives what the chunks give when they are worked off one after another. -/
theorem yields_alone (plan : Plan α) (alone : crew plan.workers plan.count = 1)
    (steady : ∀ now, plan.began ≤ now → now ≤ plan.ended →
      plan.deadline.expired now = plan.deadline.expired plan.began) {outcome : Outcome α} :
    plan.Yields outcome ↔ outcome = plan.run := by
  refine yields_iff_eq fun team reachable finished => ?_
  have foresees : plan.Foresees team := reachable.always (foresees_start alone)
    fun _ _ accounted step foresees => foresees.step accounted steady step
  obtain ⟨⟨task, kept⟩, only, same⟩ := foresees
  obtain rfl : task = .gone := finished ⟨task, kept⟩ (by simp [only])
  -- Nothing is ahead any more, and what the worker has is in order already.
  rw [foreseen, ahead, List.append_nil] at same
  obtain ⟨count, -, numbered⟩ := map_fst_workOff plan.began plan.cut plan.work plan.count 0
    (.ofDeadline plan.deadline)
  have parts : kept = plan.run.parts := congrArg Outcome.parts same
  have ascend : (kept.map (·.1)).Pairwise (· < ·) := by
    rw [parts, run_eq]
    exact numbered ▸ List.pairwise_lt_range'
  rw [← same, Plan.outcome, only, List.flatMap_singleton, mergeSort_of_perm (.refl kept) ascend]

end HeapAtlas.Scan.Plan
