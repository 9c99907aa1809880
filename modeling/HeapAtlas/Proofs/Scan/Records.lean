import HeapAtlas.Proofs.Scan.Team

/-! What workers keep is what their work gave, and no complete scan was disturbed at it. -/

namespace HeapAtlas.Scan.Plan

variable {α : Type} {plan : Plan α} {team next : Team α}

/--
A result that a worker keeps is what its work gave, at some signal.

Work that raised the signal has been noted, or is about to be.
-/
def Recorded (plan : Plan α) (board : Board) (task : Task) (part : Nat × α) : Prop :=
  ∃ signal, part.2 = (plan.work (plan.cut part.1) signal).1 ∧
    ((plan.work (plan.cut part.1) signal).2.raised = true → board.truncated = true ∨
      board.signal.raised = true ∧ (task = .count ∨ task = .note))

/-- A note that was made is never taken back. -/
theorem truncated_turn {now : Instant} {board : Board} {worker : Worker α}
    (noted : board.truncated = true) : (plan.turn now board worker).1.truncated = true := by
  rcases worker with ⟨task, kept⟩
  cases task with
  | note => simp [turn, noted]
  | look | claim | work index | count | gone => exact noted

/-- What one worker keeps stays on record while another one has a turn. -/
theorem Recorded.turn {now : Instant} {board : Board} {worker : Worker α} {task : Task}
    {part : Nat × α} (recorded : plan.Recorded board task part) :
    plan.Recorded (plan.turn now board worker).1 task part := by
  obtain ⟨signal, same, noted⟩ := recorded
  refine ⟨signal, same, fun up => (noted up).imp truncated_turn ?_⟩
  exact fun both => ⟨raised_turn plan now board worker both.1, both.2⟩

/-- A worker's own turn keeps its results on record, and puts a new one there. -/
theorem recorded_turn {now : Instant} {board : Board} {worker : Worker α}
    (recorded : ∀ part ∈ worker.kept, plan.Recorded board worker.task part) :
    ∀ part ∈ (plan.turn now board worker).2.kept,
      plan.Recorded (plan.turn now board worker).1 (plan.turn now board worker).2.task part := by
  rcases worker with ⟨task, kept⟩
  -- Only between the count and the note is there something to be noted yet.
  cases task with
  | look | claim | gone =>
    intro part held
    obtain ⟨signal, same, noted⟩ := recorded part held
    exact ⟨signal, same, fun up => .inl ((noted up).resolve_right (by simp))⟩
  | work index =>
    simp only [turn, List.forall_mem_append, List.forall_mem_singleton]
    refine ⟨fun part held => ?_, board.signal, rfl, fun up => .inr ⟨up, .inl rfl⟩⟩
    obtain ⟨signal, same, noted⟩ := recorded part held
    exact ⟨signal, same, fun up => .inl ((noted up).resolve_right (by simp))⟩
  | count =>
    intro part held
    obtain ⟨signal, same, noted⟩ := recorded part held
    exact ⟨signal, same, fun up => (noted up).imp_right fun both => ⟨both.1, .inr rfl⟩⟩
  | note =>
    intro part held
    obtain ⟨signal, same, noted⟩ := recorded part held
    refine ⟨signal, same, fun up => .inl ?_⟩
    rcases noted up with before | ⟨raised, -⟩
    · simp [turn, before]
    · simp [turn, raised]

/-- Whatever turns are taken, all results are on record. -/
theorem Reachable.recorded (reachable : plan.Reachable team) :
    ∀ worker ∈ team.workers, ∀ part ∈ worker.kept,
      plan.Recorded team.board worker.task part := by
  induction reachable with
  | start =>
    intro worker member part held
    obtain ⟨-, rfl⟩ := List.mem_replicate.mp member
    cases held
  | step _ step recorded =>
    -- The worker whose turn it is records its own part, and the others keep theirs.
    cases step with
    | @turn board worker now before after present since still =>
      simp only [List.forall_mem_append, List.forall_mem_cons] at recorded ⊢
      exact ⟨fun other member part held => (recorded.1 other member part held).turn,
        recorded_turn recorded.2.1,
        fun other member part held => (recorded.2.2 other member part held).turn⟩

/--
A scan gives results of the chunks in front, each of which is what the work on its chunk gave.

A scan that counts as complete gives one of every chunk, and no work raised the signal.
-/
theorem Yields.recorded {outcome : Outcome α} (yields : plan.Yields outcome) :
    (∃ count ≤ plan.count, outcome.parts.map (·.1) = List.range count ∧
      (outcome.complete = true → count = plan.count)) ∧
    ∀ part ∈ outcome.parts, ∃ signal, part.2 = (plan.work (plan.cut part.1) signal).1 ∧
      (outcome.complete = true → (plan.work (plan.cut part.1) signal).2.raised = false) := by
  obtain ⟨team, reachable, finished, rfl⟩ := yields
  have accounted := reachable.accounted
  have completed : (plan.outcome team).complete = true →
      team.board.done = plan.count ∧ team.board.truncated = false := by
    rw [Plan.outcome, Bool.and_eq_true, decide_eq_true_eq, Bool.not_eq_true']
    exact id
  refine ⟨⟨team.board.done, accounted.done_le, accounted.map_fst_parts finished,
    fun complete => (completed complete).1⟩, fun part member => ?_⟩
  obtain ⟨worker, employed, held⟩ := List.mem_flatMap.mp (List.mem_mergeSort.mp member)
  obtain ⟨signal, same, noted⟩ := reachable.recorded worker employed part held
  refine ⟨signal, same, fun complete => Bool.not_eq_true _ ▸ fun up => ?_⟩
  -- Everyone is gone, so that what was to be noted is noted.
  have gone := finished worker employed
  have truncated := (noted up).resolve_right (by simp [gone])
  rw [(completed complete).2] at truncated
  cases truncated

end HeapAtlas.Scan.Plan
