import Mathlib.Algebra.Ring.Nat
import Mathlib.Data.List.Flatten
import HeapAtlas.Proofs.Scan.Chunks
import HeapAtlas.Scan.Interleaving

/-! Workers side by side: what every turn preserves, whatever the work is, and that turns end. -/

namespace HeapAtlas

/-- A signal is up after a look at it when it was up or its deadline has come. -/
theorem StopSignal.check_eq (signal : StopSignal) (now : Instant) :
    signal.check now = (signal.raised || signal.deadline.expired now,
      ⟨signal.raised || signal.deadline.expired now, signal.deadline⟩) := by
  -- A signal that is up already stays as it is, and the deadline does not count any more.
  rcases signal with ⟨raised, deadline⟩
  cases raised with
  | true => rfl
  | false => cases come : deadline.expired now <;> simp [check, raise, come]

namespace Scan

variable {α : Type}

/-- The chunk that a worker works on next. -/
def Task.inHand : Task → List Nat
  | .work index => [index]
  | look | claim | count | note | gone => []

/-- The chunks that a worker has taken. -/
def Worker.taken (worker : Worker α) : List Nat := worker.kept.map (·.1) ++ worker.task.inHand

namespace Plan

/-- The board tells which chunks are taken and how many are counted; who has gone had a reason. -/
structure Accounted (plan : Plan α) (team : Team α) : Prop where
  bound : team.board.signal.deadline = plan.deadline
  crew : team.workers.length = Scan.crew plan.workers plan.count
  taken : (team.workers.flatMap (·.taken)).Perm (List.range (min team.board.next plan.count))
  counted : team.board.done + team.workers.countP (·.task = .count) =
    (team.workers.flatMap (·.kept)).length
  beyond : team.board.next ≤ plan.count + team.workers.countP (·.task = .gone)
  gone : ∀ worker ∈ team.workers, worker.task = .gone →
    team.board.signal.raised = true ∨ plan.count ≤ team.board.next

/-- Before the first turn nothing is taken, and nobody has gone. -/
theorem accounted_start (plan : Plan α) : plan.Accounted plan.start where
  bound := rfl
  crew := List.length_replicate
  taken := by simp [start, Worker.taken, Task.inHand]
  counted := by simp [start, List.countP_replicate]
  beyond := Nat.zero_le _
  gone worker member left := by
    obtain ⟨-, rfl⟩ := List.mem_replicate.mp member
    cases left

section Turn

variable (plan : Plan α) (now : Instant) (board : Board) (worker : Worker α)

/-- Nobody changes the deadline. -/
theorem deadline_turn : (plan.turn now board worker).1.signal.deadline = board.signal.deadline := by
  rcases worker with ⟨task, kept⟩
  -- Only a look and the work touch the signal, and both can but raise it.
  cases task with
  | look => simp [turn, StopSignal.check_eq]
  | work index =>
    rcases plan.raises (plan.cut index) board.signal with same | raised
    · simp [turn, same]
    · simp [turn, raised, StopSignal.raise]
  | claim | count | note | gone => rfl

/-- Nobody takes the signal down. -/
theorem raised_turn (up : board.signal.raised = true) :
    (plan.turn now board worker).1.signal.raised = true := by
  rcases worker with ⟨task, kept⟩
  cases task with
  | look => simp [turn, StopSignal.check_eq, up]
  | work index =>
    -- The work at a chunk may put the signal up but never takes it down.
    rcases plan.raises (plan.cut index) board.signal with same | raised
    · simp [turn, same, up]
    · simp [turn, raised, StopSignal.raise]
  | claim | count | note | gone => exact up

/-- The counter goes up by the chunk that is taken. -/
theorem taken_turn : ∃ more, (plan.turn now board worker).2.taken = worker.taken ++ more ∧
    List.range (min (plan.turn now board worker).1.next plan.count) =
      List.range (min board.next plan.count) ++ more := by
  rcases worker with ⟨task, kept⟩
  cases task with
  | look =>
    refine ⟨[], ?_, by simp [turn]⟩
    simp only [turn, Worker.taken]
    split <;> simp [Task.inHand]
  | claim =>
    -- Beyond the last chunk the counter goes up for nothing.
    by_cases within : board.next < plan.count
    · refine ⟨[board.next], by simp [turn, Worker.taken, Task.inHand, within], ?_⟩
      simp only [turn]
      rw [Nat.min_eq_left within, Nat.min_eq_left (Nat.le_of_lt within), List.range_succ]
    · refine ⟨[], by simp [turn, Worker.taken, Task.inHand, within], ?_⟩
      simp only [turn]
      rw [Nat.min_eq_right (by omega), Nat.min_eq_right (by omega), List.append_nil]
  -- A chunk that is worked on goes from the hand to the results, and is taken all the same.
  | work index => exact ⟨[], by simp [turn, Worker.taken, Task.inHand], by simp [turn]⟩
  | count | note | gone => exact ⟨[], by simp [turn, Worker.taken, Task.inHand], by simp [turn]⟩

/-- The counter does not go down. -/
theorem next_le_turn : board.next ≤ (plan.turn now board worker).1.next := by
  rcases worker with ⟨task, kept⟩
  cases task with
  | claim => exact Nat.le_succ _
  | look | work index | count | note | gone => exact Nat.le_refl _

/-- A result is counted once it is kept. -/
theorem counted_turn : (plan.turn now board worker).1.done +
      (if (plan.turn now board worker).2.task = .count then 1 else 0) + worker.kept.length =
    board.done + (if worker.task = .count then 1 else 0) +
      (plan.turn now board worker).2.kept.length := by
  rcases worker with ⟨task, kept⟩
  cases task with
  | look => cases stop : (board.signal.check now).1 <;> simp [turn, stop]
  | claim => by_cases within : board.next < plan.count <;> simp [turn, within]
  -- A part that is kept is counted one turn later, which the task of the worker tells.
  | work index =>
    simp only [turn, List.length_append, List.length_singleton, if_true, reduceCtorEq, if_false]
    omega
  | count => simp [turn]
  | note | gone => simp [turn]

/-- Who takes the counter beyond the chunks goes. -/
theorem next_turn : (plan.turn now board worker).1.next ≤ plan.count ∨
    (plan.turn now board worker).1.next + (if worker.task = .gone then 1 else 0) ≤
      board.next + if (plan.turn now board worker).2.task = .gone then 1 else 0 := by
  rcases worker with ⟨task, kept⟩
  cases task with
  | claim =>
    -- Only a claim moves the counter, and beyond the chunks the worker leaves with it.
    by_cases within : board.next < plan.count
    · exact .inl within
    · exact .inr (by simp [turn, within])
  | look | work index | count | note | gone => simp [turn]

/-- Who goes has seen the signal up or no chunk left. -/
theorem gone_turn (present : worker.task ≠ .gone)
    (left : (plan.turn now board worker).2.task = .gone) :
    (plan.turn now board worker).1.signal.raised = true ∨
      plan.count ≤ (plan.turn now board worker).1.next := by
  rcases worker with ⟨task, kept⟩
  -- A worker goes when the signal is up, or when no chunk is left to be claimed.
  cases task with
  | look =>
    cases stop : (board.signal.check now).1 with
    | false => simp [turn, stop] at left
    | true =>
      refine .inl ?_
      rw [StopSignal.check_eq] at stop
      simpa [turn, StopSignal.check_eq] using stop
  | claim =>
    by_cases within : board.next < plan.count
    · simp [turn, within] at left
    · simp only [turn]
      omega
  | work index | count | note => cases left
  | gone => exact absurd rfl present

end Turn

variable {plan : Plan α} {team next : Team α}

/-- Every turn keeps the accounts. -/
theorem Accounted.step (accounted : plan.Accounted team) (step : plan.Step team next) :
    plan.Accounted next := by
  -- Each account is a sum over the workers, of which the turn changes one and keeps the others.
  obtain ⟨bound, crew, taken, counted, beyond, gone⟩ := accounted
  cases step with
  | @turn board worker now before after present since still =>
    simp only [List.flatMap_append, List.flatMap_cons, List.countP_append, List.countP_cons,
      List.length_append, List.length_cons, List.forall_mem_append, List.forall_mem_cons,
      decide_eq_true_eq] at crew taken counted beyond gone
    refine ⟨(deadline_turn plan now board worker).trans bound, ?_, ?_, ?_, ?_, ?_⟩
    · simpa using crew
    · -- What is newly taken stands with its worker here and last in the range there.
      obtain ⟨more, holds, counts⟩ := taken_turn plan now board worker
      simp only [List.flatMap_append, List.flatMap_cons, holds, counts]
      refine .trans ?_ (taken.append_right more)
      simp only [List.append_assoc]
      exact (List.perm_append_comm.append_left _).append_left _
    · have moved := counted_turn plan now board worker
      simp only [List.flatMap_append, List.flatMap_cons, List.countP_append, List.countP_cons,
        List.length_append, decide_eq_true_eq]
      omega
    · have moved := next_turn plan now board worker
      simp only [List.countP_append, List.countP_cons, decide_eq_true_eq]
      omega
    · -- The others have gone for a reason that still holds.
      have still (reason : board.signal.raised = true ∨ plan.count ≤ board.next) :
          (plan.turn now board worker).1.signal.raised = true ∨
            plan.count ≤ (plan.turn now board worker).1.next :=
        reason.imp (raised_turn plan now board worker)
          (Nat.le_trans · (next_le_turn plan now board worker))
      simp only [List.forall_mem_append, List.forall_mem_cons]
      exact ⟨fun other member left => still (gone.1 other member left),
        gone_turn plan now board worker present,
        fun other member left => still (gone.2.2 other member left)⟩

/-- The accounts are right after any turns. -/
theorem Reachable.accounted (reachable : plan.Reachable team) : plan.Accounted team := by
  induction reachable with
  | start => exact accounted_start plan
  | step _ step ih => exact ih.step step

/-- What holds at the start and is kept by every turn while the accounts are right always holds. -/
theorem Reachable.always {holds : Team α → Prop} (start : holds plan.start)
    (keeps : ∀ team next, plan.Accounted team → plan.Step team next → holds team → holds next)
    (reachable : plan.Reachable team) : holds team := by
  induction reachable with
  | start => exact start
  | step earlier step ih => exact keeps _ _ earlier.accounted step ih

/-- Results are kept for chunks that exist, and counted at most once each. -/
theorem Accounted.done_le (accounted : plan.Accounted team) : team.board.done ≤ plan.count := by
  -- Whoever keeps a result has taken its chunk.
  have kept : ((team.workers.flatMap (·.kept)).map (·.1)).Sublist
      (team.workers.flatMap (·.taken)) := by
    rw [List.map_flatMap]
    exact .flatMap_right _ fun worker _ => List.sublist_append_left _ _
  have fewer := kept.length_le
  have taken := accounted.taken.length_eq
  have counted := accounted.counted
  rw [List.length_map] at fewer
  rw [List.length_range] at taken
  omega

/-- A chunk in hand exists. -/
theorem Accounted.lt_count (accounted : plan.Accounted team) {worker : Worker α} {index : Nat}
    (member : worker ∈ team.workers) (inHand : worker.task = .work index) : index < plan.count := by
  have taken : index ∈ team.workers.flatMap (·.taken) :=
    List.mem_flatMap.mpr ⟨worker, member, by simp [Worker.taken, inHand, Task.inHand]⟩
  have listed := List.mem_range.mp (accounted.taken.mem_iff.mp taken)
  omega

/-- The counter goes beyond the chunks by at most one for each worker. -/
theorem Accounted.next_le (accounted : plan.Accounted team) :
    team.board.next ≤ plan.count + Scan.crew plan.workers plan.count := by
  have beyond := accounted.beyond
  -- What is beyond the chunks is made up for by workers that are gone.
  have few := List.countP_le_length (p := fun worker : Worker α => decide (worker.task = .gone))
    (l := team.workers)
  rw [accounted.crew] at few
  omega

/-- When everyone is gone, the results are those of the chunks that were taken, each once. -/
theorem Accounted.numbered (accounted : plan.Accounted team)
    (finished : ∀ worker ∈ team.workers, worker.task = .gone) :
    ((team.workers.flatMap (·.kept)).map (·.1)).Perm
      (List.range (min team.board.next plan.count)) := by
  -- Nobody has a chunk in hand any more.
  refine .trans (.of_eq ?_) accounted.taken
  rw [List.map_flatMap]
  refine List.flatMap_congr fun worker member => ?_
  simp [Worker.taken, finished worker member, Task.inHand]

/-- When everyone is gone, every result has been counted. -/
theorem Accounted.done_eq (accounted : plan.Accounted team)
    (finished : ∀ worker ∈ team.workers, worker.task = .gone) :
    team.board.done = min team.board.next plan.count := by
  -- A result that is kept but not counted would be in the hand of a worker.
  have nobody : team.workers.countP (·.task = .count) = 0 :=
    List.countP_eq_zero.mpr fun worker member => by simp [finished worker member]
  have counted := accounted.counted
  have numbered := (accounted.numbered finished).length_eq
  rw [List.length_map, List.length_range] at numbered
  omega

/-- When everyone is gone, the parts are those of the first chunks in order, as many as were
counted. -/
theorem Accounted.map_fst_parts (accounted : plan.Accounted team)
    (finished : ∀ worker ∈ team.workers, worker.task = .gone) :
    (plan.outcome team).parts.map (·.1) = List.range team.board.done :=
  map_fst_mergeSort (accounted.done_eq finished ▸ accounted.numbered finished)

end Plan

/-- How far a worker is from claiming a chunk or going. -/
def Task.rank : Task → Nat
  -- Each turn lowers the rank, but for a claim that takes a chunk from the board.
  | gone => 0
  | claim => 1
  | look => 2
  | note => 3
  | count => 4
  | work _ => 5

namespace Plan

/-- How many turns the workers of a team have left at most. -/
def turnsLeft (plan : Plan α) (team : Team α) : Nat :=
  5 * (plan.count - team.board.next) + (team.workers.map (·.task.rank)).sum

/-- A turn brings a worker nearer to its end, or takes one of the chunks that are left. -/
theorem rank_turn (plan : Plan α) (now : Instant) (board : Board) {worker : Worker α}
    (present : worker.task ≠ .gone) :
    5 * (plan.count - (plan.turn now board worker).1.next) +
        (plan.turn now board worker).2.task.rank <
      5 * (plan.count - board.next) + worker.task.rank := by
  rcases worker with ⟨task, kept⟩
  cases task with
  | look => cases stop : (board.signal.check now).1 <;> simp [turn, stop, Task.rank]
  | claim =>
    -- A chunk that is taken is worth the turns that its worker has before the next one.
    by_cases within : board.next < plan.count
    · simp only [turn, within, if_true, Task.rank]
      omega
    · simp only [turn, within, if_false, Task.rank]
      omega
  | work index | count | note => simp [turn, Task.rank]
  | gone => exact absurd rfl present

/-- Every turn leaves fewer of them. -/
theorem turnsLeft_step {plan : Plan α} {team next : Team α} (step : plan.Step team next) :
    plan.turnsLeft next < plan.turnsLeft team := by
  cases step with
  | @turn board worker now before after present since still =>
    have nearer := rank_turn plan now board present
    simp only [turnsLeft, List.map_append, List.map_cons, List.sum_append, List.sum_cons]
    omega

/-- Turns come to an end, however they are taken. -/
theorem wellFounded_step (plan : Plan α) : WellFounded fun next team => plan.Step team next :=
  Subrelation.wf turnsLeft_step (measure plan.turnsLeft).wf

/-- Nobody waits for anybody: while someone has not gone, there is a next turn. -/
theorem exists_step (plan : Plan α) {team : Team α} {worker : Worker α}
    (member : worker ∈ team.workers) (present : worker.task ≠ .gone) :
    ∃ next, plan.Step team next := by
  rcases team with ⟨board, workers⟩
  obtain ⟨before, after, rfl⟩ := List.append_of_mem member
  exact ⟨_, .turn before after present (Nat.le_refl plan.began) plan.began_le_ended⟩

/-- Every team that turns lead to comes to where everyone is gone. -/
theorem Reachable.exists_finished {plan : Plan α} {team : Team α}
    (reachable : plan.Reachable team) :
    ∃ last, plan.Reachable last ∧ ∀ worker ∈ last.workers, worker.task = .gone := by
  -- The induction is on the turns that are left: whoever has not gone takes one of them.
  induction team using (wellFounded_step plan).induction with
  | _ team ih =>
    by_cases finished : ∀ worker ∈ team.workers, worker.task = .gone
    · exact ⟨team, reachable, finished⟩
    · simp only [not_forall] at finished
      obtain ⟨worker, member, present⟩ := finished
      obtain ⟨next, step⟩ := plan.exists_step member present
      exact ih next step (reachable.step step)

/-- There is an outcome. -/
theorem exists_yields (plan : Plan α) : ∃ outcome, plan.Yields outcome := by
  have first : plan.Reachable plan.start := .start
  obtain ⟨team, reachable, finished⟩ := first.exists_finished
  exact ⟨_, team, reachable, finished, rfl⟩

/-- An outcome that every order of turns gives is the one that some order gives. -/
theorem yields_iff_eq {plan : Plan α} {expected : Outcome α}
    (only : ∀ team, plan.Reachable team → (∀ worker ∈ team.workers, worker.task = .gone) →
      plan.outcome team = expected) {outcome : Outcome α} :
    plan.Yields outcome ↔ outcome = expected := by
  constructor
  · intro yields
    obtain ⟨team, reachable, finished, rfl⟩ := yields
    exact only team reachable finished
  · intro same
    -- Some order of turns comes to an end, so the outcome is there.
    obtain ⟨_, team, reachable, finished, rfl⟩ := plan.exists_yields
    exact ⟨team, reachable, finished, (only team reachable finished).trans same.symm⟩

end Plan

end Scan

end HeapAtlas
