import HeapAtlas.Proofs.Scan.Alone
import HeapAtlas.Proofs.Scan.Words

/-! What a scan in chunks gives, in whatever order its workers take their turns. -/

namespace HeapAtlas

/-- A deadline that has come does not go away. -/
theorem Deadline.expired_of_le {deadline : Deadline} {early late : Instant}
    (come : deadline.expired early = true) (after : early ≤ late) :
    deadline.expired late = true := by
  rcases deadline with ⟨_ | instant⟩
  · cases come
  · exact decide_eq_true (Nat.le_trans (of_decide_eq_true come) after)

/-- A deadline that has not come had not come before. -/
theorem Deadline.not_expired_of_le {deadline : Deadline} {early late : Instant}
    (open_ : deadline.expired late = false) (before : early ≤ late) :
    deadline.expired early = false := by
  cases come : deadline.expired early with
  | false => rfl
  | true => exact (expired_of_le come before).symm.trans open_

namespace Scan.Plan

variable {α : Type}

/-- The result of a chunk that is worked on while the signal is down. -/
def result (plan : Plan α) (index : Nat) : α :=
  (plan.work (plan.cut index) (.ofDeadline plan.deadline)).1

/-- The results of the first chunks, in order. -/
def results (plan : Plan α) (count : Nat) : List (Nat × α) :=
  (List.range count).map fun index => (index, plan.result index)

/-- Whether work on a chunk leaves the signal down. -/
def Quiet (plan : Plan α) (index : Nat) : Prop :=
  (plan.work (plan.cut index) (.ofDeadline plan.deadline)).2 = .ofDeadline plan.deadline

instance (plan : Plan α) (index : Nat) : Decidable (plan.Quiet index) :=
  inferInstanceAs (Decidable (_ = _))

/-- Whether a scan gives an outcome, when chunks are worked off one after another and when workers
take turns in any order. -/
def Gives (plan : Plan α) (outcome : Outcome α) : Prop :=
  plan.run = outcome ∧ ∀ other, plan.Yields other ↔ other = outcome

/-- Whether chunks are neither empty nor too long, and together are all positions in order. -/
def Tiled (plan : Plan α) : Prop :=
  (∀ index < plan.count, (plan.cut index).start < (plan.cut index).stop ∧
    (plan.cut index).stop ≤ (plan.cut index).start + max plan.size 1) ∧
  ((List.range plan.count).flatMap fun index => (plan.cut index).positions) =
    List.range plan.total

/-- Whether turns come to an end, however they are taken, with everyone gone. -/
def Ends (plan : Plan α) : Prop :=
  (WellFounded fun next team => plan.Step team next) ∧
    ∀ team, (∀ next, ¬plan.Step team next) → ∀ worker ∈ team.workers, worker.task = .gone

variable {plan : Plan α} {team next : Team α}

/-- The chunks of every scan tile its positions. -/
theorem tiled (plan : Plan α) : plan.Tiled :=
  ⟨fun index within => ⟨start_lt_stop within, stop_le_start_add plan.total plan.size index⟩,
    by rw [← flatMap_positions plan.total plan.size, chunks, List.flatMap_map]; rfl⟩

/-- Every scan ends. -/
theorem ends (plan : Plan α) : plan.Ends := by
  refine ⟨wellFounded_step plan, fun team stuck worker member => ?_⟩
  -- Whoever has not gone has a turn.
  by_contra present
  obtain ⟨next, step⟩ := plan.exists_step member present
  exact stuck next step

/-- Nothing has disturbed the workers: the signal is down, and every result is that of its chunk. -/
structure Undisturbed (plan : Plan α) (team : Team α) : Prop where
  down : team.board.signal = .ofDeadline plan.deadline
  clean : team.board.truncated = false
  right : ∀ worker ∈ team.workers, ∀ part ∈ worker.kept, part.2 = plan.result part.1

/-- Nothing has disturbed anyone before the first turn. -/
theorem undisturbed_start (plan : Plan α) : plan.Undisturbed plan.start where
  down := rfl
  clean := rfl
  right worker member part held := by
    obtain ⟨-, rfl⟩ := List.mem_replicate.mp member
    cases held

/-- A turn before the deadline disturbs nothing, where the work at hand leaves the signal down. -/
theorem turn_undisturbed {board : Board} {worker : Worker α} {now : Instant}
    (early : plan.deadline.expired now = false)
    (quiet : ∀ index, worker.task = .work index → plan.Quiet index)
    (down : board.signal = .ofDeadline plan.deadline) (clean : board.truncated = false)
    (right : ∀ part ∈ worker.kept, part.2 = plan.result part.1) :
    (plan.turn now board worker).1.signal = .ofDeadline plan.deadline ∧
      (plan.turn now board worker).1.truncated = false ∧
      ∀ part ∈ (plan.turn now board worker).2.kept, part.2 = plan.result part.1 := by
  rcases worker with ⟨task, kept⟩
  cases task with
  | look =>
    simp only [turn, down, check_early early]
    exact ⟨trivial, clean, right⟩
  -- A quiet chunk leaves the signal as it was, and what it gives is its result.
  | work index =>
    have same : (plan.work (plan.cut index) (.ofDeadline plan.deadline)).2 = _ := quiet index rfl
    simp only [turn, down, same, List.forall_mem_append, List.forall_mem_singleton]
    exact ⟨trivial, clean, right, rfl⟩
  | note =>
    simp only [turn, down, clean]
    exact ⟨trivial, rfl, right⟩
  | claim | count | gone => exact ⟨down, clean, right⟩

/-- Every turn before the deadline leaves workers undisturbed, where no work raises the signal. -/
theorem Undisturbed.step (undisturbed : plan.Undisturbed team) (accounted : plan.Accounted team)
    (early : plan.deadline.expired plan.ended = false)
    (quiet : ∀ index < plan.count, plan.Quiet index)
    (step : plan.Step team next) : plan.Undisturbed next := by
  obtain ⟨down, clean, right⟩ := undisturbed
  cases step with
  | @turn board worker now before after present since still =>
    simp only [List.forall_mem_append, List.forall_mem_cons] at right
    -- The worker whose turn it is has a chunk that there is in hand, if any.
    have member : worker ∈ before ++ worker :: after :=
      List.mem_append_right before List.mem_cons_self
    obtain ⟨down, clean, still⟩ := turn_undisturbed (Deadline.not_expired_of_le early still)
      (fun index inHand => quiet index (accounted.lt_count member inHand)) down clean right.2.1
    refine ⟨down, clean, ?_⟩
    simp only [List.forall_mem_append, List.forall_mem_cons]
    exact ⟨right.1, still, right.2.2⟩

/-- A scan before its deadline is not disturbed, where no work raises the signal. -/
theorem Reachable.undisturbed (reachable : plan.Reachable team)
    (early : plan.deadline.expired plan.ended = false)
    (quiet : ∀ index < plan.count, plan.Quiet index) : plan.Undisturbed team :=
  reachable.always (undisturbed_start plan) fun _ _ accounted step undisturbed =>
    undisturbed.step accounted early quiet step

/-- Undisturbed workers leave the results of their chunks. -/
theorem Undisturbed.parts_eq (undisturbed : plan.Undisturbed team) :
    (plan.outcome team).parts =
      ((plan.outcome team).parts.map (·.1)).map fun index => (index, plan.result index) := by
  rw [List.map_map]
  refine (List.map_id _).symm.trans (List.map_congr_left fun part member => ?_)
  -- Sorting moves the parts only, so each was kept by some worker.
  obtain ⟨worker, employed, held⟩ := List.mem_flatMap.mp (List.mem_mergeSort.mp member)
  exact Prod.ext rfl (undisturbed.right worker employed part held)

/-- With nothing to disturb it, a scan gives the result of every chunk, and counts as complete. -/
theorem gives_all (early : plan.deadline.expired plan.ended = false)
    (quiet : ∀ index < plan.count, plan.Quiet index) :
    plan.Gives ⟨plan.results plan.count, true⟩ := by
  refine ⟨?_, fun other => yields_iff_eq fun team reachable finished => ?_⟩
  · have down := check_early (Deadline.not_expired_of_le early plan.began_le_ended)
    rw [run_eq, workOff_quiet down _ _
      fun index _ within => quiet index (by rwa [Nat.zero_add] at within), ← List.range_eq_range']
    rfl
  · have accounted := reachable.accounted
    have undisturbed := reachable.undisturbed early quiet
    -- The signal is down, so that whoever has gone has seen no chunk left.
    have beyond : plan.count ≤ team.board.next := by
      have employed : 0 < team.workers.length := by
        rw [accounted.crew, Scan.crew]
        omega
      obtain ⟨worker, member⟩ := List.exists_mem_of_length_pos employed
      rcases accounted.gone worker member (finished worker member) with up | beyond
      · rw [undisturbed.down] at up
        cases up
      · exact beyond
    have done : team.board.done = plan.count := by
      rw [accounted.done_eq finished, Nat.min_eq_right beyond]
    have parts : (plan.outcome team).parts = plan.results plan.count := by
      rw [undisturbed.parts_eq, accounted.map_fst_parts finished, done, results]
    have complete : (plan.outcome team).complete = true := by
      simp [outcome, done, undisturbed.clean]
    exact congrArg₂ Outcome.mk parts complete

/-- A worker alone stops behind the first chunk whose work raises the signal, be it the last. -/
theorem gives_up_to (early : plan.deadline.expired plan.ended = false)
    (alone : crew plan.workers plan.count = 1) {first : Nat} (within : first < plan.count)
    (quiet : ∀ index < first, plan.Quiet index)
    (raising : ¬plan.Quiet first) : plan.Gives ⟨plan.results (first + 1), false⟩ := by
  have raises := (plan.raises (plan.cut first) (.ofDeadline plan.deadline)).resolve_left raising
  have open_ := Deadline.not_expired_of_le early plan.began_le_ended
  -- Alone, the worker takes the chunks in order and stops behind the one that raises.
  have given : plan.run = ⟨plan.results (first + 1), false⟩ := by
    rw [run_eq, workOff_raising (check_early open_) within
      (fun index _ before => quiet index (by rwa [Nat.zero_add] at before))
      (by rw [Nat.zero_add]; exact raises), ← List.range_eq_range']
    rfl
  refine ⟨given, fun other => ?_⟩
  rw [← given]
  exact plan.yields_alone alone fun now _ still =>
    (Deadline.not_expired_of_le early still).trans open_.symm

/-- Nobody has taken a chunk, and whoever is there only looks. -/
structure Idle (team : Team α) : Prop where
  next : team.board.next = 0
  done : team.board.done = 0
  clean : team.board.truncated = false
  tasks : ∀ worker ∈ team.workers, worker.kept = [] ∧ (worker.task = .look ∨ worker.task = .gone)

/-- Nobody has taken a chunk before the first turn. -/
theorem idle_start (plan : Plan α) : Idle plan.start where
  next := rfl
  done := rfl
  clean := rfl
  tasks worker member := by
    obtain ⟨-, rfl⟩ := List.mem_replicate.mp member
    exact ⟨rfl, .inl rfl⟩

/-- A turn behind the deadline takes no chunk. -/
theorem Idle.step (idle : Idle team) (accounted : plan.Accounted team)
    (late : plan.deadline.expired plan.began = true) (step : plan.Step team next) : Idle next := by
  obtain ⟨first, done, clean, tasks⟩ := idle
  cases step with
  | @turn board worker now before after present since still =>
    simp only [List.forall_mem_append, List.forall_mem_cons] at tasks
    obtain ⟨none_, look | gone⟩ := tasks.2.1
    · -- Whoever looks sees the deadline, or that somebody saw it, and goes.
      have stop : (board.signal.check now).1 = true := by
        rw [StopSignal.check_eq, accounted.bound, Deadline.expired_of_le late since, Bool.or_true]
      rcases worker with ⟨task, kept⟩
      subst look
      refine ⟨first, done, clean, ?_⟩
      simp only [List.forall_mem_append, List.forall_mem_cons]
      exact ⟨tasks.1, ⟨none_, .inr (by simp [turn, stop])⟩, tasks.2.2⟩
    · exact absurd gone present

/-- Behind the deadline no chunk is taken, whoever has turns. -/
theorem Reachable.idle (reachable : plan.Reachable team)
    (late : plan.deadline.expired plan.began = true) : Idle team :=
  reachable.always (idle_start plan) fun _ _ accounted step idle => idle.step accounted late step

/-- Behind its deadline a scan gives nothing, and counts as complete only where there is nothing. -/
theorem gives_none (late : plan.deadline.expired plan.began = true) :
    plan.Gives ⟨[], plan.total = 0⟩ := by
  refine ⟨run_late late plan.total plan.size plan.workers plan.work,
    fun other => yields_iff_eq fun team reachable finished => ?_⟩
  obtain ⟨-, done, clean, tasks⟩ := reachable.idle late
  -- Every first look tells to stop, so nobody ever takes a chunk.
  have nothing : team.workers.flatMap (·.kept) = [] :=
    List.flatMap_eq_nil_iff.mpr fun worker member => (tasks worker member).1
  have none_ : (0 = plan.count) ↔ plan.total = 0 :=
    eq_comm.trans (chunkCount_eq_zero_iff plan.total plan.size)
  rw [outcome, nothing, done, clean, List.mergeSort_nil]
  simp only [none_, Bool.not_false, Bool.and_true]

/--
The numbers of a scan are words, its chunks tile the positions, and its workers come to an
end; a scan that counts as complete has a result of every chunk.

Unless a deadline comes while the scan goes on, it gives the result of every chunk where no work
raises the signal, and a worker alone stops behind the first chunk whose work does. Behind its
deadline it gives nothing.
-/
theorem gives_in_every_order (plan : Plan α) (small : plan.total < 2 ^ 32)
    (word : plan.size ≤ wordMax) :
    plan.InWords ∧ plan.Tiled ∧ plan.Ends ∧
      (∀ outcome, plan.Yields outcome → outcome.complete = true →
        outcome.parts.map (·.1) = List.range plan.count) ∧
      (plan.deadline.expired plan.ended = false → (∀ index < plan.count, plan.Quiet index) →
        plan.Gives ⟨plan.results plan.count, true⟩) ∧
      (plan.deadline.expired plan.ended = false → crew plan.workers plan.count = 1 →
        ∀ first < plan.count, (∀ index < first, plan.Quiet index) → ¬plan.Quiet first →
          plan.Gives ⟨plan.results (first + 1), false⟩) ∧
      (plan.deadline.expired plan.began = true → plan.Gives ⟨[], plan.total = 0⟩) := by
  refine ⟨inWords small word, plan.tiled, plan.ends, fun outcome yields complete => ?_, gives_all,
    fun early alone first within quiet raising => gives_up_to early alone within quiet raising,
    gives_none⟩
  -- What is left to show is that a complete outcome has a part for every chunk.
  obtain ⟨team, reachable, finished, rfl⟩ := yields
  rw [Plan.outcome, Bool.and_eq_true, decide_eq_true_eq] at complete
  rw [reachable.accounted.map_fst_parts finished, complete.1]

/-- A scan of three chunks, of which the last raises the signal. -/
def lastRaising : Plan Nat where
  total := 25
  size := 10
  workers := 1
  deadline := .never
  began := 0
  ended := 5
  began_le_ended := by decide
  work chunk signal := (chunk.start, if chunk.start = 20 then signal.raise else signal)
  raises chunk signal := by
    by_cases last : chunk.start = 20
    · exact .inr (if_pos last)
    · exact .inl (if_neg last)

/-- The last chunk is kept, and the scan counts as incomplete although no chunk is missing. -/
theorem lastRaising_gives : (lastRaising.total < 2 ^ 32 ∧ lastRaising.size ≤ wordMax) ∧
    lastRaising.Gives ⟨[(0, 0), (1, 10), (2, 20)], false⟩ := by
  obtain ⟨-, -, -, -, -, upTo, -⟩ := gives_in_every_order lastRaising (by decide) (by decide)
  exact ⟨by decide, upTo rfl (by decide) 2 (by decide) (by decide) (by decide)⟩

end Scan.Plan

end HeapAtlas
