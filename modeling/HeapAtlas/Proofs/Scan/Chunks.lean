import Mathlib.Data.List.Nodup
import Mathlib.Data.List.Perm.Basic
import HeapAtlas.Scan.Chunks

/-! Scans in chunks: every position is in one, and every chunk has its result unless it is late. -/

namespace HeapAtlas.Scan

/-- The first chunks hold the first positions. -/
theorem flatMap_positions_range (total size count : Nat) :
    ((List.range count).flatMap fun index => (chunkAt total size index).positions) =
      List.range (min (count * max size 1) total) := by
  -- The induction is on the number of chunks, of which the last is cut off at the end.
  induction count with
  | zero => simp
  | succ count ih =>
    rw [List.range_succ, List.flatMap_append, ih, List.flatMap_singleton, Nat.succ_mul]
    show _ ++ List.range' (count * max size 1)
      (min (count * max size 1 + max size 1) total - count * max size 1) = _
    rcases Nat.le_total (count * max size 1) total with within | beyond
    · rw [Nat.min_eq_left within, List.range'_eq_map_range, ← List.range_add]
      congr 1
      omega
    · have nothing : min (count * max size 1 + max size 1) total - count * max size 1 = 0 := by
        omega
      rw [nothing, List.range'_zero, List.append_nil, Nat.min_eq_right beyond,
        Nat.min_eq_right (by omega)]

/-- There are enough chunks for all positions. -/
theorem le_chunkCount_mul (total size : Nat) : total ≤ chunkCount total size * max size 1 := by
  have positive : 0 < max size 1 := by omega
  have rounded := Nat.lt_mul_div_succ (total + (max size 1 - 1)) positive
  rw [chunkCount, Nat.mul_comm]
  rw [Nat.mul_succ] at rounded
  omega

/-- Together the chunks hold every position once, in order. -/
theorem flatMap_positions (total size : Nat) :
    (chunks total size).flatMap (·.2.positions) = List.range total := by
  rw [chunks, List.flatMap_map]
  refine (flatMap_positions_range total size _).trans ?_
  rw [Nat.min_eq_right (le_chunkCount_mul total size)]

/-- Positions are covered by at least one chunk. -/
theorem chunkCount_eq_zero_iff (total size : Nat) : chunkCount total size = 0 ↔ total = 0 := by
  constructor
  · intro nothing
    -- No chunks cover no positions.
    have enough := le_chunkCount_mul total size
    rw [nothing] at enough
    omega
  · intro nothing
    subst nothing
    exact Nat.div_eq_of_lt (by omega)

/-- The number of chunks is a quotient that is rounded up. -/
theorem chunkCount_eq (total size : Nat) :
    chunkCount total size = total / max size 1 + if total % max size 1 = 0 then 0 else 1 := by
  have positive : 0 < max size 1 := by omega
  have parts := Nat.div_add_mod total (max size 1)
  have less := Nat.mod_lt total positive
  -- The quotient becomes a variable, so what is left is linear in it but for one product.
  rw [chunkCount, Nat.div_eq_iff positive]
  generalize total / max size 1 = quotient at *
  split
  · constructor <;> grind
  · constructor <;> grind

/-- A chunk begins before the positions end. -/
theorem mul_lt_of_lt_chunkCount {total size index : Nat} (within : index < chunkCount total size) :
    index * max size 1 < total := by
  have positive : 0 < max size 1 := by omega
  have fits := Nat.div_mul_le_self (total + (max size 1 - 1)) (max size 1)
  -- The chunk and those before it do not reach beyond the rounded-up total.
  have below := Nat.mul_le_mul_right (max size 1) (Nat.succ_le_of_lt within)
  rw [chunkCount] at below
  rw [Nat.succ_mul] at below
  omega

/-- A chunk holds a position. -/
theorem start_lt_stop {total size index : Nat} (within : index < chunkCount total size) :
    (chunkAt total size index).start < (chunkAt total size index).stop := by
  have begins := mul_lt_of_lt_chunkCount within
  show index * max size 1 < min (index * max size 1 + max size 1) total
  omega

/-- A chunk holds no more positions than it should. -/
theorem stop_le_start_add (total size index : Nat) :
    (chunkAt total size index).stop ≤ (chunkAt total size index).start + max size 1 :=
  Nat.min_le_left _ _

/-- There are no more chunks than positions. -/
theorem chunkCount_le (total size : Nat) : chunkCount total size ≤ total := by
  cases count : chunkCount total size with
  | zero => exact Nat.zero_le total
  | succ last =>
    -- The last chunk begins behind as many positions as there are chunks before it.
    have begins : last * max size 1 < total := mul_lt_of_lt_chunkCount (by omega)
    have enough := Nat.le_mul_of_pos_right last (show 0 < max size 1 by omega)
    omega

section Working

variable {α : Type} {now : Instant} {cut : Nat → Chunk} {work : Chunk → StopSignal → α × StopSignal}
  {signal : StopSignal}

/-- The chunks that are worked off are the first ones, in order. -/
theorem map_fst_workOff (now : Instant) (cut : Nat → Chunk)
    (work : Chunk → StopSignal → α × StopSignal) (left index : Nat) (signal : StopSignal) :
    ∃ count ≤ left,
      (workOff now cut work left index signal).parts.map (·.1) = List.range' index count := by
  induction left generalizing index signal with
  | zero => exact ⟨0, Nat.le_refl 0, rfl⟩
  | succ left ih =>
    rw [workOff]
    -- The chunk at hand is counted unless the signal is up before it.
    rcases signal.check now with ⟨stop, seen⟩
    cases stop with
    | true => exact ⟨0, Nat.zero_le _, rfl⟩
    | false =>
      obtain ⟨count, fits, numbered⟩ := ih (index + 1) (work (cut index) seen).2
      refine ⟨count + 1, Nat.succ_le_succ fits, ?_⟩
      rw [List.range'_succ, ← numbered]
      rfl

/-- Once work has to stop, no chunk is worked off. -/
theorem workOff_stopped (stopped : (signal.check now).1 = true) (left index : Nat) :
    workOff now cut work left index signal = ⟨[], decide (left = 0)⟩ := by
  cases left with
  | zero => rfl
  | succ left =>
    rw [workOff]
    -- Whether the signal was up or goes up now is all the same.
    rcases checked : signal.check now with ⟨stop, seen⟩
    rw [checked] at stopped
    subst stopped
    rfl

/-- Work goes on only while the signal is down. -/
theorem lowered_of_check (down : signal.check now = (false, signal)) : signal.raised = false := by
  cases up : signal.raised with
  | false => rfl
  | true => simp [StopSignal.check, up] at down

/-- While no work raises the signal and no deadline comes, every chunk is worked off. -/
theorem workOff_quiet (down : signal.check now = (false, signal)) (left index : Nat)
    (quiet : ∀ chunk, index ≤ chunk → chunk < index + left →
      (work (cut chunk) signal).2 = signal) :
    workOff now cut work left index signal =
      ⟨(List.range' index left).map fun chunk => (chunk, (work (cut chunk) signal).1), true⟩ := by
  have lowered := lowered_of_check down
  induction left generalizing index with
  | zero => rfl
  | succ left ih =>
    -- The signal stays down, so that the next chunk is worked off as well.
    have same := quiet index (Nat.le_refl index) (by omega)
    have rest := ih (index + 1) fun chunk after before => quiet chunk (by omega) (by omega)
    rw [workOff, down]
    simp only [Bool.false_eq_true, if_false, same, rest, lowered, List.range'_succ, List.map_cons,
      Bool.not_false, Bool.and_true]

/-- The chunk whose work is the first to raise the signal is the last that is worked off. -/
theorem workOff_raising (down : signal.check now = (false, signal)) {left index before : Nat}
    (within : before < left)
    (quiet : ∀ chunk, index ≤ chunk → chunk < index + before →
      (work (cut chunk) signal).2 = signal)
    (raising : (work (cut (index + before)) signal).2 = signal.raise) :
    workOff now cut work left index signal =
      ⟨(List.range' index (before + 1)).map fun chunk => (chunk, (work (cut chunk) signal).1),
        false⟩ := by
  have lowered := lowered_of_check down
  induction before generalizing left index with
  | zero =>
    obtain ⟨left, rfl⟩ := Nat.exists_eq_succ_of_ne_zero (Nat.ne_of_gt within)
    -- Behind it the signal is up, even where no chunk is left.
    have rest : workOff now cut work left (index + 1) signal.raise = ⟨[], decide (left = 0)⟩ :=
      workOff_stopped (by simp [StopSignal.check, StopSignal.raise]) left (index + 1)
    rw [Nat.add_zero] at raising
    rw [workOff, down]
    simp only [Bool.false_eq_true, if_false, raising, rest]
    simp [StopSignal.raise]
  | succ before ih =>
    obtain ⟨left, rfl⟩ := Nat.exists_eq_succ_of_ne_zero (Nat.ne_of_gt (Nat.zero_lt_of_lt within))
    have same := quiet index (Nat.le_refl index) (by omega)
    have raising : (work (cut (index + 1 + before)) signal).2 = signal.raise := by
      rw [Nat.add_right_comm]
      exact raising
    have rest := ih (Nat.lt_of_succ_lt_succ within)
      (fun chunk after first => quiet chunk (by omega) (by omega)) raising
    rw [workOff, down]
    simp only [Bool.false_eq_true, if_false, same, rest, lowered, List.range'_succ (s := index),
      List.map_cons, Bool.not_false, Bool.and_true]

end Working

/-- Items with one of some numbers are found number by number. -/
theorem flatMap_filter_perm {α : Type} (number : α → Nat) {numbers : List Nat}
    (distinct : numbers.Nodup) (items : List α) :
    (numbers.flatMap fun n => items.filter fun item => number item = n).Perm
      (items.filter fun item => number item ∈ numbers) := by
  induction numbers with
  | nil => simp
  | cons first rest ih =>
    obtain ⟨absent, others⟩ := List.nodup_cons.mp distinct
    -- An item with one of the numbers has the first one or one of the rest, and not both.
    have ofFirst : (items.filter fun item => number item ∈ first :: rest).filter
        (fun item => number item = first) = items.filter fun item => number item = first := by
      rw [List.filter_filter]
      refine List.filter_congr fun item _ => ?_
      by_cases same : number item = first <;> simp [same]
    have ofRest : (items.filter fun item => number item ∈ first :: rest).filter
        (fun item => !decide (number item = first)) =
          items.filter fun item => number item ∈ rest := by
      rw [List.filter_filter]
      refine List.filter_congr fun item _ => ?_
      by_cases same : number item = first
      · simp [same, absent]
      · simp [same]
    have split := List.filter_append_perm (fun item => decide (number item = first))
      (items.filter fun item => number item ∈ first :: rest)
    rw [ofFirst, ofRest] at split
    rw [List.flatMap_cons]
    exact ((ih others).append_left _).trans split

/-- The workers hold every result once. -/
theorem dealt_perm {α : Type} {workers : Nat} (positive : 0 < workers) (parts : List (Nat × α)) :
    (dealt workers parts).Perm parts := by
  -- The remainders below the number of workers are all there are.
  have all : parts.filter (fun part => part.1 % workers ∈ List.range workers) = parts :=
    List.filter_eq_self.mpr fun part _ => by simpa using Nat.mod_lt part.1 positive
  have perm := flatMap_filter_perm (fun part : Nat × α => part.1 % workers)
    (List.nodup_range (n := workers)) parts
  rw [all] at perm
  exact perm

/-- Results that are put back in order ascend. -/
theorem pairwise_mergeSort_fst {α : Type} (held : List (Nat × α)) :
    (held.mergeSort fun one other => one.1 ≤ other.1).Pairwise
      fun one other => one.1 ≤ other.1 := by
  refine List.Pairwise.imp of_decide_eq_true
    (List.pairwise_mergeSort (fun a b c below above => ?_) (fun a b => ?_) _)
  · simp only [decide_eq_true_eq] at below above ⊢
    omega
  · simp only [Bool.or_eq_true, decide_eq_true_eq]
    omega

/-- Results go back to the order of their chunks, in whatever order they are held. -/
theorem mergeSort_of_perm {α : Type} {held parts : List (Nat × α)} (perm : held.Perm parts)
    (ascend : (parts.map (·.1)).Pairwise (· < ·)) :
    (held.mergeSort fun one other => one.1 ≤ other.1) = parts := by
  have inOrder : parts.Pairwise fun one other => one.1 ≤ other.1 :=
    (List.pairwise_map.mp ascend).imp Nat.le_of_lt
  have same := (List.mergeSort_perm held fun one other => one.1 ≤ other.1).trans perm
  refine List.Perm.eq_of_pairwise (fun one other here there below above => ?_)
    (pairwise_mergeSort_fst held) inOrder same
  -- Two results of one chunk are the same result.
  have distinct : (parts.map (·.1)).Nodup := ascend.imp Nat.ne_of_lt
  exact List.inj_on_of_nodup_map distinct (same.mem_iff.mp here) there
    (Nat.le_antisymm below above)

/-- Results of the first chunks are put back in the order of these. -/
theorem map_fst_mergeSort {α : Type} {held : List (Nat × α)} {count : Nat}
    (numbered : (held.map (·.1)).Perm (List.range count)) :
    (held.mergeSort fun one other => one.1 ≤ other.1).map (·.1) = List.range count :=
  List.Perm.eq_of_pairwise (fun _ _ _ _ => Nat.le_antisymm)
    (List.pairwise_map.mpr (pairwise_mergeSort_fst held)) List.pairwise_le_range
    (((List.mergeSort_perm held _).map _).trans numbered)

/-- Dealing the chunks out and putting the results back in order changes nothing. -/
theorem run_eq_workOff {α : Type} (total size workers : Nat) (deadline : Deadline) (now : Instant)
    (work : Chunk → StopSignal → α × StopSignal) :
    run total size workers deadline now work =
      workOff now (chunkAt total size) work (chunkCount total size) 0 (.ofDeadline deadline) := by
  obtain ⟨count, -, numbered⟩ := map_fst_workOff now (chunkAt total size) work
    (chunkCount total size) 0 (.ofDeadline deadline)
  -- However few workers are asked for, there is one.
  have employed : 0 < crew workers (chunkCount total size) := by
    rw [crew]
    omega
  rw [run, mergeSort_of_perm (dealt_perm employed _) (numbered ▸ List.pairwise_lt_range')]

/-- Before its deadline a signal stays down, whenever it is looked at. -/
theorem check_early {deadline : Deadline} {now : Instant} (early : deadline.expired now = false) :
    (StopSignal.ofDeadline deadline).check now = (false, .ofDeadline deadline) := by
  simp [StopSignal.check, StopSignal.ofDeadline, early]

/-- A scan before its deadline gives the result of every chunk in order, however it is dealt. -/
theorem runPure_early {α : Type} {deadline : Deadline} {now : Instant}
    (early : deadline.expired now = false) (total size workers : Nat) (work : Chunk → α) :
    runPure total size workers deadline now work =
      ⟨(chunks total size).map fun (index, chunk) => (index, work chunk), true⟩ := by
  -- Work that does not touch the signal never raises it, so no chunk is left out.
  rw [runPure, run_eq_workOff, workOff_quiet (check_early early) _ _ fun _ _ _ => rfl, chunks,
    List.map_map, List.range_eq_range']
  rfl

/-- A scan behind its deadline takes no chunk, and is complete only if there was none to take. -/
theorem run_late {α : Type} {deadline : Deadline} {now : Instant}
    (late : deadline.expired now = true) (total size workers : Nat)
    (work : Chunk → StopSignal → α × StopSignal) :
    run total size workers deadline now work = ⟨[], decide (total = 0)⟩ := by
  -- The signal goes up at the first look, before any chunk is cut.
  have up : ((StopSignal.ofDeadline deadline).check now).1 = true := by
    simp [StopSignal.check, StopSignal.ofDeadline, late]
  rw [run_eq_workOff, workOff_stopped up]
  exact congrArg _ (decide_eq_decide.mpr (chunkCount_eq_zero_iff total size))

/-- The same scan with work that does not look at the signal. -/
theorem runPure_late {α : Type} {deadline : Deadline} {now : Instant}
    (late : deadline.expired now = true) (total size workers : Nat) (work : Chunk → α) :
    runPure total size workers deadline now work = ⟨[], decide (total = 0)⟩ :=
  run_late late total size workers _

end HeapAtlas.Scan
