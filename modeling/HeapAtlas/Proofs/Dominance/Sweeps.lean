import HeapAtlas.Proofs.Dominance.Retained

/-!
The sweeps end, and so do all climbs on the way.

Between any two numbers the candidates lead up to the super-root, as they have passed the level that
the sweep has reached; so climbs read only what is there. Once the level is above all numbers, a
sweep changes nothing more.
-/

namespace HeapAtlas.Dominance

/-! ### Climbs -/

/-- From two numbers the lower one climbs until they are one, and all that it reads is there. -/
inductive Meets (candidates : Candidates) : Nat → Nat → Nat → Prop where
  | met {number : Nat} : Meets candidates number number number
  | first {first second above joint : Nat} (below : first < second)
      (entry : candidates[first]? = some (some above))
      (rest : Meets candidates above second joint) : Meets candidates first second joint
  | second {first second above joint : Nat} (below : second < first)
      (entry : candidates[second]? = some (some above))
      (rest : Meets candidates first above joint) : Meets candidates first second joint

variable {candidates others : Candidates} {last number : Nat}

/-- Where ways up are found to meet, the climbs end there. -/
theorem meets_of_meet {first second joint : Nat} (met : meet candidates first second = some joint) :
    Meets candidates first second joint := by
  -- Only where the climb goes on from one of the two is there anything to show.
  fun_induction meet candidates first second with
  | case1 =>
    cases met
    exact .met
  | case2 first second different below above entry up ih => exact .first below entry (ih met)
  | case5 first second different notBelow above entry up ih =>
    exact .second (by omega) entry (ih met)
  | case3 | case4 | case6 | case7 => cases met

/-- The way up from a number with an entry ends at the last number. -/
theorem Rising.onWay_last (rising : Rising candidates last) (known : Known candidates number) :
    OnWay candidates number last := by
  have within := rising.le_last known
  induction number, within using climb_induction with
  | arrived => exact .here
  | climbs number below ih =>
    -- The entry stands higher and has one of its own.
    obtain ⟨above, entry⟩ := known
    obtain ⟨rises, least, knownAbove⟩ := rising.up number above below entry
    exact .up entry (ih above least rises knownAbove)

/-- Numbers can settle in one way only. -/
theorem Settled.unique {edges : Nat → Nat → Prop}
    (reached : ∀ number, number < last → Flow.Reaches edges last number)
    (settled : Settled edges last candidates) (another : Settled edges last others) :
    candidates = others := by
  refine Array.ext_getElem? fun number => ?_
  rcases Nat.lt_trichotomy number last with below | rfl | beyond
  · -- The immediate dominator of a number is the only one.
    obtain ⟨above, entry, immediate⟩ := settled.immediate number below
    obtain ⟨other, otherEntry, otherImmediate⟩ := another.immediate number below
    rw [entry, otherEntry, immediate.unique (reached number below) otherImmediate]
  · rw [settled.rising.top, another.rising.top]
  · rw [Array.getElem?_eq_none (by rw [settled.rising.size]; omega),
      Array.getElem?_eq_none (by rw [another.rising.size]; omega)]

/-! ### Points of the sweeps -/

/-- Where the sweeps stand between two numbers: the candidates with which the round began, how many
numbers it has still to come to, and the candidates now. -/
structure Point where
  before : Candidates
  left : Nat
  now : Candidates

namespace Point

/-- The first round is about to begin. -/
def first (order : Postorder) : Point := ⟨start order, order.size, start order⟩

/-- The next point, where another number is brought up to date or another round begins; there is
none behind a round that has changed nothing. -/
def next? (graph : HeapGraph) (order : Postorder) : Point → Option Point
  | ⟨before, left + 1, now⟩ => some ⟨before, left, relax graph order now left⟩
  | ⟨before, 0, now⟩ => if now = before then none else some ⟨now, order.size, now⟩

/-- One point is so many steps behind another. -/
inductive Leads (graph : HeapGraph) (order : Postorder) : (steps : Nat) → Point → Point → Prop where
  | here {point : Point} : Leads graph order 0 point point
  | next {steps : Nat} {point following later : Point}
      (step : point.next? graph order = some following)
      (rest : Leads graph order steps following later) : Leads graph order (steps + 1) point later

end Point

/-- The numbers of the objects that refer to a number's object, in the order in which they speak. -/
def speakers (graph : HeapGraph) (order : Postorder) (number : Nat) : List Nat :=
  (graph.inSources (order.slotAt number)).filterMap order.number?

/-- What is proposed for a number before any other number speaks. -/
def firstWord (graph : HeapGraph) (order : Postorder) (number : Nat) : Option Nat :=
  if graph.isRoot (order.slotAt number) then some order.size else none

/-- At a point nothing is read that is not there: entries lead up to the super-root, and every climb
that the next number calls for ends. -/
structure Point.Sure (graph : HeapGraph) (order : Postorder) (point : Point) : Prop where
  rising : Rising point.now order.size
  climbs : ∀ number, Known point.now number → OnWay point.now number order.size
  meets : ∀ number, point.left = number + 1 → ∀ before speaker after,
    speakers graph order number = before ++ speaker :: after → Known point.now speaker →
    ∀ current, before.foldl (meetPredecessor point.now) (firstWord graph order number) =
        some current →
      ∃ joint, Meets point.now speaker current joint ∧ meet point.now speaker current = some joint

variable {graph : HeapGraph} {order : Postorder} {level : Nat}

/-- The proposal for a number is what is left of the first word when all have spoken. -/
theorem proposal_eq (graph : HeapGraph) (order : Postorder) (candidates : Candidates)
    (number : Nat) :
    proposal graph order candidates number =
      (speakers graph order number).foldl (meetPredecessor candidates)
        (firstWord graph order number) := rfl

/-- Candidates that lead up make a point sure. -/
theorem Rising.sure {point : Point} (rising : Rising point.now order.size) :
    point.Sure graph order where
  rising := rising
  climbs _ := rising.onWay_last
  meets number _ before speaker after _ known current spoken := by
    -- What was agreed on before has an entry, and so has the one that speaks.
    have root : Agreed point.now (fun source => source = order.size ∧
        graph.isRoot (order.slotAt number) = true) (firstWord graph order number) :=
      agreed_root rising number
    have agreed := rising.agreed_foldl before root
    rw [spoken] at agreed
    obtain ⟨joint, met, _⟩ := rising.meet_spec speaker current known agreed.1
    exact ⟨joint, meets_of_meet met, met⟩

namespace Point

variable {point following later : Point} {steps more : Nat}

/-- What is so many steps behind a point is as many more behind those before it. -/
theorem Leads.trans (leads : Leads graph order steps point following)
    (further : Leads graph order more following later) :
    Leads graph order (more + steps) point later := by
  induction leads with
  | here => exact further
  | next step _ ih => exact .next step (ih further)

/-- The rest of a round takes one step for each number that is left. -/
theorem leads_round (before now : Candidates) (left : Nat) :
    Leads graph order left ⟨before, left, now⟩
      ⟨before, 0, (List.range left).reverse.foldl (relax graph order) now⟩ := by
  -- A round goes down from the largest number, so its first step is at `left`.
  induction left generalizing now with
  | zero => exact .here
  | succ left ih =>
    rw [foldl_reverse_range_succ]
    exact .next rfl (ih _)

/-- A point at which the sweep has passed all numbers that are not left. -/
def Passed (graph : HeapGraph) (order : Postorder) (point : Point) : Prop :=
  point.left ≤ order.size ∧
    ∃ level, Settling (Arrives graph order) order.size (levelAt level point.left) point.now

/-- A step goes from what was passed to what is passed. -/
theorem Passed.step (made : graph.Made) (sound : order.Sound graph)
    (passed : Passed graph order point) (step : point.next? graph order = some following) :
    Passed graph order following := by
  obtain ⟨before, left, now⟩ := point
  obtain ⟨within, level, settling⟩ := passed
  cases left with
  | succ left =>
    cases step
    exact ⟨Nat.le_of_lt within, level, settling.relax made sound within⟩
  | zero =>
    -- All numbers have the new level, with which the next round begins.
    rw [next?] at step
    split at step
    · cases step
    · cases step
      rw [levelAt_zero] at settling
      exact ⟨Nat.le_refl _, level + 1, settling.begin⟩

/-- At every point of the sweeps all numbers were passed that are not left. -/
theorem Leads.passed (made : graph.Made) (sound : order.Sound graph)
    (leads : Leads graph order steps point later) (passed : Passed graph order point) :
    Passed graph order later := by
  induction leads with
  | here => exact passed
  | next step _ ih => exact ih (passed.step made sound step)

/-- Rounds come to an end before there are more of them than levels to be passed. -/
theorem exists_leads_end (made : graph.Made) (sound : order.Sound graph) (rest : Nat)
    (settling : Settling (Arrives graph order) order.size (fun _ => level) candidates)
    (enough : order.size < level + rest) :
    ∃ steps ≤ (rest + 1) * (order.size + 1), ∃ later,
      Leads graph order steps ⟨candidates, order.size, candidates⟩ later ∧
        later.next? graph order = none ∧
        ∀ rounds, rest ≤ rounds → later.now = settle graph order rounds candidates := by
  -- The induction is on the levels that are left, one of which every round passes.
  induction rest generalizing level candidates with
  | zero =>
    -- The candidates have settled, and can only settle on the same again.
    have same : sweep graph order candidates = candidates :=
      ((settling.sweep made sound).settled (descends sound) (by omega)).unique
        (fun number below => reaches_number sound (Nat.le_of_lt below))
        (settling.settled (descends sound) enough)
    refine ⟨order.size, by omega, _, leads_round _ _ _, if_pos same, fun rounds _ => ?_⟩
    rw [settle_of_sweep_eq same]
    exact same
  | succ rest ih =>
    have bound : (rest + 1 + 1) * (order.size + 1) =
        (rest + 1) * (order.size + 1) + (order.size + 1) := Nat.succ_mul _ _
    by_cases same : sweep graph order candidates = candidates
    · refine ⟨order.size, by omega, _, leads_round _ _ _, if_pos same, fun rounds _ => ?_⟩
      rw [settle_of_sweep_eq same]
      exact same
    · obtain ⟨steps, few, later, leads, ended, settled⟩ :=
        ih (settling.sweep made sound) (by omega)
      refine ⟨steps + 1 + order.size, by omega, later,
        (leads_round _ _ _).trans (.next (if_neg same) leads), ended, fun rounds more => ?_⟩
      obtain ⟨rounds, rfl⟩ := Nat.exists_eq_add_of_lt (Nat.lt_of_lt_of_le (Nat.succ_pos rest) more)
      rw [Nat.zero_add, settle_succ]
      exact settled rounds (by omega)

end Point

open Point in
/--
For every heap the sweeps end, within one round more than there are numbers and the super-root, and
their end is what the dominators are taken from.

At every point on the way entries lead up, one after another, to the super-root, and all climbs end
and read entries that are there. In the end every number has one.
-/
theorem candidatesOf_ends (made : graph.Made) :
    let order := Postorder.ofGraph graph
    (∃ steps ≤ (order.size + 2) * (order.size + 1), ∃ later,
      Leads graph order steps (first order) later ∧ later.next? graph order = none ∧
        later.now = candidatesOf graph order) ∧
    (∀ steps point, Leads graph order steps (first order) point → point.Sure graph order) ∧
    ∀ number < order.size, ∃ above, ((candidatesOf graph order)[number]?).join = some above ∧
      number < above ∧ above ≤ order.size := by
  intro order
  have sound : order.Sound graph := Postorder.sound_ofGraph made
  have begun : Settling (Arrives graph order) order.size (fun _ => 0) (start order) :=
    settling_start (Arrives graph order)
  -- The bound on the rounds leaves enough of them to come to a round that changes nothing.
  refine ⟨?_, fun steps point leads => ?_, fun number below => ?_⟩
  · obtain ⟨steps, few, later, leads, ended, settled⟩ :=
      exists_leads_end made sound (order.size + 1) begun (by omega)
    refine ⟨steps, few, later, leads, ended, settled (roundBound order) ?_⟩
    rw [roundBound]
    have square := Nat.le_mul_self (order.size + 1)
    omega
  · obtain ⟨_, level, settling⟩ :=
      leads.passed made sound ⟨Nat.le_refl _, 0, begun.begin⟩
    exact settling.rising.sure
  · obtain ⟨above, entry, _⟩ := (settled_candidatesOf made sound).immediate number below
    have rises := (settled_candidatesOf made sound).rising.up number above below entry
    exact ⟨above, by rw [entry]; rfl, rises.1, rises.2.1⟩

/-- In the ring the sweeps end, and its root has an entry. -/
theorem ring_candidatesOf_ends :
    Columns.ring.resolved.Made ∧
      (∃ steps later, Point.Leads Columns.ring.resolved (Postorder.ofGraph Columns.ring.resolved)
          steps (.first (Postorder.ofGraph Columns.ring.resolved)) later ∧
        later.next? Columns.ring.resolved (Postorder.ofGraph Columns.ring.resolved) = none) ∧
      0 < (Postorder.ofGraph Columns.ring.resolved).size ∧
      ∃ above, ((candidatesOf Columns.ring.resolved
        (Postorder.ofGraph Columns.ring.resolved))[0]?).join = some above ∧ 0 < above := by
  -- The ring has a number to ask about, as some of it is reached.
  obtain ⟨⟨steps, _, later, leads, ended, _⟩, _, known⟩ := candidatesOf_ends HeapGraph.made_ring
  have some_ : 0 < (Postorder.ofGraph Columns.ring.resolved).size := by decide +kernel
  obtain ⟨above, entry, rises, _⟩ := known 0 some_
  exact ⟨HeapGraph.made_ring, ⟨steps, later, leads, ended⟩, some_, above, entry, rises⟩

end HeapAtlas.Dominance
