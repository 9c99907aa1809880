import HeapAtlas.Proofs.Dominance.Numbers
import HeapAtlas.Proofs.Lists

/-!
Sweeps settle the candidates on the immediate dominators.

Along an edge numbers mostly fall. A sweep passes on all that the ways say whose falls are broken
once more than before, and there are ways to everything that are broken only so often.
-/

namespace HeapAtlas.Dominance

/-- Edges that end below the last number, with one from above to each number there. -/
structure Descends (edges : Nat → Nat → Prop) (last : Nat) : Prop where
  within : ∀ {source target}, edges source target → source ≤ last ∧ target < last
  fromAbove : ∀ {target}, target < last → ∃ source, target < source ∧ edges source target

/-- How many edges of a way do not lead down; the end of the way stands first. -/
def retreats : List Nat → Nat
  | next :: node :: rest => (if node ≤ next then 1 else 0) + retreats (node :: rest)
  | _ => 0

/-- What edges lead to from a number while they stay below it. -/
inductive Under (edges : Nat → Nat → Prop) (top : Nat) : Nat → Prop where
  | here : Under edges top top
  | down {node next : Nat} (way : Under edges top node) (edge : edges node next)
    (below : next < top) : Under edges top next

section Ways

variable {edges : Nat → Nat → Prop} {last top middle number other : Nat}

/-- A part of a way has no more retreats than the way. -/
theorem retreats_le_of_suffix {part nodes : List Nat} (isPart : part <:+ nodes) :
    retreats part ≤ retreats nodes := by
  -- A longer way has the retreats of its first part, and perhaps one more.
  induction nodes with
  | nil => exact Nat.le_of_eq (congrArg retreats (List.suffix_nil.mp isPart))
  | cons next nodes ih =>
    rcases List.suffix_cons_iff.mp isPart with rfl | shorter
    · exact Nat.le_refl _
    · refine Nat.le_trans (ih shorter) ?_
      cases nodes with
      | nil => exact Nat.zero_le _
      | cons node rest => exact Nat.le_add_left _ _

/-- Ways have more nodes than retreats. -/
theorem retreats_lt_length {nodes : List Nat} (begun : nodes ≠ []) :
    retreats nodes < nodes.length := by
  -- Every edge is a retreat at most, and there are fewer edges than nodes.
  induction nodes with
  | nil => exact absurd rfl begun
  | cons next nodes ih =>
    cases nodes with
    | nil => exact Nat.zero_lt_one
    | cons node rest =>
      have shorter := ih (List.cons_ne_nil _ _)
      rw [retreats, List.length_cons]
      split <;> omega

/-- What is under a number is under every higher one that the number is under. -/
theorem Under.trans (upper : Under edges top middle) (lower : Under edges middle number)
    (order : middle ≤ top) : Under edges top number := by
  -- What stays below the middle number stays below the top.
  induction lower with
  | here => exact upper
  | down way edge below ih => exact ih.down edge (Nat.lt_of_lt_of_le below order)

/-- A dominator above a number dominates it when it dominates something under it. -/
theorem Under.dominates (under : Under edges top number) (higher : top < other)
    (dominates : Flow.Dominates edges last other number) : Flow.Dominates edges last other top := by
  induction under with
  | here => exact dominates
  | down way edge below ih =>
    -- The edge leads to a node below the dominator, which therefore is another.
    have strict : Flow.StrictlyDominates edges last other _ := ⟨by omega, dominates⟩
    exact ih (strict.dominates_of_flows edge)

end Ways

/--
Candidates that keep all dominators on the ways up and have passed on what they were told.

The entry of a number with level `k` stands on all ways there with fewer than `k` retreats.
-/
structure Settling (edges : Nat → Nat → Prop) (last : Nat) (level : Nat → Nat)
    (candidates : Candidates) : Prop where
  rising : Rising candidates last
  under : ∀ number above, candidates[number]? = some (some above) → Under edges above number
  keeps : ∀ number above, candidates[number]? = some (some above) →
    ∀ other, Flow.StrictlyDominates edges last other number → Flow.Dominates edges last other above
  passes : ∀ number above, candidates[number]? = some (some above) →
    ∀ nodes, Flow.Path edges last number nodes → retreats nodes < level number → above ∈ nodes
  known : ∀ number, number ≤ last → 0 < level number → Known candidates number

namespace Settling

variable {edges : Nat → Nat → Prop} {last number above higher : Nat} {level : Nat → Nat}
  {candidates : Candidates}

/-- The dominators of a number with an entry are on its way up. -/
theorem onWay_of_dominates (settling : Settling edges last level candidates)
    (known : Known candidates number) (dominates : Flow.Dominates edges last higher number) :
    OnWay candidates number higher := by
  have within := settling.rising.le_last known
  induction number, within using climb_induction with
  | arrived =>
    rw [dominates.eq_root]
    exact .here
  | climbs number below ih =>
    by_cases same : higher = number
    · rw [same]
      exact .here
    · -- A dominator that is not the number itself dominates the entry, from which its way goes on.
      obtain ⟨above, entry⟩ := known
      obtain ⟨rises, least, knownAbove⟩ := settling.rising.up number above below entry
      exact .up entry (ih above least rises knownAbove
        (settling.keeps number above entry higher ⟨same, dominates⟩))

/-- A number is under everything on its way up. -/
theorem under_of_onWay (settling : Settling edges last level candidates)
    (way : OnWay candidates number higher) : Under edges higher number := by
  -- A number is under its entry, and this is under all that is on the way from it.
  induction way with
  | here => exact .here
  | up entry way ih =>
    exact ih.trans (settling.under _ _ entry) (settling.rising.le_of_onWay way)

/-- Where levels do not fall upwards, ways pass all that is on the way up from their end. -/
theorem mem_of_onWay (settling : Settling edges last level candidates) (monotone : Monotone level)
    (way : OnWay candidates number higher) {nodes : List Nat}
    (path : Flow.Path edges last number nodes) (few : retreats nodes < level number) :
    higher ∈ nodes := by
  induction way generalizing nodes with
  | here => exact path.mem
  | @up number above higher entry way ih =>
    -- The way there passes the entry, and the part up to the entry has no more retreats.
    obtain ⟨part, partPath, isPart⟩ :=
      path.exists_part (settling.passes number above entry nodes path few)
    have levels := monotone (settling.rising.le_above entry)
    have fewer := retreats_le_of_suffix isPart
    exact isPart.subset (ih partPath (by omega))

end Settling

/-- The levels in the middle of a sweep: from a number on it has passed. -/
def levelAt (level reached : Nat) : Nat → Nat :=
  fun number => if reached ≤ number then level + 1 else level

/-- Levels do not fall upwards in the middle of a sweep. -/
theorem levelAt_monotone (level reached : Nat) : Monotone (levelAt level reached) := by
  -- Once a number has the new level, so have all above it.
  intro lower upper order
  unfold levelAt
  split <;> split <;> omega

section Relax

variable {edges : Nat → Nat → Prop} {last number level : Nat} {candidates : Candidates}

/-- An entry is the one that was set or an older one. -/
theorem entry_cases {joint other above : Nat}
    (entry : (candidates.setIfInBounds number (some joint))[other]? = some (some above)) :
    other = number ∧ above = joint ∨ other ≠ number ∧ candidates[other]? = some (some above) := by
  rw [Array.getElem?_setIfInBounds] at entry
  -- An entry is the new one at its own number, and an old one everywhere else.
  split at entry
  · rename_i same
    split at entry
    · cases entry
      exact .inl ⟨same.symm, rfl⟩
    · cases entry
  · rename_i different
    exact .inr ⟨Ne.symm different, entry⟩

/-- Known numbers stay known when an entry is set. -/
theorem Known.setIfInBounds {other : Nat} (known : Known candidates other) (joint : Nat) :
    Known (candidates.setIfInBounds number (some joint)) other := by
  obtain ⟨above, entry⟩ := known
  -- The entry set may be the known one itself, which then has another joint.
  by_cases same : number = other
  · subst same
    have inside := (Array.getElem?_eq_some_iff.mp entry).1
    exact ⟨joint, by rw [Array.getElem?_setIfInBounds_self_of_lt inside]⟩
  · exact ⟨above, by rw [Array.getElem?_setIfInBounds_ne same, entry]⟩

/-- Entries still lead up when one is set that does. -/
theorem Rising.setIfInBounds {joint : Nat} (rising : Rising candidates last) (below : number < last)
    (rises : number < joint) (known : Known candidates joint) :
    Rising (candidates.setIfInBounds number (some joint)) last where
  size := by rw [Array.size_setIfInBounds, rising.size]
  top := by rw [Array.getElem?_setIfInBounds_ne (Nat.ne_of_lt below), rising.top]
  up other above short entry := by
    -- The new entry leads up as was asked, and the others as they did before.
    rcases entry_cases entry with ⟨rfl, rfl⟩ | ⟨_, before⟩
    · exact ⟨rises, rising.le_last known, known.setIfInBounds _⟩
    · obtain ⟨leads, least, knownAbove⟩ := rising.up other above short before
      exact ⟨leads, least, knownAbove.setIfInBounds _⟩

/-- What all that have an edge to a number agree on is under its dominators and above the number. -/
theorem Settling.agreed_spec {level : Nat → Nat} (settling : Settling edges last level candidates)
    {joint parent : Nat}
    (agreed : Agreed candidates (fun source => edges source number ∧ Known candidates source)
      (some joint))
    (up : number < parent) (edge : edges parent number) (known : Known candidates parent) :
    number < joint ∧ Under edges joint number ∧
      ∀ higher, Flow.StrictlyDominates edges last higher number →
        Flow.Dominates edges last higher joint := by
  -- What all agree on is on the way up from the one that is above.
  have way : OnWay candidates parent joint := (agreed.2 joint).mp .here parent ⟨edge, known⟩
  have rises : number < joint := Nat.lt_of_lt_of_le up (settling.rising.le_of_onWay way)
  have under := (settling.under_of_onWay way).down edge rises
  refine ⟨rises, under, fun higher strict => ?_⟩
  -- A strict dominator dominates all that speak, so it is on their joint way up.
  have upwards : OnWay candidates joint higher := (agreed.2 higher).mpr fun source spoke =>
    settling.onWay_of_dominates spoke.2 (strict.dominates_of_flows spoke.1)
  rcases Nat.lt_or_eq_of_le (settling.rising.le_of_onWay upwards) with higherUp | rfl
  · exact under.dominates higherUp strict.2
  · exact .refl

/-- Before a sweep comes to a number, higher ones have their new level, and others the old one. -/
theorem levelAt_succ (number other : Nat) :
    levelAt level (number + 1) other = if number < other then level + 1 else level := rfl

/-- Ways to a number pass what all agree on that have an edge to it. -/
theorem Settling.passes_agreed (descends : Descends edges last)
    (settling : Settling edges last (levelAt level (number + 1)) candidates)
    (below : number < last) {joint : Nat}
    (agreed : Agreed candidates (fun source => edges source number ∧ Known candidates source)
      (some joint))
    {nodes : List Nat} (path : Flow.Path edges last number nodes)
    (few : retreats nodes < level + 1) : joint ∈ nodes := by
  cases path with
  | start => exact absurd below (Nat.lt_irrefl _)
  | @extend source _ rest path step =>
    obtain ⟨others, rfl⟩ := path.exists_cons
    have least := (descends.within step).1
    -- A step down comes from a number that the sweep has passed; any other is a retreat.
    have fewer : retreats (source :: others) < levelAt level (number + 1) source := by
      rw [retreats] at few
      rw [levelAt_succ]
      split at few <;> split <;> omega
    have known := settling.known source least (Nat.zero_lt_of_lt fewer)
    have way : OnWay candidates source joint := (agreed.2 joint).mp .here source ⟨step, known⟩
    exact List.mem_cons_of_mem _ (settling.mem_of_onWay (levelAt_monotone _ _) way path fewer)

/-- After a number is brought up to date, the sweep has passed it. -/
theorem Settling.relaxed (descends : Descends edges last)
    (settling : Settling edges last (levelAt level (number + 1)) candidates)
    (below : number < last) {proposed : Option Nat}
    (agreed : Agreed candidates (fun source => edges source number ∧ Known candidates source)
      proposed) :
    ∃ joint, proposed = some joint ∧ Settling edges last (levelAt level number)
      (candidates.setIfInBounds number (some joint)) := by
  -- The edge from above leads from a number that the sweep has passed, so somebody speaks.
  obtain ⟨parent, up, edge⟩ := descends.fromAbove below
  have spoken : Known candidates parent :=
    settling.known parent (descends.within edge).1 (by rw [levelAt_succ, if_pos up]; omega)
  -- Only the number itself has a new level.
  have unchanged {other : Nat} (different : other ≠ number) :
      levelAt level (number + 1) other = levelAt level number other := by
    unfold levelAt
    split <;> split <;> omega
  cases proposed with
  | none => exact absurd ⟨edge, spoken⟩ (agreed parent)
  | some joint =>
    -- What is agreed on keeps to all that is asked of an entry.
    obtain ⟨rises, under, keeps⟩ := settling.agreed_spec agreed up edge spoken
    have inside : number < candidates.size := by
      rw [settling.rising.size]
      omega
    refine ⟨joint, rfl, settling.rising.setIfInBounds below rises agreed.1, ?_, ?_, ?_, ?_⟩
    · intro other above entry
      rcases entry_cases entry with ⟨rfl, rfl⟩ | ⟨_, before⟩
      · exact under
      · exact settling.under other above before
    · intro other above entry
      rcases entry_cases entry with ⟨rfl, rfl⟩ | ⟨_, before⟩
      · exact keeps
      · exact settling.keeps other above before
    · intro other above entry nodes path few
      rcases entry_cases entry with ⟨rfl, rfl⟩ | ⟨different, before⟩
      · rw [levelAt, if_pos (Nat.le_refl _)] at few
        exact settling.passes_agreed descends below agreed path few
      · exact settling.passes other above before nodes path (by rwa [unchanged different])
    · intro other least positive
      by_cases same : other = number
      · rw [same]
        exact ⟨joint, Array.getElem?_setIfInBounds_self_of_lt inside⟩
      · exact (settling.known other least (by rwa [unchanged same])).setIfInBounds _

end Relax

section Sweeps

variable {graph : HeapGraph} {order : Postorder} {candidates : Candidates} {level : Nat}

/-- The numbers of an order descend along an edge to each of them. -/
theorem descends (sound : order.Sound graph) : Descends (Arrives graph order) order.size where
  within edge := ⟨edge.1, edge.2.1⟩
  fromAbove within := exists_arrives_above sound within

/-- Bringing the next number up to date makes the sweep pass it. -/
theorem Settling.relax (made : graph.Made) (sound : order.Sound graph) {number : Nat}
    (below : number < order.size)
    (settling : Settling (Arrives graph order) order.size (levelAt level (number + 1)) candidates) :
    Settling (Arrives graph order) order.size (levelAt level number)
      (relax graph order candidates number) := by
  -- All proposals at a number agree, so what is written is their common joint.
  obtain ⟨joint, proposed, passed⟩ := settling.relaxed (descends sound) below
    (agreed_proposal made sound settling.rising below)
  rw [Dominance.relax, proposed]
  exact passed

/-- Before the first number of a sweep is relaxed, only the super-root has the new level. -/
theorem Settling.begin
    (settling : Settling (Arrives graph order) order.size (fun _ => level) candidates) :
    Settling (Arrives graph order) order.size (levelAt level order.size) candidates := by
  refine ⟨settling.rising, settling.under, settling.keeps, ?_, ?_⟩
  · intro number above entry nodes path few
    have least := settling.rising.le_last ⟨above, entry⟩
    rcases Nat.lt_or_eq_of_le least with below | rfl
    · rw [levelAt, if_neg (by omega)] at few
      exact settling.passes number above entry nodes path few
    · -- The last number is its own entry and the root of all ways.
      rw [settling.rising.top] at entry
      cases entry
      exact path.mem
  · intro number least positive
    rcases Nat.lt_or_eq_of_le least with below | rfl
    · rw [levelAt, if_neg (by omega)] at positive
      exact settling.known number least positive
    · exact ⟨_, settling.rising.top⟩

/-- Once a sweep has passed all numbers, all have the new level. -/
theorem levelAt_zero (level : Nat) : levelAt level 0 = fun _ => level + 1 :=
  funext fun number => if_pos (Nat.zero_le number)

/-- The rest of a sweep passes all numbers that it has not come to. -/
theorem Settling.foldl_relax (made : graph.Made) (sound : order.Sound graph) {left : Nat}
    (within : left ≤ order.size)
    (settling : Settling (Arrives graph order) order.size (levelAt level left) candidates) :
    Settling (Arrives graph order) order.size (levelAt level 0)
      ((List.range left).reverse.foldl (Dominance.relax graph order) candidates) := by
  -- The induction is on the numbers that are left, of which the highest comes next.
  induction left generalizing candidates with
  | zero => exact settling
  | succ number ih =>
    rw [foldl_reverse_range_succ]
    exact ih (by omega) (settling.relax made sound within)

/-- A sweep raises the level by one. -/
theorem Settling.sweep (made : graph.Made) (sound : order.Sound graph)
    (settling : Settling (Arrives graph order) order.size (fun _ => level) candidates) :
    Settling (Arrives graph order) order.size (fun _ => level + 1)
      (sweep graph order candidates) := by
  rw [← levelAt_zero]
  exact settling.begin.foldl_relax made sound (Nat.le_refl _)

/-- Settled candidates stay as they are however often they are swept. -/
theorem settle_of_sweep_eq (same : sweep graph order candidates = candidates) (rounds : Nat) :
    settle graph order rounds candidates = candidates := by
  cases rounds with
  | zero => rfl
  | succ rounds => rw [settle, if_pos same]

/-- An early end comes to the same as all the rounds. -/
theorem settle_succ (rounds : Nat) :
    settle graph order (rounds + 1) candidates =
      settle graph order rounds (sweep graph order candidates) := by
  rw [settle]
  split
  · -- Nothing changed, so the rounds that were left out change nothing either.
    rename_i same
    rw [same, settle_of_sweep_eq same]
  · rfl

/-- Rounds raise the level by as many. -/
theorem Settling.settle (made : graph.Made) (sound : order.Sound graph) (rounds : Nat)
    (settling : Settling (Arrives graph order) order.size (fun _ => level) candidates) :
    Settling (Arrives graph order) order.size (fun _ => level + rounds)
      (settle graph order rounds candidates) := by
  -- Each round is one sweep, whether it would have stopped early or not.
  induction rounds generalizing level candidates with
  | zero => exact settling
  | succ rounds ih =>
    rw [settle_succ]
    simpa only [Nat.add_right_comm, Nat.add_assoc] using ih (settling.sweep made sound)

/-- Before the first sweep only the super-root has an entry, and nothing is passed on. -/
theorem settling_start (edges : Nat → Nat → Prop) :
    Settling edges order.size (fun _ => 0) (start order) := by
  -- The only entry is that of the super-root, which is its own.
  have only {number above : Nat} (entry : (start order)[number]? = some (some above)) :
      number = order.size ∧ above = order.size := by
    rw [start, Array.getElem?_push] at entry
    split at entry
    · rename_i last
      cases entry
      exact ⟨by simpa using last, rfl⟩
    · rw [Array.getElem?_replicate] at entry
      split at entry <;> cases entry
  refine ⟨⟨by simp [start],
    by rw [start, Array.getElem?_push, if_pos (Array.size_replicate ..).symm], ?_⟩, ?_, ?_, ?_, ?_⟩
  · intro number above below entry
    have last := (only entry).1
    omega
  · intro number above entry
    obtain ⟨rfl, rfl⟩ := only entry
    exact .here
  · intro number above entry other strict
    obtain ⟨rfl, rfl⟩ := only entry
    exact strict.2
  · intro number above entry nodes path few
    exact absurd few (Nat.not_lt_zero _)
  · intro number least positive
    exact absurd positive (Nat.lt_irrefl _)

end Sweeps

/-- Candidates that are the immediate dominators, so that ways up are the dominators. -/
structure Settled (edges : Nat → Nat → Prop) (last : Nat) (candidates : Candidates) : Prop where
  rising : Rising candidates last
  immediate : ∀ number, number < last → ∃ above, candidates[number]? = some (some above) ∧
    Flow.ImmediatelyDominates edges last above number
  onWay_iff : ∀ number, number ≤ last → ∀ higher,
    OnWay candidates number higher ↔ Flow.Dominates edges last higher number

/-- At a level above the last number, candidates have settled. -/
theorem Settling.settled {edges : Nat → Nat → Prop} {last level : Nat} {candidates : Candidates}
    (descends : Descends edges last) (enough : last < level)
    (settling : Settling edges last (fun _ => level) candidates) :
    Settled edges last candidates := by
  -- The level is above the retreats of every way that passes nothing twice.
  have dominates {number above : Nat} (entry : candidates[number]? = some (some above)) :
      Flow.Dominates edges last above number := by
    intro nodes path
    -- A way that passes nothing twice is too short to have many retreats.
    obtain ⟨direct, reached, nodup, part⟩ := path.exists_nodup
    have within : ∀ node ∈ direct, node ≤ last :=
      reached.forall_mem (Nat.le_refl _) fun edge => Nat.le_of_lt (descends.within edge).2
    have short : direct.length ≤ (List.range (last + 1)).length :=
      (nodup.subperm fun node member =>
        List.mem_range.mpr (Nat.lt_succ_of_le (within node member))).length_le
    have begun : direct ≠ [] := List.ne_nil_of_mem reached.mem
    have few := retreats_lt_length begun
    rw [List.length_range] at short
    exact part (settling.passes number above entry direct reached (by omega))
  refine ⟨settling.rising, fun number below => ?_, fun number least higher => ⟨fun way => ?_, ?_⟩⟩
  · obtain ⟨above, entry⟩ := settling.known number (Nat.le_of_lt below) (by omega)
    have rises := (settling.rising.up number above below entry).1
    exact ⟨above, entry, ⟨Nat.ne_of_gt rises, dominates entry⟩, fun other _ strict =>
      settling.keeps number above entry other strict⟩
  · -- Entries dominate, and so do the entries of entries.
    induction way with
    | here => exact .refl
    | up entry way ih =>
      exact (ih (settling.rising.le_last (settling.rising.known_above entry))).trans
        (dominates entry)
  · exact settling.onWay_of_dominates (settling.known number least (by omega))

/-- The candidates of a heap settle on the immediate dominators. -/
theorem settled_candidatesOf {graph : HeapGraph} {order : Postorder} (made : graph.Made)
    (sound : order.Sound graph) :
    Settled (Arrives graph order) order.size (candidatesOf graph order) := by
  -- There are more rounds than there are numbers.
  have rounds := (settling_start (Arrives graph order)).settle made sound (roundBound order)
  refine rounds.settled (descends sound) ?_
  rw [roundBound]
  have square := Nat.le_mul_self (order.size + 1)
  omega

end HeapAtlas.Dominance
