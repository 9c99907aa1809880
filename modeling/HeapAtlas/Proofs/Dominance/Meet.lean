import HeapAtlas.Dominance.Tree

/-! Ways up through the candidates, and that two of them meet in what they have in common. -/

namespace HeapAtlas.Dominance

variable {candidates : Candidates} {last number other above higher : Nat}

/-- Induction from the last number down, where each below it may rely on all that are above. -/
@[elab_as_elim]
theorem climb_induction {motive : (number : Nat) → number ≤ last → Prop}
    (arrived : motive last (Nat.le_refl last))
    (climbs : ∀ (number : Nat) (below : number < last),
      (∀ (above : Nat) (least : above ≤ last), number < above → motive above least) →
        motive number (Nat.le_of_lt below))
    (number : Nat) (within : number ≤ last) : motive number within := by
  -- The induction is on how far the number stands below the last.
  induction distance : last - number using Nat.strongRecOn generalizing number with
  | ind distance ih =>
    rcases Nat.lt_or_eq_of_le within with below | rfl
    · refine climbs number below fun above least rises => ?_
      exact ih (last - above) (by omega) above least rfl
    · exact arrived

/-- A number that has an entry. -/
def Known (candidates : Candidates) (number : Nat) : Prop :=
  ∃ above, candidates[number]? = some (some above)

/-- What is met on the way up from a number, which begins with the number itself. -/
inductive OnWay (candidates : Candidates) : Nat → Nat → Prop where
  | here {number : Nat} : OnWay candidates number number
  | up {number above higher : Nat} (entry : candidates[number]? = some (some above))
    (way : OnWay candidates above higher) : OnWay candidates number higher

/-- Candidates whose entries lead up, one after another, to the last number. -/
structure Rising (candidates : Candidates) (last : Nat) : Prop where
  size : candidates.size = last + 1
  top : candidates[last]? = some (some last)
  up : ∀ number above, number < last → candidates[number]? = some (some above) →
    number < above ∧ above ≤ last ∧ Known candidates above

/-- Numbers with an entry are no higher than the last. -/
theorem Rising.le_last (rising : Rising candidates last) (known : Known candidates number) :
    number ≤ last := by
  obtain ⟨above, entry⟩ := known
  have within := (Array.getElem?_eq_some_iff.mp entry).1
  rw [rising.size] at within
  omega

/-- Entries do not lead down. -/
theorem Rising.le_above (rising : Rising candidates last)
    (entry : candidates[number]? = some (some above)) : number ≤ above := by
  -- Below the last number entries lead up, and the last is its own.
  rcases Nat.lt_or_ge number last with below | atLast
  · exact Nat.le_of_lt (rising.up number above below entry).1
  · have equal : number = last := Nat.le_antisymm (rising.le_last ⟨above, entry⟩) atLast
    rw [equal, rising.top] at entry
    cases entry
    exact Nat.le_of_eq equal

/-- An entry leads to a number with an entry. -/
theorem Rising.known_above (rising : Rising candidates last)
    (entry : candidates[number]? = some (some above)) : Known candidates above := by
  -- The last number is its own entry, and any other has one that is known.
  rcases Nat.lt_or_ge number last with below | atLast
  · exact (rising.up number above below entry).2.2
  · have equal : number = last := Nat.le_antisymm (rising.le_last ⟨above, entry⟩) atLast
    rw [equal, rising.top] at entry
    cases entry
    exact ⟨last, rising.top⟩

/-- Ways up do not lead down. -/
theorem Rising.le_of_onWay (rising : Rising candidates last)
    (way : OnWay candidates number higher) : number ≤ higher := by
  -- The way goes from entry to entry, and none of these leads down.
  induction way with
  | here => exact Nat.le_refl _
  | up entry way ih => exact Nat.le_trans (rising.le_above entry) ih

/-- The way up from a number is the number and the way up from its entry. -/
theorem onWay_iff (entry : candidates[number]? = some (some above)) :
    OnWay candidates number higher ↔ higher = number ∨ OnWay candidates above higher := by
  constructor
  · intro way
    cases way with
    | here => exact .inl rfl
    | up found way =>
      -- The entry of a number is the only one.
      rw [entry] at found
      cases found
      exact .inr way
  · intro either
    rcases either with rfl | way
    · exact .here
    · exact .up entry way

/-- The lower of two numbers is on no way up from the higher. -/
theorem Rising.onWay_climb (rising : Rising candidates last) (below : number < other)
    (entry : candidates[number]? = some (some above)) :
    OnWay candidates number higher ∧ OnWay candidates other higher ↔
      OnWay candidates above higher ∧ OnWay candidates other higher := by
  rw [onWay_iff entry]
  constructor
  · intro both
    obtain ⟨rfl | way, wayOther⟩ := both
    · -- The way from the other number would lead down to this one.
      have least := rising.le_of_onWay wayOther
      omega
    · exact ⟨way, wayOther⟩
  · intro both
    obtain ⟨way, wayOther⟩ := both
    exact ⟨.inr way, wayOther⟩

/-- Two ways up meet, and from there on they are the same. -/
theorem Rising.meet_spec (rising : Rising candidates last) (first second : Nat)
    (knownFirst : Known candidates first) (knownSecond : Known candidates second) :
    ∃ joint, meet candidates first second = some joint ∧ Known candidates joint ∧
      ∀ higher, OnWay candidates joint higher ↔
        OnWay candidates first higher ∧ OnWay candidates second higher := by
  -- The lower number climbs, and what it leaves behind is not on the other way.
  fun_induction meet candidates first second with
  | case1 first => exact ⟨first, rfl, knownFirst, fun higher => (and_self_iff).symm⟩
  | case2 first second different below above entry up ih =>
    obtain ⟨joint, met, known, ways⟩ := ih (rising.known_above entry) knownSecond
    exact ⟨joint, met, known, fun higher =>
      (ways higher).trans (rising.onWay_climb below entry).symm⟩
  | case3 first second different below above entry stuck =>
    -- The first number is below the last, as the second is no higher, so its entry leads up.
    have short : first < last := Nat.lt_of_lt_of_le below (rising.le_last knownSecond)
    exact absurd (rising.up first above short entry).1 stuck
  | case4 first second different below missing =>
    obtain ⟨above, entry⟩ := knownFirst
    exact absurd entry (missing above)
  | case5 first second different notBelow above entry up ih =>
    obtain ⟨joint, met, known, ways⟩ := ih knownFirst (rising.known_above entry)
    -- Here the second number climbs, so the sides are exchanged.
    refine ⟨joint, met, known, fun higher => (ways higher).trans ?_⟩
    rw [and_comm, ← rising.onWay_climb (by omega) entry, and_comm]
  | case6 first second different notBelow above entry stuck =>
    -- The second number is below the last, as the first is no higher, so its entry leads up.
    have short : second < last := by
      have least := rising.le_last knownFirst
      omega
    exact absurd (rising.up second above short entry).1 stuck
  | case7 first second different notBelow missing =>
    obtain ⟨above, entry⟩ := knownSecond
    exact absurd entry (missing above)

/-- What numbers that speak for their ways up agree on: where these meet, nothing if none speaks. -/
def Agreed (candidates : Candidates) (speakers : Nat → Prop) : Option Nat → Prop
  | none => ∀ number, ¬ speakers number
  | some joint => Known candidates joint ∧
    ∀ higher, OnWay candidates joint higher ↔
      ∀ number, speakers number → OnWay candidates number higher

/-- Who agrees counts, and not how they are described. -/
theorem Agreed.congr {speakers others : Nat → Prop} {agreed : Option Nat}
    (held : Agreed candidates speakers agreed)
    (same : ∀ number, speakers number ↔ others number) : Agreed candidates others agreed :=
  (funext fun number => propext (same number) : speakers = others) ▸ held

/-- A predecessor joins those who agree when it has an entry. -/
theorem Rising.agreed_meetPredecessor (rising : Rising candidates last) {speakers : Nat → Prop}
    {agreed : Option Nat} (held : Agreed candidates speakers agreed) (predecessor : Nat) :
    Agreed candidates (fun number => speakers number ∨ number = predecessor ∧
      Known candidates number) (meetPredecessor candidates agreed predecessor) := by
  unfold meetPredecessor
  split
  · rename_i above entry
    have known : Known candidates predecessor := ⟨above, entry⟩
    cases agreed with
    | none =>
      -- The first to speak agrees with itself.
      refine ⟨known, fun higher => ⟨?_, fun all => all predecessor (.inr ⟨rfl, known⟩)⟩⟩
      intro way number speaks
      rcases speaks with spoke | ⟨rfl, _⟩
      · exact absurd spoke (held number)
      · exact way
    | some current =>
      -- The ways of those who agreed so far and of the predecessor meet.
      obtain ⟨joint, met, knownJoint, ways⟩ :=
        rising.meet_spec predecessor current known held.1
      show Agreed candidates _ (meet candidates predecessor current)
      rw [met]
      refine ⟨knownJoint, fun higher => ?_⟩
      rw [ways, held.2]
      constructor
      · intro both number speaks
        obtain ⟨way, others⟩ := both
        rcases speaks with spoke | ⟨rfl, _⟩
        · exact others number spoke
        · exact way
      · intro all
        exact ⟨all predecessor (.inr ⟨rfl, known⟩), fun number spoke => all number (.inl spoke)⟩
  · -- Without an entry the predecessor does not speak.
    rename_i missing
    refine held.congr fun number => ⟨.inl, ?_⟩
    intro speaks
    rcases speaks with spoke | ⟨rfl, above, entry⟩
    · exact spoke
    · exact absurd entry (missing above)

/-- Predecessors join those who agree where they have an entry. -/
theorem Rising.agreed_foldl (rising : Rising candidates last) (predecessors : List Nat)
    {speakers : Nat → Prop} {agreed : Option Nat} (held : Agreed candidates speakers agreed) :
    Agreed candidates (fun number => speakers number ∨ number ∈ predecessors ∧
      Known candidates number) (predecessors.foldl (meetPredecessor candidates) agreed) := by
  -- The induction is on the predecessors, and those who came before speak already.
  induction predecessors generalizing speakers agreed with
  | nil => exact held.congr fun number => by simp
  | cons predecessor rest ih =>
    refine (ih (rising.agreed_meetPredecessor held predecessor)).congr fun number => ?_
    simp only [List.mem_cons, or_and_right, or_assoc]

end HeapAtlas.Dominance
