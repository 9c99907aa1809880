import HeapAtlas.Proofs.Residency.Gates

/-! Gates that nobody needs: how one is left in the table, and that it is left there in no other
way. -/

namespace HeapAtlas

/-- Whether a caller has its answer and has yet to clean up. -/
def Phase.isSettled {ε α : Type} : Phase ε α → Bool
  | settled _ => true
  | waiting | inside | loading | cleaned _ | outside _ => false

namespace House

variable {ε α : Type}

/-- Every gate of the table is that of a caller that has yet to clean up. -/
def Tended (house : House ε α) : Prop :=
  ∀ entry ∈ house.gates, ∃ call ∈ house.calls,
    call.phase.needsGate = true ∧ (call.key, call.gate) = entry

/-- A step in which a caller that cleans up leaves its gate to others, all of whom have gone out
already and have only not forgotten it yet. -/
def Strands (house next : House ε α) : Prop :=
  ∃ call ∈ house.calls,
    (∃ answer, call.phase = .settled answer ∧
      next = house.cleanUp call.caller call.key call.gate answer) ∧
    (∃ other ∈ house.calls, other.gate = call.gate ∧ other ≠ call) ∧
    ∀ other ∈ house.calls, other.gate = call.gate → other ≠ call →
      ∃ answer, other.phase = .outside answer

/-- The houses that steps lead to none of which leaves a gate to callers that have gone out. -/
inductive Orderly (capacity : Nat) : House ε α → Prop where
  | start : Orderly capacity (ofCapacity capacity)
  | step {house next : House ε α} : Orderly capacity house → Step house next →
      ¬ Strands house next → Orderly capacity next

variable {house next : House ε α} {call : Call ε α} {capacity : Nat}

section Tending

/-- A gate that is known in more than two places is known to another caller. -/
theorem Guarded.exists_other (guarded : house.Guarded) (call : Call ε α)
    (many : 2 < house.references call.gate) :
    ∃ other ∈ house.calls, other.gate = call.gate ∧ other ≠ call := by
  by_contra alone
  have onlyCall : ∀ other ∈ house.calls, other.gate = call.gate → other = call := by
    intro other there same
    by_contra differs
    exact alone ⟨other, there, same, differs⟩
  -- The table counts once and the caller counts once, which is no more than two.
  have inTable : house.gates.countP (·.2 = call.gate) ≤ 1 := by
    refine countP_le_one_of_nodup _ (guarded.numbers.of_map _) ?_
    intro one here other there oneSame otherSame
    simp only [decide_eq_true_eq] at oneSame otherSame
    exact List.inj_on_of_nodup_map guarded.numbers here there (oneSame.trans otherSame.symm)
  have withCallers : house.calls.countP (·.gate = call.gate) ≤ 1 := by
    refine countP_le_one_of_nodup _ (guarded.callers.of_map _) ?_
    intro one here other there oneSame otherSame
    simp only [decide_eq_true_eq] at oneSame otherSame
    exact (onlyCall one here oneSame).trans (onlyCall other there otherSame).symm
  rw [references] at many
  omega

/-- While nobody has an answer and has yet to clean up, no gate is left to others. -/
theorem not_strands_of_unsettled (unsettled : house.calls.any (·.phase.isSettled) = false) :
    ¬ Strands house next := by
  intro strands
  obtain ⟨call, under, ⟨answer, due, _⟩, _⟩ := strands
  exact List.any_eq_false.mp unsettled call under (by rw [due]; rfl)

/-- An empty house has no gates to tend. -/
theorem tended_ofCapacity (capacity : Nat) : (ofCapacity capacity : House ε α).Tended := by
  intro entry listed
  cases listed

/-- A caller may go on as long as it does not give up its gate. -/
theorem Tended.setPhase (tended : house.Tended) (guarded : house.Guarded)
    (under : call ∈ house.calls) (phase : Phase ε α)
    (needs : call.phase.needsGate = true → phase.needsGate = true) :
    (house.setPhase call.caller phase).Tended := by
  intro entry listed
  obtain ⟨keeper, there, keeps, same⟩ := tended entry listed
  -- The keeper of a gate is the caller whose phase is set, or somebody else.
  by_cases one : keeper.caller = call.caller
  · have equal := List.inj_on_of_nodup_map guarded.callers there under one
    subst equal
    exact ⟨{ keeper with phase := phase }, (guarded.mem_setPhase there).mpr (.inl rfl),
      needs keeps, same⟩
  · exact ⟨keeper, (guarded.mem_setPhase under).mpr (.inr ⟨there, one⟩), keeps, same⟩

/-- A gate of the table is an old one, or that of the key which was asked for. -/
theorem mem_gates_gateOf {key : String} {entry : String × Nat}
    (listed : entry ∈ (house.gateOf key).2.gates) :
    entry ∈ house.gates ∨ entry = (key, (house.gateOf key).1) := by
  unfold gateOf at listed ⊢
  -- A key that has a gate leaves the table as it is.
  cases found : house.gates.lookup key with
  | some gate =>
    rw [found] at listed
    exact .inl listed
  | none =>
    rw [found] at listed
    exact (List.mem_cons.mp listed).symm

/-- A caller that asks for a gate tends it. -/
theorem Tended.request (tended : house.Tended) (caller : Nat) (key : String) :
    (house.request caller key).2.Tended := by
  rcases house.request_cases caller key with hit | ⟨_, miss⟩
  · rw [hit]
    exact tended
  · rw [miss]
    intro entry listed
    -- An old gate keeps its keeper, and a new one is kept by the caller who asks.
    rcases mem_gates_gateOf listed with old | rfl
    · obtain ⟨keeper, there, keeps⟩ := tended entry old
      refine ⟨keeper, List.mem_cons_of_mem _ ?_, keeps⟩
      rw [calls_gateOf]
      exact there
    · exact ⟨_, List.mem_cons_self, rfl, rfl⟩

/-- A caller that has gone out tends no gate that it could forget. -/
theorem Tended.forget (tended : house.Tended) (guarded : house.Guarded)
    (under : call ∈ house.calls) (idle : call.phase.needsGate = false) :
    (house.forget call.caller).Tended := by
  intro entry listed
  obtain ⟨keeper, there, keeps, same⟩ := tended entry listed
  refine ⟨keeper, List.mem_filter.mpr ⟨there, ?_⟩, keeps, same⟩
  -- Whoever tends a gate still needs it, which this caller no longer does.
  have differs : keeper.caller ≠ call.caller := by
    intro one
    rw [List.inj_on_of_nodup_map guarded.callers there under one, idle] at keeps
    cases keeps
  simpa using differs

/-- A caller that cleans up leaves no gate behind if, of the others that know its gate, one has yet
to clean up. -/
theorem Tended.cleanUp (tended : house.Tended) (guarded : house.Guarded)
    (under : call ∈ house.calls) {answer : Except ε α} (due : call.phase = .settled answer)
    (left : ¬ Strands house (house.cleanUp call.caller call.key call.gate answer)) :
    (house.cleanUp call.caller call.key call.gate answer).Tended := by
  have needs : call.phase.needsGate = true := by rw [due]; rfl
  have tabled := guarded.tabled call under needs
  -- A gate with another number is tended by another caller, who goes on tending it.
  have others : ∀ keeper ∈ house.calls, keeper.gate ≠ call.gate →
      keeper ∈ (house.setPhase call.caller (.cleaned answer)).calls := by
    intro keeper there differs
    refine (guarded.mem_setPhase under).mpr (.inr ⟨there, fun one => differs ?_⟩)
    exact congrArg Call.gate (List.inj_on_of_nodup_map guarded.callers there under one)
  intro entry listed
  by_cases few : house.references call.gate ≤ 2
  · rw [House.cleanUp, if_pos few] at listed ⊢
    obtain ⟨before, kept⟩ := List.mem_filter.mp listed
    obtain ⟨keeper, there, keeps, rfl⟩ := tended entry before
    refine ⟨keeper, others keeper there fun same => ?_, keeps, rfl⟩
    exact absurd ((guarded.gate_eq_iff there under keeps needs).mp same) (by simpa using kept)
  · rw [House.cleanUp, if_neg few] at listed ⊢
    obtain ⟨keeper, there, keeps, rfl⟩ := tended entry listed
    by_cases same : keeper.gate = call.gate
    · -- Somebody else knows the gate, and not all who do have gone out.
      have known := guarded.exists_other call (by omega)
      have waits : ∃ other ∈ house.calls, other.gate = call.gate ∧ other ≠ call ∧
          ∀ answer, other.phase ≠ .outside answer := by
        by_contra all
        refine left ⟨call, under, ⟨answer, due, rfl⟩, known, fun other here shared differs => ?_⟩
        by_contra inside
        exact all ⟨other, here, shared, differs, fun given out => inside ⟨given, out⟩⟩
      obtain ⟨other, here, shared, differs, inside⟩ := waits
      have otherNeeds : other.phase.needsGate = true := by
        cases phase : other.phase with
        | waiting | inside | loading | settled => rfl
        | cleaned given =>
          -- Two callers would be inside one gate.
          exact absurd (guarded.alone other here call under shared (by rw [phase]; rfl)
            (by rw [due]; rfl)) differs
        | outside given => exact absurd phase (inside given)
      have callers : other.caller ≠ call.caller := fun one =>
        differs (List.inj_on_of_nodup_map guarded.callers here under one)
      refine ⟨other, (guarded.mem_setPhase under).mpr (.inr ⟨here, callers⟩), otherNeeds, ?_⟩
      have sameGate : other.gate = keeper.gate := shared.trans same.symm
      rw [(guarded.gate_eq_iff here there otherNeeds keeps).mp sameGate, sameGate]
    · exact ⟨keeper, others keeper there same, keeps, rfl⟩

end Tending

/-- A gate left to callers that have gone out is tended by nobody. -/
theorem Strands.not_tended (strands : Strands house next) (guarded : house.Guarded) :
    ¬ next.Tended := by
  obtain ⟨call, under, ⟨answer, due, rfl⟩, ⟨other, there, shared, differs⟩, out⟩ := strands
  have tabled := guarded.tabled call under (by rw [due]; rfl)
  have many : ¬ house.references call.gate ≤ 2 := fun few =>
    differs (eq_of_references_le_two few tabled under there shared)
  intro tended
  rw [House.cleanUp, if_neg many] at tended
  obtain ⟨keeper, changed, keeps, same⟩ := tended (call.key, call.gate) tabled
  -- Neither the caller itself nor any other that knows the gate needs it any more.
  rcases (guarded.mem_setPhase under).mp changed with rfl | ⟨member, callers⟩
  · cases keeps
  · obtain ⟨given, gone⟩ := out keeper member (congrArg Prod.snd same)
      fun one => callers (congrArg Call.caller one)
    rw [gone] at keeps
    cases keeps

/-- A step leaves a gate that nobody needs exactly when it strands one. -/
theorem Tended.step_iff (tended : house.Tended) (guarded : house.Guarded)
    (step : Step house next) : next.Tended ↔ ¬ Strands house next := by
  refine ⟨fun after strands => strands.not_tended guarded after, fun left => ?_⟩
  have underWay {call : Call ε α} (found : house.call? call.caller = some call) :
      call ∈ house.calls := (guarded.call?_eq_some_iff.mp found).1
  -- All steps but that of cleaning up leave each keeper where it is.
  cases step with
  | request caller key idle => exact tended.request caller key
  | enter found due free => exact tended.setPhase guarded (underWay found) _ fun _ => rfl
  | @lookAgain call found due =>
    rcases house.lookAgain_cases call.caller call.key with ⟨value, _, hit⟩ | ⟨_, miss⟩
    · rw [hit]
      exact tended.setPhase guarded (underWay found) (.settled (.ok value)) fun _ => rfl
    · rw [miss]
      exact tended.setPhase guarded (underWay found) .loading fun _ => rfl
  | settle found due answer =>
    exact tended.setPhase guarded (underWay found) (.settled answer) fun _ => rfl
  | cleanUp found due => exact tended.cleanUp guarded (underWay found) due left
  | goOut found due =>
    exact tended.setPhase guarded (underWay found) _ (by rw [due]; exact fun needs => needs)
  | forget found due => exact tended.forget guarded (underWay found) (by rw [due]; rfl)
  | get | evict | clear => exact tended

/-- As long as nobody was left stranded, a house is guarded and tended. -/
theorem Orderly.guarded_and_tended (orderly : house.Orderly capacity) :
    house.Guarded ∧ house.Tended := by
  induction orderly with
  | start => exact ⟨guarded_ofCapacity capacity, tended_ofCapacity capacity⟩
  | step _ step left ih => exact ⟨ih.1.step step, (ih.2.step_iff ih.1 step).mpr left⟩

/-- An orderly history is a history. -/
theorem Orderly.reachable (orderly : house.Orderly capacity) : house.Reachable capacity := by
  induction orderly with
  | start => exact .start
  | step _ step _ ih => exact ih.step step

/-- As long as nobody cleans up while all others that know its gate have gone out, every gate is
that of a caller that has yet to clean up, and without callers there is no gate; the first step
that breaks this is one in which somebody does. -/
theorem Orderly.gates_tended (orderly : house.Orderly capacity) :
    house.Tended ∧ (house.calls = [] → house.gates = []) ∧
      ∀ next, Step house next → (next.Tended ↔ ¬ Strands house next) := by
  obtain ⟨guarded, tended⟩ := orderly.guarded_and_tended
  refine ⟨tended, fun nobody => ?_, fun next step => tended.step_iff guarded step⟩
  -- A gate in the table would have somebody who tends it.
  refine List.eq_nil_iff_forall_not_mem.mpr fun entry listed => ?_
  obtain ⟨call, under, _⟩ := tended entry listed
  rw [nobody] at under
  cases under

section TwoCallers

/-- Two callers have asked for a key, and the first one has loaded its value. -/
def loadedByFirst : House String Nat :=
  let asked := (((ofCapacity 1).request 0 "a").2.request 1 "a").2
  ((asked.enter 0).lookAgain 0 "a").2.settle 0 "a" (.ok 7)

/-- The first caller loads in an orderly way, with the second one behind the gate. -/
theorem orderly_loadedByFirst : loadedByFirst.Orderly 1 := by
  let asked : House String Nat := (((ofCapacity 1).request 0 "a").2.request 1 "a").2
  -- Nobody has an answer on the way, so no step leaves anyone stranded.
  have ofAsked : asked.Orderly 1 :=
    (Orderly.start.step (.request 0 "a" rfl) (not_strands_of_unsettled rfl)).step
      (.request 1 "a" rfl) (not_strands_of_unsettled rfl)
  have ofEntered : (asked.enter 0).Orderly 1 :=
    ofAsked.step (@Step.enter _ _ asked ⟨0, "a", 0, .waiting⟩ rfl rfl rfl)
      (not_strands_of_unsettled rfl)
  have ofLoading : ((asked.enter 0).lookAgain 0 "a").2.Orderly 1 :=
    ofEntered.step (@Step.lookAgain _ _ (asked.enter 0) ⟨0, "a", 0, .inside⟩ rfl rfl)
      (not_strands_of_unsettled rfl)
  exact ofLoading.step (@Step.settle _ _ ((asked.enter 0).lookAgain 0 "a").2
    ⟨0, "a", 0, .loading⟩ rfl rfl (.ok 7)) (not_strands_of_unsettled rfl)

/-- The first one leaves the gate to the second, goes out and forgets it, so that the second one
takes it down. -/
theorem gates_tended_of_two :
    let forgotten := ((loadedByFirst.cleanUp 0 "a" 0 (.ok 7)).goOut 0 (.ok 7)).forget 0
    let found := ((forgotten.enter 1).lookAgain 1 "a").2
    let last := ((found.cleanUp 1 "a" 0 (.ok 7)).goOut 1 (.ok 7)).forget 1
    forgotten.gates = [("a", 0)] ∧ last.Orderly 1 ∧ last.gates = [] := by
  intro forgotten found last
  let cleaned := loadedByFirst.cleanUp 0 "a" 0 (.ok 7)
  have ofCleaned : cleaned.Orderly 1 := by
    refine orderly_loadedByFirst.step
      (@Step.cleanUp _ _ loadedByFirst ⟨0, "a", 0, .settled (.ok 7)⟩ _ rfl rfl) ?_
    -- The second caller has not gone out, but waits.
    rintro ⟨call, under, ⟨answer, due, _⟩, _, out⟩
    have calls : loadedByFirst.calls =
        [⟨1, "a", 0, .waiting⟩, ⟨0, "a", 0, .settled (.ok 7)⟩] := rfl
    simp only [calls, List.mem_cons, List.not_mem_nil, or_false] at under out
    rcases under with rfl | rfl
    · cases due
    · obtain ⟨given, gone⟩ := out ⟨1, "a", 0, .waiting⟩ (.inl rfl) rfl (by simp)
      cases gone
  have ofOut : (cleaned.goOut 0 (.ok 7)).Orderly 1 :=
    ofCleaned.step (@Step.goOut _ _ cleaned ⟨0, "a", 0, .cleaned (.ok 7)⟩ _ rfl rfl)
      (not_strands_of_unsettled rfl)
  have ofForgotten : forgotten.Orderly 1 :=
    ofOut.step (@Step.forget _ _ (cleaned.goOut 0 (.ok 7)) ⟨0, "a", 0, .outside (.ok 7)⟩ _ rfl rfl)
      (not_strands_of_unsettled rfl)
  have ofFound : found.Orderly 1 :=
    (ofForgotten.step (@Step.enter _ _ forgotten ⟨1, "a", 0, .waiting⟩ rfl rfl rfl)
      (not_strands_of_unsettled rfl)).step
      (@Step.lookAgain _ _ (forgotten.enter 1) ⟨1, "a", 0, .inside⟩ rfl rfl)
      (not_strands_of_unsettled rfl)
  let again := found.cleanUp 1 "a" 0 (.ok 7)
  have ofAgain : again.Orderly 1 := by
    refine ofFound.step (@Step.cleanUp _ _ found ⟨1, "a", 0, .settled (.ok 7)⟩ _ rfl rfl) ?_
    -- Nobody else is under way.
    rintro ⟨call, under, _, ⟨other, there, _, differs⟩, _⟩
    have calls : found.calls = [⟨1, "a", 0, .settled (.ok 7)⟩] := rfl
    simp only [calls, List.mem_singleton] at under there
    exact differs (there.trans under.symm)
  have ofLast : last.Orderly 1 :=
    (ofAgain.step (@Step.goOut _ _ again ⟨1, "a", 0, .cleaned (.ok 7)⟩ _ rfl rfl)
      (not_strands_of_unsettled rfl)).step
      (@Step.forget _ _ (again.goOut 1 (.ok 7)) ⟨1, "a", 0, .outside (.ok 7)⟩ _ rfl rfl)
      (not_strands_of_unsettled rfl)
  exact ⟨rfl, ofLast, ofLast.gates_tended.2.1 rfl⟩

/-- The first one goes out and has not forgotten the gate when the second one cleans up: the gate
stays in the table after both. -/
theorem gate_left_behind :
    let out := (loadedByFirst.cleanUp 0 "a" 0 (.ok 7)).goOut 0 (.ok 7)
    let found := ((out.enter 1).lookAgain 1 "a").2
    let left := (found.cleanUp 1 "a" 0 (.ok 7)).goOut 1 (.ok 7)
    let last := (left.forget 0).forget 1
    last.Reachable 1 ∧ last.calls = [] ∧ last.gates = [("a", 0)] := by
  intro out found left last
  let cleaned := loadedByFirst.cleanUp 0 "a" 0 (.ok 7)
  have ofOut : out.Reachable 1 :=
    (orderly_loadedByFirst.reachable.step
      (@Step.cleanUp _ _ loadedByFirst ⟨0, "a", 0, .settled (.ok 7)⟩ _ rfl rfl)).step
      (@Step.goOut _ _ cleaned ⟨0, "a", 0, .cleaned (.ok 7)⟩ _ rfl rfl)
  -- The gate is free, but the first caller still knows it.
  have ofFound : found.Reachable 1 :=
    (ofOut.step (@Step.enter _ _ out ⟨1, "a", 0, .waiting⟩ rfl rfl rfl)).step
      (@Step.lookAgain _ _ (out.enter 1) ⟨1, "a", 0, .inside⟩ rfl rfl)
  let again := found.cleanUp 1 "a" 0 (.ok 7)
  have ofLeft : left.Reachable 1 :=
    (ofFound.step (@Step.cleanUp _ _ found ⟨1, "a", 0, .settled (.ok 7)⟩ _ rfl rfl)).step
      (@Step.goOut _ _ again ⟨1, "a", 0, .cleaned (.ok 7)⟩ _ rfl rfl)
  have ofLast : last.Reachable 1 :=
    (ofLeft.step (@Step.forget _ _ left ⟨0, "a", 0, .outside (.ok 7)⟩ _ rfl rfl)).step
      (@Step.forget _ _ (left.forget 0) ⟨1, "a", 0, .outside (.ok 7)⟩ _ rfl rfl)
  exact ⟨ofLast, rfl, rfl⟩

end TwoCallers

end House

end HeapAtlas
