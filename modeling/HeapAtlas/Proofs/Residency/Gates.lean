import Mathlib.Data.List.Nodup
import HeapAtlas.Proofs.Lists
import HeapAtlas.Residency.Interleaving

/-! Gates while callers come and go: a key has one gate, and a gate lets one caller through. -/

namespace HeapAtlas

/-- Whether a caller has yet to clean up, until when its gate has to stay in the table. -/
def Phase.needsGate {ε α : Type} : Phase ε α → Bool
  | waiting | inside | loading | settled _ => true
  | cleaned _ | outside _ => false

namespace House

variable {ε α : Type}

/-- Nobody calls twice at once, a gate is that of one key, whoever has yet to clean up has the gate
of its key, and nobody shares the inside of a gate. -/
structure Guarded (house : House ε α) : Prop where
  callers : (house.calls.map (·.caller)).Nodup
  keys : (house.gates.map (·.1)).Nodup
  numbers : (house.gates.map (·.2)).Nodup
  fresh : ∀ entry ∈ house.gates, entry.2 < house.nextGate
  tabled : ∀ call ∈ house.calls, call.phase.needsGate = true →
    (call.key, call.gate) ∈ house.gates
  alone : ∀ one ∈ house.calls, ∀ other ∈ house.calls, one.gate = other.gate →
    one.phase.holdsGate = true → other.phase.holdsGate = true → one = other

/-- An empty house is guarded, as nobody is in it. -/
theorem guarded_ofCapacity (capacity : Nat) : (ofCapacity capacity : House ε α).Guarded where
  callers := List.nodup_nil
  keys := List.nodup_nil
  numbers := List.nodup_nil
  fresh entry listed := by cases listed
  tabled call under := by cases under
  alone one under := by cases under

variable {house next : House ε α} {call : Call ε α} {caller : Nat} {key : String}

/-- The call of a caller is the one under way that has its number. -/
theorem Guarded.call?_eq_some_iff (guarded : house.Guarded) :
    house.call? caller = some call ↔ call ∈ house.calls ∧ call.caller = caller := by
  constructor
  · intro found
    exact ⟨List.mem_of_find?_eq_some found, by simpa using List.find?_some found⟩
  · intro under
    obtain ⟨member, rfl⟩ := under
    rw [call?]
    cases found : house.calls.find? (·.caller = call.caller) with
    | none =>
      have missing := List.find?_eq_none.mp found call member
      simp at missing
    | some other =>
      -- Two calls of one caller would be one call.
      have same : other.caller = call.caller := by simpa using List.find?_some found
      exact congrArg some (List.inj_on_of_nodup_map guarded.callers
        (List.mem_of_find?_eq_some found) member same)

/-- What stands on the shelf and what was counted has nothing to do with the gates. -/
theorem Guarded.restock (guarded : house.Guarded) (shelf : Shelf α) (loads hits : Nat) :
    Guarded { house with shelf := shelf, loads := loads, hits := hits } :=
  ⟨guarded.callers, guarded.keys, guarded.numbers, guarded.fresh, guarded.tabled, guarded.alone⟩

/-- Without a call of a caller, no call under way has its number. -/
theorem call?_eq_none_iff :
    house.call? caller = none ↔ ∀ call ∈ house.calls, call.caller ≠ caller := by
  simp [call?]

/-- Callers that have yet to clean up have one gate exactly when they ask for one key. -/
theorem Guarded.gate_eq_iff (guarded : house.Guarded) {one other : Call ε α}
    (here : one ∈ house.calls) (there : other ∈ house.calls)
    (oneNeeds : one.phase.needsGate = true) (otherNeeds : other.phase.needsGate = true) :
    one.gate = other.gate ↔ one.key = other.key := by
  -- Both gates are still in the table, where keys and numbers tell each other.
  have tabled := guarded.tabled one here oneNeeds
  have tabled' := guarded.tabled other there otherNeeds
  constructor
  · intro same
    exact congrArg Prod.fst (List.inj_on_of_nodup_map guarded.numbers tabled tabled' same)
  · intro same
    exact congrArg Prod.snd (List.inj_on_of_nodup_map guarded.keys tabled tabled' same)

section Phases

/-- A phase that changes brings no caller in and sends none out. -/
theorem callers_setPhase (house : House ε α) (caller : Nat) (phase : Phase ε α) :
    (house.setPhase caller phase).calls.map (·.caller) = house.calls.map (·.caller) := by
  rw [setPhase, List.map_map]
  refine List.map_congr_left fun call _ => ?_
  rw [Function.comp_apply]
  split <;> rfl

/-- Bringing a caller to a phase changes its own call and leaves those of all others. -/
theorem Guarded.mem_setPhase (guarded : house.Guarded) (under : call ∈ house.calls)
    {phase : Phase ε α} {other : Call ε α} :
    other ∈ (house.setPhase call.caller phase).calls ↔
      other = { call with phase := phase } ∨ other ∈ house.calls ∧ other.caller ≠ call.caller := by
  rw [setPhase, List.mem_map]
  constructor
  · intro changed
    obtain ⟨before, member, rfl⟩ := changed
    by_cases same : before.caller = call.caller
    · -- Callers differ, so this is the call whose phase is set.
      have equal := List.inj_on_of_nodup_map guarded.callers member under same
      exact .inl (by rw [if_pos same, equal])
    · exact .inr (by rw [if_neg same]; exact ⟨member, same⟩)
  · intro made
    rcases made with rfl | ⟨member, differs⟩
    · exact ⟨call, under, if_pos rfl⟩
    · exact ⟨other, member, if_neg differs⟩

/-- A caller may go on to a phase in which it needs its gate no more than before, and holds it only
if it did before or if nobody does. -/
theorem Guarded.setPhase (guarded : house.Guarded) (under : call ∈ house.calls)
    (phase : Phase ε α) (needs : phase.needsGate = true → call.phase.needsGate = true)
    (holds : phase.holdsGate = true →
      call.phase.holdsGate = true ∨ house.isHeld call.gate = false) :
    (house.setPhase call.caller phase).Guarded := by
  -- Nobody but the caller holds its gate, if it holds it now.
  have nobody : phase.holdsGate = true → ∀ other ∈ house.calls, other.caller ≠ call.caller →
      other.gate = call.gate → other.phase.holdsGate = false := by
    intro now other member differs same
    by_contra held
    rw [Bool.not_eq_false] at held
    rcases holds now with before | free
    · exact differs (congrArg Call.caller (guarded.alone other member call under same held before))
    · rw [isHeld, List.any_eq_false] at free
      exact free other member (by simp [same, held])
  refine ⟨?_, guarded.keys, guarded.numbers, guarded.fresh, fun other changed needed => ?_,
    fun one here other there => ?_⟩
  · rw [callers_setPhase]
    exact guarded.callers
  · rcases (guarded.mem_setPhase under).mp changed with rfl | ⟨member, _⟩
    · exact guarded.tabled call under (needs needed)
    · exact guarded.tabled other member needed
  · intro same oneHolds otherHolds
    rcases (guarded.mem_setPhase under).mp here with rfl | ⟨member, differs⟩ <;>
      rcases (guarded.mem_setPhase under).mp there with rfl | ⟨member', differs'⟩
    · rfl
    · rw [nobody oneHolds other member' differs' same.symm] at otherHolds
      cases otherHolds
    · rw [nobody otherHolds one member differs same] at oneHolds
      cases oneHolds
    · exact guarded.alone one member other member' same oneHolds otherHolds

end Phases

section Table

/-- Asking for a gate puts nothing on the shelf and begins no call. -/
theorem shelf_gateOf (house : House ε α) (key : String) :
    (house.gateOf key).2.shelf = house.shelf := by
  unfold gateOf
  split <;> rfl

/-- Looking for a gate leaves the callers as they are. -/
theorem calls_gateOf (house : House ε α) (key : String) :
    (house.gateOf key).2.calls = house.calls := by
  unfold gateOf
  split <;> rfl

/-- The gate of a key is in the table once it was asked for, and all others stay as they are. -/
theorem Guarded.gateOf (guarded : house.Guarded) (key : String) :
    (house.gateOf key).2.Guarded ∧ (key, (house.gateOf key).1) ∈ (house.gateOf key).2.gates ∧
      house.gates ⊆ (house.gateOf key).2.gates := by
  rw [House.gateOf]
  cases found : house.gates.lookup key with
  | some gate =>
    exact ⟨guarded, (lookup_eq_some_iff guarded.keys).mp found, List.Subset.refl _⟩
  | none =>
    -- The key and the gate are new in the table, so that both come there once.
    have absent : key ∉ house.gates.map (·.1) := by
      rw [← lookup_isSome_iff, found]
      simp
    have unused : house.nextGate ∉ house.gates.map (·.2) := by
      intro used
      obtain ⟨entry, listed, same⟩ := List.mem_map.mp used
      have below := guarded.fresh entry listed
      omega
    refine ⟨⟨guarded.callers, List.nodup_cons.mpr ⟨absent, guarded.keys⟩,
      List.nodup_cons.mpr ⟨unused, guarded.numbers⟩, fun entry listed => ?_,
      fun call under needs => List.mem_cons_of_mem _ (guarded.tabled call under needs),
      guarded.alone⟩, List.mem_cons_self, List.subset_cons_self _ _⟩
    rcases List.mem_cons.mp listed with rfl | before
    · exact Nat.lt_succ_self _
    · exact Nat.lt_succ_of_lt (guarded.fresh entry before)

/-- A caller that is not under way may begin to wait for a gate of the table. -/
theorem Guarded.admit (guarded : house.Guarded) (idle : house.call? caller = none) {gate : Nat}
    (tabled : (key, gate) ∈ house.gates) :
    Guarded { house with calls := ⟨caller, key, gate, .waiting⟩ :: house.calls } := by
  have absent : caller ∉ house.calls.map (·.caller) := by
    intro twice
    obtain ⟨call, under, same⟩ := List.mem_map.mp twice
    exact call?_eq_none_iff.mp idle call under same
  refine ⟨List.nodup_cons.mpr ⟨absent, guarded.callers⟩, guarded.keys, guarded.numbers,
    guarded.fresh, fun call under needs => ?_,
    fun one here other there same oneHolds otherHolds => ?_⟩
  · rcases List.mem_cons.mp under with rfl | before
    · exact tabled
    · exact guarded.tabled call before needs
  · -- Who waits does not hold.
    rcases List.mem_cons.mp here with rfl | here
    · cases oneHolds
    · rcases List.mem_cons.mp there with rfl | there
      · cases otherHolds
      · exact guarded.alone one here other there same oneHolds otherHolds

/-- The gate of a key may leave the table when nobody needs it. -/
theorem Guarded.takeDown (guarded : house.Guarded) (key : String)
    (unneeded : ∀ call ∈ house.calls, call.phase.needsGate = true → call.key ≠ key) :
    Guarded { house with gates := house.gates.filter (·.1 ≠ key) } where
  callers := guarded.callers
  keys := guarded.keys.sublist (List.filter_sublist.map _)
  numbers := guarded.numbers.sublist (List.filter_sublist.map _)
  fresh entry listed := guarded.fresh entry (List.mem_of_mem_filter listed)
  -- Only the entry of this key is gone, and no caller relies on it.
  tabled call under needs := by
    refine List.mem_filter.mpr ⟨guarded.tabled call under needs, ?_⟩
    simpa using unneeded call under needs
  alone := guarded.alone

/-- A caller may end its call at any time. -/
theorem Guarded.forget (guarded : house.Guarded) (caller : Nat) :
    (house.forget caller).Guarded where
  callers := guarded.callers.sublist (List.filter_sublist.map _)
  keys := guarded.keys
  numbers := guarded.numbers
  fresh := guarded.fresh
  tabled call under needs := guarded.tabled call (List.mem_of_mem_filter under) needs
  alone one here other there :=
    guarded.alone one (List.mem_of_mem_filter here) other (List.mem_of_mem_filter there)

/-- A gate of the table that is known in two places at most is known to one caller at most. -/
theorem eq_of_references_le_two {one other : Call ε α} (few : house.references one.gate ≤ 2)
    (tabled : (key, one.gate) ∈ house.gates) (here : one ∈ house.calls)
    (there : other ∈ house.calls) (same : other.gate = one.gate) : other = one := by
  have inTable : 0 < house.gates.countP (·.2 = one.gate) :=
    List.countP_pos_iff.mpr ⟨_, tabled, by simp⟩
  rw [references] at few
  -- The table is one of the places, which leaves one for a caller.
  exact eq_of_countP_le_one (fun call => call.gate = one.gate) (by omega) there here
    (by simpa using same) (by simp)

/-- A caller that cleans up takes its gate down only if nobody else knows it. -/
theorem Guarded.cleanUp (guarded : house.Guarded) (under : call ∈ house.calls)
    {answer : Except ε α} (due : call.phase = .settled answer) :
    (house.cleanUp call.caller call.key call.gate answer).Guarded := by
  have after : (house.setPhase call.caller (.cleaned answer)).Guarded :=
    guarded.setPhase under _ (by intro needs; cases needs) (by rw [due]; exact fun _ => .inl rfl)
  have tabled := guarded.tabled call under (by rw [due]; rfl)
  by_cases few : house.references call.gate ≤ 2
  · -- Whoever else needs the gate of the key would know the same gate.
    have down := after.takeDown call.key fun other changed needs same => by
      rcases (guarded.mem_setPhase under).mp changed with rfl | ⟨member, differs⟩
      · cases needs
      · have shared : other.gate = call.gate :=
          (guarded.gate_eq_iff member under needs (by rw [due]; rfl)).mpr same
        exact differs
          (congrArg Call.caller (eq_of_references_le_two few tabled under member shared))
    rw [House.cleanUp, if_pos few]
    exact down
  · rw [House.cleanUp, if_neg few]
    exact after

end Table

/-- What asking for a value comes to: one that is there, or a place in front of the key's gate. -/
theorem request_cases (house : House ε α) (caller : Nat) (key : String) :
    (house.request caller key).2 = (house.get key).2 ∨
    house.shelf.get? key = none ∧ (house.request caller key).2 =
      let (gate, after) := (house.get key).2.gateOf key
      { after with calls := ⟨caller, key, gate, .waiting⟩ :: after.calls } := by
  unfold request House.get Shelf.touch
  -- A miss moves the clock of the shelf on as well, as a hit does.
  cases house.shelf.get? key with
  | some value => exact .inl rfl
  | none => exact .inr ⟨rfl, rfl⟩

/-- What looking again comes to: a value that is there by now, or a load. -/
theorem lookAgain_cases (house : House ε α) (caller : Nat) (key : String) :
    (∃ value, house.shelf.get? key = some value ∧
      (house.lookAgain caller key).2 =
        (house.get key).2.setPhase caller (.settled (.ok value))) ∨
    house.shelf.get? key = none ∧ (house.lookAgain caller key).2 =
      { (house.get key).2 with loads := (house.get key).2.loads + 1 }.setPhase caller .loading := by
  unfold lookAgain House.get Shelf.touch
  cases house.shelf.get? key with
  | some value => exact .inl ⟨value, rfl, rfl⟩
  | none => exact .inr ⟨rfl, rfl⟩

/-- Every step keeps order at the gates. -/
theorem Guarded.step (guarded : house.Guarded) (step : Step house next) : next.Guarded := by
  have underWay {call : Call ε α} (found : house.call? call.caller = some call) :
      call ∈ house.calls := (guarded.call?_eq_some_iff.mp found).1
  -- A step changes the shelf, which the guard does not speak of, or the phase of one caller.
  cases step with
  | request caller key idle =>
    rcases house.request_cases caller key with hit | ⟨_, miss⟩
    · rw [hit]
      exact guarded.restock _ _ _
    · rw [miss]
      obtain ⟨asked, tabled, _⟩ := (guarded.restock _ _ _).gateOf key
      exact asked.admit (by rw [call?, calls_gateOf]; exact idle) tabled
  | enter found due free =>
    exact guarded.setPhase (underWay found) _ (by rw [due]; exact fun _ => rfl) fun _ => .inr free
  | @lookAgain call found due =>
    rcases house.lookAgain_cases call.caller call.key with ⟨value, _, hit⟩ | ⟨_, miss⟩
    · have asked : (house.get call.key).2.Guarded := guarded.restock _ _ _
      rw [hit]
      exact asked.setPhase (underWay found) _ (by rw [due]; exact fun _ => rfl)
        (by rw [due]; exact fun _ => .inl rfl)
    · have asked : Guarded { (house.get call.key).2 with
          loads := (house.get call.key).2.loads + 1 } := guarded.restock _ _ _
      rw [miss]
      exact asked.setPhase (underWay found) _ (by rw [due]; exact fun _ => rfl)
        (by rw [due]; exact fun _ => .inl rfl)
  | @settle call found due answer =>
    have moved := guarded.setPhase (underWay found) (.settled answer)
      (by rw [due]; exact fun _ => rfl) (by rw [due]; exact fun _ => .inl rfl)
    exact moved.restock _ _ _
  | cleanUp found due => exact guarded.cleanUp (underWay found) due
  | goOut found due =>
    exact guarded.setPhase (underWay found) _ (by intro needs; cases needs)
      (by intro holds; cases holds)
  | forget found due => exact guarded.forget _
  | get key => exact guarded.restock _ _ _
  | evict key => exact guarded.restock _ _ _
  | clear => exact guarded.restock _ _ _

/-- Callers that load one key are one caller. -/
theorem Guarded.loading_alone (guarded : house.Guarded) {one other : Call ε α}
    (here : one ∈ house.calls) (there : other ∈ house.calls) (same : one.key = other.key)
    (oneLoads : one.phase = .loading) (otherLoads : other.phase = .loading) : one = other := by
  -- One key has one gate, and one gate lets one caller through.
  have shared : one.gate = other.gate :=
    (guarded.gate_eq_iff here there (by rw [oneLoads]; rfl) (by rw [otherLoads]; rfl)).mpr same
  exact guarded.alone one here other there shared (by rw [oneLoads]; rfl)
    (by rw [otherLoads]; rfl)

/-- A gate leaves the table by a caller that cleans up, while nobody else knows the gate. -/
theorem Guarded.gate_removed (guarded : house.Guarded) (step : Step house next)
    {entry : String × Nat} (before : entry ∈ house.gates) (gone : entry ∉ next.gates) :
    ∃ call ∈ house.calls, (∃ answer, call.phase = .settled answer ∧
        next = house.cleanUp call.caller call.key call.gate answer) ∧
      (call.key, call.gate) = entry ∧
        ∀ other ∈ house.calls, other.gate = entry.2 → other = call := by
  cases step with
  | request caller key idle =>
    refine absurd ?_ gone
    rcases house.request_cases caller key with hit | ⟨_, miss⟩
    · rw [hit]
      exact before
    · -- Asking for a gate only adds one.
      have asked : (house.get key).2.Guarded := guarded.restock _ _ _
      rw [miss]
      exact (asked.gateOf key).2.2 before
  | @lookAgain call found due =>
    refine absurd ?_ gone
    rcases house.lookAgain_cases call.caller call.key with ⟨_, _, hit⟩ | ⟨_, miss⟩
    · rw [hit]
      exact before
    · rw [miss]
      exact before
  | @cleanUp call answer found due =>
    have under := (guarded.call?_eq_some_iff.mp found).1
    have tabled := guarded.tabled call under (by rw [due]; rfl)
    -- Only when the gate is taken down does an entry go, and then it is that of the key.
    have known : house.references call.gate ≤ 2 ∧ entry.1 = call.key := by
      by_contra kept
      refine gone ?_
      show entry ∈ if _ then _ else _
      split
      · rename_i few
        exact List.mem_filter.mpr ⟨before, by simpa using fun same => kept ⟨few, same⟩⟩
      · exact before
    obtain ⟨few, ofKey⟩ := known
    have same : (call.key, call.gate) = entry :=
      List.inj_on_of_nodup_map guarded.keys tabled before ofKey.symm
    refine ⟨call, under, ⟨answer, due, rfl⟩, same, fun other there shared => ?_⟩
    exact eq_of_references_le_two few tabled under there
      (shared.trans (congrArg Prod.snd same).symm)
  | enter | settle | goOut | forget | get | evict | clear => exact absurd before gone

end House

end HeapAtlas
