import Mathlib.Logic.Relation
import HeapAtlas.Proofs.Residency.Stock

/-! Of callers that ask for one key at a time, one loads the value and the others are given it. -/

namespace HeapAtlas.House

open Relation

variable {ε α : Type}

/-- A caller that has yet to look again for a value which is there, or that has it as its answer. -/
inductive Promised (house : House ε α) (caller : Nat) (key : String) (value : α) : Prop where
  | there {call : Call ε α} (found : house.call? caller = some call) (ofKey : call.key = key)
      (due : call.phase = .waiting ∨ call.phase = .inside)
      (there : house.shelf.get? key = some value)
  | answered {call : Call ε α} (found : house.call? caller = some call) (ofKey : call.key = key)
      (answer : call.phase.answer? = some (.ok value))

/-- A step that ends the call of a caller, which returns a value. -/
def Returns (house next : House ε α) (caller : Nat) (value : α) : Prop :=
  (∃ call, house.call? caller = some call ∧ call.phase = .outside (.ok value)) ∧
    next.call? caller = none

/-- A step that takes a value away from a caller that has yet to look again. -/
def Loses (house next : House ε α) (caller : Nat) (key : String) (value : α) : Prop :=
  (∃ call, house.call? caller = some call ∧ (call.phase = .waiting ∨ call.phase = .inside)) ∧
    house.shelf.get? key = some value ∧ next.shelf.get? key = none

/-- Some steps after which a caller returns a value. -/
def CanReturn (house : House ε α) (caller : Nat) (value : α) : Prop :=
  ∃ last next, ReflTransGen Step house last ∧ Step last next ∧ Returns last next caller value

/-- A promise that lasts through a run of steps and can be kept at any time, until one of them keeps
it or takes the value away. -/
def PromisedAlong (caller : Nat) (key : String) (value : α) :
    House ε α → List (House ε α) → Prop
  | house, [] => house.Promised caller key value ∧ house.CanReturn caller value
  | house, next :: rest =>
    (house.Promised caller key value ∧ house.CanReturn caller value) ∧
      (Returns house next caller value ∨ Loses house next caller key value ∨
        PromisedAlong caller key value next rest)

variable {house next : House ε α} {capacity caller : Nat} {key : String} {value : α}

section Promise

/-- A promise outlasts every step but the one that keeps it and one that takes the value away. -/
theorem Promised.step (promised : house.Promised caller key value) (guarded : house.Guarded)
    (stocked : house.Stocked capacity) (step : Step house next) :
    next.Promised caller key value ∨ Returns house next caller value ∨
      Loses house next caller key value := by
  have moves := step.move caller
  cases promised with
  | there found ofKey due there =>
    -- The value stays or goes, for nobody loads what is there.
    have shelf : next.shelf.get? key = some value ∨ next.shelf.get? key = none := by
      rcases stocked.get?_step guarded step key with same | gone |
        ⟨loader, under, _, loads, loaded, _⟩
      · exact .inl (same.trans there)
      · exact .inr gone
      · have absent := stocked.vacant loader under loads
        rw [loaded, there] at absent
        cases absent
    rcases moves with still | moved
    · rcases shelf with kept | gone
      · exact .inl (.there (still.trans found) ofKey due kept)
      · exact .inr (.inr ⟨⟨_, found, due⟩, there, gone⟩)
    · rw [found] at moved
      generalize after : next.call? caller = later at moved
      cases moved with
      | enter =>
        rcases shelf with kept | gone
        · exact .inl (.there after ofKey (.inr rfl) kept)
        · exact .inr (.inr ⟨⟨_, found, due⟩, there, gone⟩)
      | find _ here =>
        rw [ofKey, there] at here
        exact .inl (.answered after ofKey (by rw [← Option.some.inj here]; rfl))
      | load _ absent =>
        rw [ofKey, there] at absent
        cases absent
      | settle late | cleanUp late | goOut late | forget late => simp [late] at due
  | answered found ofKey answer =>
    rcases moves with still | moved
    · exact .inl (.answered (still.trans found) ofKey answer)
    · rw [found] at moved
      generalize after : next.call? caller = later at moved
      cases moved with
      | enter early | find early | load early | settle early =>
        rw [early] at answer
        cases answer
      | cleanUp due | goOut due =>
        rw [due] at answer
        exact .inl (.answered after ofKey answer)
      | forget due =>
        rw [due] at answer
        exact .inr (.inl ⟨⟨_, found, by rw [due, Option.some.inj answer]⟩, after⟩)

/-- Once a load has put a value in, those who wait for it are promised it. -/
theorem Promised.of_settle {loader waiter : Call ε α} (guarded : house.Guarded)
    (stocked : house.Stocked capacity) (loading : loader ∈ house.calls)
    (waiting : waiter ∈ house.calls) (loads : loader.phase = .loading)
    (waits : waiter.phase = .waiting) (ofKey : waiter.key = loader.key) (value : α) :
    (house.settle loader.caller loader.key (.ok value)).Promised waiter.caller loader.key
      value := by
  have found := guarded.call?_eq_some_iff.mpr ⟨waiting, rfl⟩
  -- One of the two waits while the other loads, so they are not the same.
  have others : waiter.caller ≠ loader.caller := by
    intro same
    have one := List.inj_on_of_nodup_map guarded.callers waiting loading same
    rw [one, loads] at waits
    cases waits
  obtain ⟨entries, lists⟩ := stocked.tidy.lists
  refine .there ?_ ofKey (.inl waits)
    (lists.get?_insert stocked.positive (stocked.vacant loader loading loads) value).1
  rw [settle, call?_setPhase, if_neg others]
  exact found

end Promise

section Return

/-- What can be returned after a step can be returned before it. -/
theorem CanReturn.of_step (step : Step house next) (later : next.CanReturn caller value) :
    house.CanReturn caller value := by
  obtain ⟨last, after, run, final, returns⟩ := later
  exact ⟨last, after, .head step run, final, returns⟩

/-- A caller that has its answer is kept by nobody from returning it. -/
theorem canReturn_of_answer (call : Call ε α) (found : house.call? call.caller = some call)
    (answer : call.phase.answer? = some (.ok value)) : house.CanReturn call.caller value := by
  -- A caller with an answer has at most three steps to go, taken here from the last one back.
  have outside (house : House ε α) (call : Call ε α) (found : house.call? call.caller = some call)
      (due : call.phase = .outside (.ok value)) : house.CanReturn call.caller value := by
    refine ⟨house, _, .refl, .forget found due, ⟨call, found, due⟩, ?_⟩
    exact call?_eq_none_iff.mpr fun other left => by simpa using List.of_mem_filter left
  have cleaned (house : House ε α) (call : Call ε α) (found : house.call? call.caller = some call)
      (due : call.phase = .cleaned (.ok value)) : house.CanReturn call.caller value :=
    .of_step (.goOut found due)
      (outside _ { call with phase := .outside (.ok value) } (call?_setPhase_self _ found _) rfl)
  have settled (house : House ε α) (call : Call ε α) (found : house.call? call.caller = some call)
      (due : call.phase = .settled (.ok value)) : house.CanReturn call.caller value :=
    .of_step (.cleanUp found due) (cleaned _ { call with phase := .cleaned (.ok value) }
      (call?_setPhase_self { house with gates := _ } found _) rfl)
  cases due : call.phase with
  | waiting | inside | loading =>
    rw [due] at answer
    cases answer
  | settled given =>
    rw [due] at answer
    exact settled house call found (by rw [due, Option.some.inj answer])
  | cleaned given =>
    rw [due] at answer
    exact cleaned house call found (by rw [due, Option.some.inj answer])
  | outside given =>
    rw [due] at answer
    exact outside house call found (by rw [due, Option.some.inj answer])

/-- Inside its gate a caller finds a value that is there. -/
theorem canReturn_of_inside (call : Call ε α) (found : house.call? call.caller = some call)
    (due : call.phase = .inside) (there : house.shelf.get? call.key = some value) :
    house.CanReturn call.caller value := by
  refine .of_step (.lookAgain found due) ?_
  -- It looks again before it would load, and the value is there by now.
  rcases house.lookAgain_cases call.caller call.key with ⟨other, here, hit⟩ | ⟨absent, _⟩
  · rw [there] at here
    rw [hit, ← Option.some.inj here]
    exact canReturn_of_answer { call with phase := .settled (.ok value) }
      (call?_setPhase_self (house.get call.key).2 found _) rfl
  · rw [there] at absent
    cases absent

/-- In front of a gate that nobody holds a caller goes through it. -/
theorem canReturn_of_free {call : Call ε α} (found : house.call? call.caller = some call)
    (due : call.phase = .waiting) (free : house.isHeld call.gate = false)
    (there : house.shelf.get? call.key = some value) : house.CanReturn call.caller value := by
  refine .of_step (.enter found due free) ?_
  exact canReturn_of_inside { call with phase := .inside } (call?_setPhase_self house found _) rfl
    there

/-- A caller in front of the gate that another holds, while the value it asks for is there. -/
structure Behind (house : House ε α) (waiter holder : Call ε α) (value : α) : Prop where
  waiting : house.call? waiter.caller = some waiter
  waits : waiter.phase = .waiting
  there : house.shelf.get? waiter.key = some value
  holding : house.call? holder.caller = some holder
  shared : holder.gate = waiter.gate
  others : waiter.caller ≠ holder.caller

variable {waiter holder : Call ε α}

/-- The holder of a gate may go on while others wait behind it. -/
theorem Behind.setPhase (behind : house.Behind waiter holder value) (before : House ε α)
    (calls : before.calls = house.calls)
    (shelf : before.shelf.get? waiter.key = house.shelf.get? waiter.key) (phase : Phase ε α) :
    (before.setPhase holder.caller phase).Behind waiter { holder with phase := phase } value where
  -- The phase of the holder is set, and not that of the caller who waits.
  waiting := by
    rw [call?_setPhase, if_neg behind.others, call?, calls]
    exact behind.waiting
  waits := behind.waits
  there := shelf.trans behind.there
  holding := call?_setPhase_self before (by rw [call?, calls]; exact behind.holding) phase
  shared := behind.shared
  others := behind.others

/-- Once its only holder went out, nobody holds a gate. -/
theorem Guarded.free_goOut (guarded : house.Guarded) (under : holder ∈ house.calls)
    {answer : Except ε α} (due : holder.phase = .cleaned answer) :
    (house.goOut holder.caller answer).isHeld holder.gate = false := by
  rw [isHeld, List.any_eq_false]
  intro other changed held
  simp only [Bool.and_eq_true, decide_eq_true_eq] at held
  -- Another holder would have been inside together with this one.
  rcases (guarded.mem_setPhase under).mp changed with rfl | ⟨member, differs⟩
  · exact absurd held.2 (by simp [Phase.holdsGate])
  · exact differs (congrArg Call.caller
      (guarded.alone other member holder under held.1 held.2 (by rw [due]; rfl)))

/-- Whoever holds the gate can go out, so that the next one comes to its value. -/
theorem Behind.canReturn (behind : house.Behind waiter holder value)
    (reachable : house.Reachable capacity) (holds : holder.phase.holdsGate = true) :
    house.CanReturn waiter.caller value := by
  have cleaned {house : House ε α} {holder : Call ε α} {answer : Except ε α}
      (behind : house.Behind waiter holder value) (reachable : house.Reachable capacity)
      (due : holder.phase = .cleaned answer) : house.CanReturn waiter.caller value := by
    have after := behind.setPhase house rfl rfl (.outside answer)
    have under := (reachable.inOrder.1.call?_eq_some_iff.mp behind.holding).1
    have free := reachable.inOrder.1.free_goOut under due
    exact .of_step (.goOut behind.holding due)
      (canReturn_of_free after.waiting after.waits (behind.shared ▸ free) after.there)
  have settled {house : House ε α} {holder : Call ε α} {answer : Except ε α}
      (behind : house.Behind waiter holder value) (reachable : house.Reachable capacity)
      (due : holder.phase = .settled answer) : house.CanReturn waiter.caller value := by
    have step := Step.cleanUp behind.holding due
    -- Whether the gate stays in the table makes no difference here.
    have after (gates : List (String × Nat)) :=
      behind.setPhase { house with gates := gates } rfl rfl (.cleaned answer)
    exact .of_step step (cleaned (after _) (reachable.step step) rfl)
  obtain ⟨guarded, stocked⟩ := reachable.inOrder
  have under := (guarded.call?_eq_some_iff.mp behind.holding).1
  have member := (guarded.call?_eq_some_iff.mp behind.waiting).1
  -- Up to its cleaning up the holder asks for the same key, since it has the same gate.
  have ofKey (needs : holder.phase.needsGate = true) : holder.key = waiter.key :=
    (guarded.gate_eq_iff under member needs (by rw [behind.waits]; rfl)).mp behind.shared
  cases due : holder.phase with
  | waiting | outside =>
    rw [due] at holds
    cases holds
  | inside =>
    have same := ofKey (by rw [due]; rfl)
    have step := Step.lookAgain behind.holding due
    refine .of_step step ?_
    have reached := reachable.step step
    rcases house.lookAgain_cases holder.caller holder.key with ⟨found, _, hit⟩ | ⟨absent, _⟩
    · rw [hit] at reached ⊢
      exact settled (behind.setPhase (house.get holder.key).2 rfl
        (Shelf.get?_touch _ _ _) _) reached rfl
    · rw [same, behind.there] at absent
      cases absent
  | loading =>
    -- What is there is not loaded.
    have absent := stocked.vacant holder under due
    rw [ofKey (by rw [due]; rfl), behind.there] at absent
    cases absent
  | settled answer => exact settled behind reachable due
  | cleaned answer => exact cleaned behind reachable due

/-- A promise can be kept at any time. -/
theorem Promised.canReturn (promised : house.Promised caller key value)
    (reachable : house.Reachable capacity) : house.CanReturn caller value := by
  obtain ⟨guarded, _⟩ := reachable.inOrder
  cases promised with
  | @there call found ofKey due there =>
    obtain ⟨member, rfl⟩ := guarded.call?_eq_some_iff.mp found
    rw [← ofKey] at there
    rcases due with waits | inside
    · -- A caller who waits goes in at once, or after the holder has gone out.
      cases held : house.isHeld call.gate with
      | false => exact canReturn_of_free found waits held there
      | true =>
        obtain ⟨holder, under, holds⟩ := List.any_eq_true.mp held
        simp only [Bool.and_eq_true, decide_eq_true_eq] at holds
        have others : call.caller ≠ holder.caller := by
          intro same
          have one := List.inj_on_of_nodup_map guarded.callers member under same
          rw [← one, waits] at holds
          cases holds.2
        have behind : house.Behind call holder value :=
          ⟨found, waits, there, guarded.call?_eq_some_iff.mpr ⟨under, rfl⟩, holds.1, others⟩
        exact behind.canReturn reachable holds.2
    · exact canReturn_of_inside call found inside there
  | answered found ofKey answer =>
    obtain ⟨_, rfl⟩ := guarded.call?_eq_some_iff.mp found
    exact canReturn_of_answer _ found answer

/-- Along any run a promise lasts, unless one of its steps keeps it or takes the value away. -/
theorem Promised.along {states : List (House ε α)} (promised : house.Promised caller key value)
    (reachable : house.Reachable capacity) (run : (house :: states).IsChain Step) :
    PromisedAlong caller key value house states := by
  -- The induction is on the run, each step of which finds the promise lasting.
  induction states generalizing house with
  | nil => exact ⟨promised, promised.canReturn reachable⟩
  | cons next rest ih =>
    obtain ⟨step, run⟩ := List.isChain_cons_cons.mp run
    refine ⟨⟨promised, promised.canReturn reachable⟩, ?_⟩
    obtain ⟨guarded, stocked⟩ := reachable.inOrder
    rcases promised.step guarded stocked step with lasts | returns | loses
    · exact .inr (.inr (ih lasts (reachable.step step) run))
    · exact .inl returns
    · exact .inr (.inl loses)

end Return

/-- Whatever the callers, their keys and the order of their steps: one caller at a time loads a key,
all that have yet to clean up have the one gate of their key in the table, a gate leaves the table
with the last caller that knows it, the shelf never holds more than its capacity, and along any run
who waits while another loads is promised the value, unless it is taken away before. -/
theorem Reachable.single_flight (reachable : house.Reachable capacity) :
    (∀ one ∈ house.calls, ∀ other ∈ house.calls, one.key = other.key →
      one.phase = .loading → other.phase = .loading → one = other) ∧
    (∀ call ∈ house.calls, call.phase.needsGate = true →
      house.gates.lookup call.key = some call.gate) ∧
    (∀ next, Step house next → ∀ entry ∈ house.gates, entry ∉ next.gates →
      ∃ call ∈ house.calls, (∃ answer, call.phase = .settled answer ∧
          next = house.cleanUp call.caller call.key call.gate answer) ∧
        (call.key, call.gate) = entry ∧
          ∀ other ∈ house.calls, other.gate = entry.2 → other = call) ∧
    house.shelf.size ≤ max 1 capacity ∧
    (∀ loader ∈ house.calls, ∀ waiter ∈ house.calls, ∀ value, loader.phase = .loading →
      waiter.phase = .waiting → waiter.key = loader.key →
      ∀ states, (house.settle loader.caller loader.key (.ok value) :: states).IsChain Step →
        PromisedAlong waiter.caller loader.key value
          (house.settle loader.caller loader.key (.ok value)) states) := by
  obtain ⟨guarded, stocked⟩ := reachable.inOrder
  refine ⟨fun one here other there => guarded.loading_alone here there, fun call under needs => ?_,
    fun next step entry before gone => guarded.gate_removed step before gone,
    stocked.capacity_eq ▸ stocked.tidy.size_le, ?_⟩
  · exact (lookup_eq_some_iff guarded.keys).mpr (guarded.tabled call under needs)
  · intro loader loading waiter waiting value loads waits ofKey states run
    have settled : Step house (house.settle loader.caller loader.key (.ok value)) :=
      .settle (guarded.call?_eq_some_iff.mpr ⟨loading, rfl⟩) loads _
    -- The value is promised by the step that settles, and every further step keeps the promise.
    have promised := Promised.of_settle guarded stocked loading waiting loads waits ofKey value
    exact promised.along (reachable.step settled) run

/-- Two callers ask for a key; the first one loads it, and the second one is promised the value. -/
theorem single_flight_of_two :
    let asked := (((ofCapacity 1).request 0 "a").2.request 1 "a").2
    let house : House String Nat := ((asked.enter 0).lookAgain 0 "a").2
    house.Reachable 1 ∧ ∀ states, (house.settle 0 "a" (.ok 7) :: states).IsChain Step →
      PromisedAlong 1 "a" 7 (house.settle 0 "a" (.ok 7)) states := by
  intro asked house
  -- Two callers ask, and the first of them goes in, looks again and loads.
  have first : Reachable 1 asked := (Reachable.start.step (.request 0 "a" rfl)).step
    (.request 1 "a" rfl)
  have entered : Reachable 1 (asked.enter 0) :=
    first.step (@Step.enter _ _ asked ⟨0, "a", 0, .waiting⟩ rfl rfl rfl)
  have reachable : house.Reachable 1 :=
    entered.step (@Step.lookAgain _ _ (asked.enter 0) ⟨0, "a", 0, .inside⟩ rfl rfl)
  have calls : house.calls = [⟨1, "a", 0, .waiting⟩, ⟨0, "a", 0, .loading⟩] := rfl
  refine ⟨reachable, fun states run => ?_⟩
  exact reachable.single_flight.2.2.2.2 ⟨0, "a", 0, .loading⟩ (by simp [calls])
    ⟨1, "a", 0, .waiting⟩ (by simp [calls]) 7 rfl rfl rfl states run

end HeapAtlas.House
