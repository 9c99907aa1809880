import HeapAtlas.Proofs.Residency.Gates

/-! How far a single call comes while the steps of all callers follow one another. -/

namespace HeapAtlas

/-- The answer that a caller has, if it has one. -/
def Phase.answer? {ε α : Type} : Phase ε α → Option (Except ε α)
  | waiting | inside | loading => none
  | settled answer | cleaned answer | outside answer => some answer

/-- What a step of its own makes of a caller's call, given the values on the shelf. -/
inductive Move {ε α : Type} (shelf : Shelf α) : Option (Call ε α) → Option (Call ε α) → Prop where
  | begin {call : Call ε α} (due : call.phase = .waiting) (absent : shelf.get? call.key = none) :
      Move shelf none (some call)
  | enter {call : Call ε α} (due : call.phase = .waiting) :
      Move shelf (some call) (some { call with phase := .inside })
  | find {call : Call ε α} {value : α} (due : call.phase = .inside)
      (there : shelf.get? call.key = some value) :
      Move shelf (some call) (some { call with phase := .settled (.ok value) })
  | load {call : Call ε α} (due : call.phase = .inside) (absent : shelf.get? call.key = none) :
      Move shelf (some call) (some { call with phase := .loading })
  | settle {call : Call ε α} (due : call.phase = .loading) (answer : Except ε α) :
      Move shelf (some call) (some { call with phase := .settled answer })
  | cleanUp {call : Call ε α} {answer : Except ε α} (due : call.phase = .settled answer) :
      Move shelf (some call) (some { call with phase := .cleaned answer })
  | goOut {call : Call ε α} {answer : Except ε α} (due : call.phase = .cleaned answer) :
      Move shelf (some call) (some { call with phase := .outside answer })
  | forget {call : Call ε α} {answer : Except ε α} (due : call.phase = .outside answer) :
      Move shelf (some call) none

namespace House

variable {ε α : Type} {house next : House ε α} {call : Call ε α} {caller : Nat} {key : String}

/-- Bringing a caller to a phase changes what is known of it and of nobody else. -/
theorem call?_setPhase (house : House ε α) (mover caller : Nat) (phase : Phase ε α) :
    (house.setPhase mover phase).call? caller =
      if caller = mover then (house.call? caller).map fun call => { call with phase := phase }
      else house.call? caller := by
  -- A new phase changes the caller of no call.
  have callerOf (call : Call ε α) : (if call.caller = mover then
      { call with phase := phase } else call).caller = call.caller := by
    split <;> rfl
  simp only [call?, setPhase, List.find?_map, Function.comp_def, callerOf]
  cases found : house.calls.find? (·.caller = caller) with
  | none => simp
  | some call =>
    have same : call.caller = caller := by simpa using List.find?_some found
    rw [Option.map_some, Option.map_some, same]
    split <;> rfl

/-- A caller brought to a phase is in it. -/
theorem call?_setPhase_self (house : House ε α) (found : house.call? call.caller = some call)
    (phase : Phase ε α) :
    (house.setPhase call.caller phase).call? call.caller = some { call with phase := phase } := by
  rw [call?_setPhase, if_pos rfl, found, Option.map_some]

/-- A step makes a move for one caller at most and leaves the calls of all others as they are. -/
theorem Step.move (step : Step house next) (caller : Nat) :
    next.call? caller = house.call? caller ∨
      Move house.shelf (house.call? caller) (next.call? caller) := by
  -- Who is brought to a phase makes the move to it, and nobody else moves.
  have brought {before : House ε α} {call : Call ε α} {phase : Phase ε α}
      (still : before.calls = house.calls) (found : house.call? call.caller = some call)
      (made : Move house.shelf (some call) (some { call with phase := phase })) :
      (before.setPhase call.caller phase).call? caller = house.call? caller ∨
        Move house.shelf (house.call? caller)
          ((before.setPhase call.caller phase).call? caller) := by
    have here : before.call? = house.call? := by
      funext other
      rw [call?, call?, still]
    rw [call?_setPhase, here]
    split
    · rename_i same
      rw [same, found]
      exact .inr made
    · exact .inl rfl
  cases step with
  | request other key idle =>
    rcases house.request_cases other key with hit | ⟨absent, miss⟩
    · exact .inl (by rw [hit]; rfl)
    · rw [miss]
      have calls := calls_gateOf (house.get key).2 key
      by_cases same : other = caller
      · refine .inr ?_
        subst same
        rw [idle, call?, List.find?_cons_of_pos (by simp)]
        exact .begin rfl absent
      · refine .inl ?_
        rw [call?, List.find?_cons_of_neg (by simpa using same), calls]
        rfl
  | enter found due free => exact brought rfl found (.enter due)
  | @lookAgain call found due =>
    rcases house.lookAgain_cases call.caller call.key with ⟨value, there, hit⟩ | ⟨absent, miss⟩
    · rw [hit]
      exact brought rfl found (.find due there)
    · rw [miss]
      exact brought rfl found (.load due absent)
  | settle found due answer => exact brought rfl found (.settle due answer)
  | cleanUp found due => exact brought rfl found (.cleanUp due)
  | goOut found due => exact brought rfl found (.goOut due)
  | @forget call answer found due =>
    by_cases same : caller = call.caller
    · refine .inr ?_
      have gone : (house.forget call.caller).call? caller = none := by
        refine call?_eq_none_iff.mpr fun other left => ?_
        simpa [same] using List.of_mem_filter left
      rw [gone, same, found]
      exact .forget due
    · refine .inl ?_
      rw [call?, House.forget, List.find?_filter, call?]
      congr 1
      funext other
      by_cases equal : other.caller = caller
      · simp [equal, same]
      · simp [equal]
  | get | evict | clear => exact .inl rfl

end House

end HeapAtlas
