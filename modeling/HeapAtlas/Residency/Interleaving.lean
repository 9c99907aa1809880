import HeapAtlas.Residency.Gates

/-! All ways in which the steps of callers may follow one another. -/

namespace HeapAtlas.House

variable {ε α : Type}

/-- One step that some caller may take now; a gate lets one caller at a time through. -/
inductive Step : House ε α → House ε α → Prop where
  | request {house : House ε α} (caller : Nat) (key : String)
      (idle : house.call? caller = none) : Step house (house.request caller key).2
  | enter {house : House ε α} {call : Call ε α} (found : house.call? call.caller = some call)
      (due : call.phase = .waiting) (free : house.isHeld call.gate = false) :
      Step house (house.enter call.caller)
  | lookAgain {house : House ε α} {call : Call ε α} (found : house.call? call.caller = some call)
      (due : call.phase = .inside) : Step house (house.lookAgain call.caller call.key).2
  | settle {house : House ε α} {call : Call ε α} (found : house.call? call.caller = some call)
      (due : call.phase = .loading) (answer : Except ε α) :
      Step house (house.settle call.caller call.key answer)
  | cleanUp {house : House ε α} {call : Call ε α} {answer : Except ε α}
      (found : house.call? call.caller = some call) (due : call.phase = .settled answer) :
      Step house (house.cleanUp call.caller call.key call.gate answer)
  | goOut {house : House ε α} {call : Call ε α} {answer : Except ε α}
      (found : house.call? call.caller = some call) (due : call.phase = .cleaned answer) :
      Step house (house.goOut call.caller answer)
  | forget {house : House ε α} {call : Call ε α} {answer : Except ε α}
      (found : house.call? call.caller = some call) (due : call.phase = .outside answer) :
      Step house (house.forget call.caller)
  | get {house : House ε α} (key : String) : Step house (house.get key).2
  | evict {house : House ε α} (key : String) : Step house (house.evict key).2
  | clear {house : House ε α} : Step house house.clear

/-- The houses that steps lead to from an empty one of a capacity. -/
inductive Reachable (capacity : Nat) : House ε α → Prop where
  | start : Reachable capacity (ofCapacity capacity)
  | step {house next : House ε α} :
      Reachable capacity house → Step house next → Reachable capacity next

end HeapAtlas.House
