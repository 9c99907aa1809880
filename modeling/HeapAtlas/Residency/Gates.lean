import HeapAtlas.Residency.Shelf

/-!
Callers that ask for values at the same time, so that each value is loaded by one of them.

A caller that finds no value takes the gate of its key, waits until it may go through and looks
again before it loads. Afterwards it takes the gate down, unless others hold it, goes out and
forgets the gate. Each of these steps is taken alone; between any two of them others may take
theirs.
-/

namespace HeapAtlas

/-- How far a caller has come that found no value at first. -/
inductive Phase (ε α : Type) where
  /-- It has the gate of its key and waits in front of it. -/
  | waiting
  /-- It has gone through the gate. -/
  | inside
  /-- It has looked again, found no value and loads it. -/
  | loading
  /-- It has its answer. -/
  | settled (answer : Except ε α)
  /-- It has taken the gate down, or left it to others. -/
  | cleaned (answer : Except ε α)
  /-- It has gone out and still knows the gate. -/
  | outside (answer : Except ε α)

namespace Phase

/-- Whether nobody else may go through the gate. -/
def holdsGate {ε α : Type} : Phase ε α → Bool
  | waiting | outside _ => false
  | inside | loading | settled _ | cleaned _ => true

end Phase

/-- A call under way: the key asked for, the gate taken for it and how far the caller has come. -/
structure Call (ε α : Type) where
  caller : Nat
  key : String
  gate : Nat
  phase : Phase ε α

/-- Values, the gates of keys that are being loaded, and the calls under way. -/
structure House (ε α : Type) where
  shelf : Shelf α
  gates : List (String × Nat)
  /-- The number of the next new gate. -/
  nextGate : Nat
  calls : List (Call ε α)
  loads : Nat
  hits : Nat

namespace House

variable {ε α : Type}

/-- A house without values and calls. -/
def ofCapacity (capacity : Nat) : House ε α := ⟨.ofCapacity capacity, [], 0, [], 0, 0⟩

/-- The call of a caller. -/
def call? (house : House ε α) (caller : Nat) : Option (Call ε α) :=
  house.calls.find? (·.caller = caller)

/-- Whether a caller is inside a gate. -/
def isHeld (house : House ε α) (gate : Nat) : Bool :=
  house.calls.any fun call => call.gate = gate && call.phase.holdsGate

/-- Number of places where a gate is known: the table of gates, and callers. -/
def references (house : House ε α) (gate : Nat) : Nat :=
  house.gates.countP (·.2 = gate) + house.calls.countP (·.gate = gate)

/-- Brings a caller to a phase. -/
def setPhase (house : House ε α) (caller : Nat) (phase : Phase ε α) : House ε α :=
  { house with
    calls := house.calls.map fun call =>
      if call.caller = caller then { call with phase := phase } else call }

/-- Asks for a value that is there; a value found counts as a hit. -/
def get (house : House ε α) (key : String) : Option α × House ε α :=
  let (value, shelf) := house.shelf.touch key
  (value,
    { house with
      shelf := shelf
      hits := if value.isSome then house.hits + 1 else house.hits })

/-- The gate of a key, a new one if the key has none. -/
def gateOf (house : House ε α) (key : String) : Nat × House ε α :=
  -- The number of a gate is never used again, not even for the same key.
  match house.gates.lookup key with
  | some gate => (gate, house)
  | none =>
    (house.nextGate,
      { house with
        gates := (key, house.nextGate) :: house.gates, nextGate := house.nextGate + 1 })

/-- A caller asks for a value and, unless it is there, takes the gate of its key. -/
def request (house : House ε α) (caller : Nat) (key : String) : Option α × House ε α :=
  match house.get key with
  | (some value, house) => (some value, house)
  | (none, house) =>
    -- The gate is known to the caller from here on, also after it left the table.
    let (gate, house) := house.gateOf key
    (none, { house with calls := ⟨caller, key, gate, .waiting⟩ :: house.calls })

/-- A caller goes through its gate. -/
def enter (house : House ε α) (caller : Nat) : House ε α := house.setPhase caller .inside

/-- A caller inside its gate looks for the value of its key again. -/
def lookAgain (house : House ε α) (caller : Nat) (key : String) : Option α × House ε α :=
  match house.get key with
  | (some value, house) => (some value, house.setPhase caller (.settled (.ok value)))
  | (none, house) =>
    (none, { house with loads := house.loads + 1 }.setPhase caller .loading)

/-- A load ends; a value is put in, and a failure leaves nothing behind. -/
def settle (house : House ε α) (caller : Nat) (key : String) (answer : Except ε α) :
    House ε α :=
  -- Those who wait try again after a failure.
  let shelf := match answer with
    | .ok value => house.shelf.insert key value
    | .error _ => house.shelf
  { house with shelf := shelf }.setPhase caller (.settled answer)

/-- A caller takes the gate of its key down, unless more know its gate than the table and itself. -/
def cleanUp (house : House ε α) (caller : Nat) (key : String) (gate : Nat)
    (answer : Except ε α) : House ε α :=
  -- With two places left nobody waits for the gate any more.
  let gates := if house.references gate ≤ 2 then house.gates.filter (·.1 ≠ key) else house.gates
  { house with gates := gates }.setPhase caller (.cleaned answer)

/-- A caller goes out of its gate. -/
def goOut (house : House ε α) (caller : Nat) (answer : Except ε α) : House ε α :=
  house.setPhase caller (.outside answer)

/-- A caller forgets its gate, and with it ends its call. -/
def forget (house : House ε α) (caller : Nat) : House ε α :=
  { house with calls := house.calls.filter (·.caller ≠ caller) }

/-- The steps of a caller that has its answer, one after another. -/
def leave (house : House ε α) (caller : Nat) (key : String) (answer : Except ε α) : House ε α :=
  match house.call? caller with
  | some call =>
    -- Between these steps others may take theirs, which does not happen here.
    (((house.cleanUp caller key call.gate answer).goOut caller answer).forget caller)
  | none => house

/-- The steps of a caller that has taken a gate, one after another. -/
def finish {σ : Type} (house : House ε α) (caller : Nat) (key : String)
    (load : σ → Except ε α × σ) (source : σ) : Except ε α × House ε α × σ :=
  match (house.enter caller).lookAgain caller key with
  | (some value, house) => (.ok value, house.leave caller key (.ok value), source)
  | (none, house) =>
    -- Only who found nothing the second time loads.
    let (answer, source) := load source
    (answer, (house.settle caller key answer).leave caller key answer, source)

/-- All steps of a caller, one after another: the value that is there, or what a load gives. -/
def getOrLoad {σ : Type} (house : House ε α) (caller : Nat) (key : String)
    (load : σ → Except ε α × σ) (source : σ) : Except ε α × House ε α × σ :=
  match house.request caller key with
  | (some value, house) => (.ok value, house, source)
  | (none, house) => house.finish caller key load source

/-- Callers that have asked go on one after another, except those that have their value. -/
def finishAll {σ : Type} (key : String) (load : σ → Except ε α × σ) :
    List (Nat × Option α) → House ε α → σ → List (Except ε α) × House ε α × σ
  | [], house, source => ([], house, source)
  -- One who found the value when asking takes no gate and loads nothing.
  | (_, some value) :: rest, house, source =>
    let (answers, house, source) := finishAll key load rest house source
    (.ok value :: answers, house, source)
  | (caller, none) :: rest, house, source =>
    let (answer, house, source) := house.finish caller key load source
    let (answers, house, source) := finishAll key load rest house source
    (answer :: answers, house, source)

/-- Callers ask for a value one after another. -/
def requestAll (key : String) : List Nat → House ε α → List (Nat × Option α) × House ε α
  | [], house => ([], house)
  | caller :: rest, house =>
    let (value, house) := house.request caller key
    let (others, house) := requestAll key rest house
    ((caller, value) :: others, house)

/-- So many callers all ask for a value before any of them goes on, and then go on in turn. -/
def getTogether {σ : Type} (house : House ε α) (callers : Nat) (key : String)
    (load : σ → Except ε α × σ) (source : σ) : List (Except ε α) × House ε α × σ :=
  let (asked, house) := requestAll key (List.range callers) house
  finishAll key load asked house source

/-- Drops the value of a key and says whether there was one. -/
def evict (house : House ε α) (key : String) : Bool × House ε α :=
  let (found, shelf) := house.shelf.evict key
  (found, { house with shelf := shelf })

/-- Drops all values. -/
def clear (house : House ε α) : House ε α := { house with shelf := house.shelf.clear }

end House

end HeapAtlas
