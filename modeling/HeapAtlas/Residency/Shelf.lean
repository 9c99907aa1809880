/-!
A bounded number of values by key, of which the ones asked for longest ago make room for new ones.
-/

namespace HeapAtlas

/-- A value with its key and the time when it was last asked for. -/
structure Resident (α : Type) where
  key : String
  value : α
  stamp : Nat
  deriving DecidableEq, Repr

/-- Values by key, no more than a capacity; the clock advances whenever a value is asked for. -/
structure Shelf (α : Type) where
  capacity : Nat
  residents : List (Resident α)
  clock : Nat
  evictions : Nat
  deriving DecidableEq, Repr

namespace Shelf

variable {α : Type}

/-- An empty shelf, with room for at least one value. -/
def ofCapacity (capacity : Nat) : Shelf α := ⟨max 1 capacity, [], 0, 0⟩

/-- Number of values. -/
def size (shelf : Shelf α) : Nat := shelf.residents.length

/-- The value of a key. -/
def get? (shelf : Shelf α) (key : String) : Option α :=
  (shelf.residents.find? (·.key = key)).map (·.value)

/-- Whether there is a value of a key. -/
def contains (shelf : Shelf α) (key : String) : Bool := shelf.residents.any (·.key = key)

/-- The keys in order. -/
def keys (shelf : Shelf α) : List String :=
  (shelf.residents.map (·.key)).mergeSort fun one other => one ≤ other

/-- Asks for a value, which takes the time of the clock; the clock advances in any case. -/
def touch (shelf : Shelf α) (key : String) : Option α × Shelf α :=
  let now := shelf.clock + 1
  -- The clock advances for keys without a value as well.
  (shelf.get? key,
    { shelf with
      clock := now
      residents := shelf.residents.map fun resident =>
        if resident.key = key then { resident with stamp := now } else resident })

/-- The residents without the one of a key. -/
def without (shelf : Shelf α) (key : String) : List (Resident α) :=
  shelf.residents.filter (·.key ≠ key)

/-- Drops the value of a key and says whether there was one. -/
def evict (shelf : Shelf α) (key : String) : Bool × Shelf α :=
  if shelf.contains key then
    (true, { shelf with residents := shelf.without key, evictions := shelf.evictions + 1 })
  else (false, shelf)

/-- Drops all values. -/
def clear (shelf : Shelf α) : Shelf α :=
  { shelf with residents := [], evictions := shelf.evictions + shelf.size }

/-- The earlier asked for of two residents. -/
def earlier (one other : Resident α) : Resident α :=
  if other.stamp < one.stamp then other else one

/-- The key that was asked for longest ago. -/
def oldest? (shelf : Shelf α) : Option String :=
  match shelf.residents with
  | [] => none
  -- Of equally old ones the first counts.
  | first :: rest => some (rest.foldl earlier first).key

/-- Drops the value that was asked for longest ago. -/
def dropOldest (shelf : Shelf α) : Shelf α :=
  match shelf.oldest? with
  | some key => (shelf.evict key).2
  | none => shelf

/-- Drops values until there is room for one more. -/
def makeRoom (shelf : Shelf α) : Shelf α :=
  Nat.repeat dropOldest (shelf.size + 1 - shelf.capacity) shelf

/-- Puts in a value after making room for it. -/
def insert (shelf : Shelf α) (key : String) (value : α) : Shelf α :=
  -- Room is made even when an older value of the key is replaced.
  let shelf := shelf.makeRoom
  let now := shelf.clock + 1
  { shelf with clock := now, residents := shelf.without key ++ [⟨key, value, now⟩] }

end Shelf

end HeapAtlas
