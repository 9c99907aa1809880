/-! Search by halving in a sequence whose positions compare below, equal and above in turn. -/

namespace HeapAtlas

/--
The position in `[low, high)` that compares equal, for an order in which positions that compare
below come first and positions that compare above come last.
-/
def bisect? (order : Nat → Ordering) (low high : Nat) : Option Nat :=
  if low < high then
    let middle := (low + high) / 2
    match order middle with
    | .eq => some middle
    -- Everything up to the middle is below as well.
    | .lt => bisect? order (middle + 1) high
    -- Everything from the middle on is above as well.
    | .gt => bisect? order low middle
  else none
termination_by high - low

/-- How the key at a position compares with the one looked for; where there is none it is above. -/
def orderOf {κ : Type} [Ord κ] (keyAt : Nat → Option κ) (key : κ) (position : Nat) : Ordering :=
  match keyAt position with
  | some found => compare found key
  | none => .gt

end HeapAtlas
