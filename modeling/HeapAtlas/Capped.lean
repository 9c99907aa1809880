/-! Totals that stop at the largest 64-bit word and never wrap. -/

namespace HeapAtlas

/-- The largest 64-bit word. -/
def wordMax : Nat := (1 <<< 64) - 1

namespace Capped

/-- The sum of two totals, capped. -/
def add (a b : Nat) : Nat := min wordMax (a + b)

/-- The product of two totals, capped. -/
def mul (a b : Nat) : Nat := min wordMax (a * b)

/-- The sum of a list of totals, capped after every step. -/
def sum (values : List Nat) : Nat := values.foldl add 0

/-- A capped sum is a word. -/
theorem add_le_wordMax (a b : Nat) : add a b ≤ wordMax := Nat.min_le_left _ _

/-- Capping an argument of a capped sum changes nothing. -/
theorem add_min_left (a b : Nat) : add (min wordMax a) b = add a b := by
  -- Either the argument is a word already, or both sides are the cap.
  simp only [add]; omega

end Capped

end HeapAtlas
