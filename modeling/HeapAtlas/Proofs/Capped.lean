import Mathlib.Algebra.Ring.Nat
import HeapAtlas.Capped

/-! Capped totals are true totals, capped once. -/

namespace HeapAtlas.Capped

/-- Capped totals add up to a capped total. -/
theorem add_min_min (a b : Nat) : add (min wordMax a) (min wordMax b) = min wordMax (a + b) := by
  -- Once one part has reached the cap, so has the total.
  unfold add
  omega

/-- Two parts may be added to a capped total in either order. -/
theorem add_right_comm (a b c : Nat) : add (add a b) c = add (add a c) b := by
  unfold add
  omega

/-- Capping after every step gives the same as capping once at the end. -/
theorem foldl_add (start : Nat) (values : List Nat) :
    values.foldl add (min wordMax start) = min wordMax (start + values.sum) := by
  induction values generalizing start with
  | nil => simp
  | cons value rest ih =>
    -- One step caps the sum so far, which is the shape that the induction starts from.
    have step : add (min wordMax start) value = min wordMax (start + value) := add_min_left _ _
    simp only [List.foldl_cons, step, ih, List.sum_cons, Nat.add_assoc]

/-- A capped sum is the true sum or the cap, whichever is smaller. -/
theorem sum_eq_min (values : List Nat) : sum values = min wordMax values.sum := by
  simpa [sum] using foldl_add 0 values

end HeapAtlas.Capped
