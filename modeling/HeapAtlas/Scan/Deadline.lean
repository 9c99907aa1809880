/-! When long work has to stop: deadlines against a clock, and the signal that ends a scan. -/

namespace HeapAtlas

/-- A reading of the clock, in nanoseconds since its start. -/
abbrev Instant := Nat

/-- Nanoseconds of a second. -/
def nanosPerSecond : Nat := 1000000000

/-- The first reading that the clock cannot show: its seconds are a signed 64-bit number. -/
def clockLimit : Instant := (1 <<< 63) * nanosPerSecond

/-- The reading from which on work has to stop, if there is one. -/
structure Deadline where
  instant : Option Instant
  deriving DecidableEq, Repr, Inhabited

namespace Deadline

/-- The deadline that never comes. -/
def never : Deadline := ⟨none⟩

/-- The deadline at a reading of the clock. -/
def ofInstant (instant : Instant) : Deadline := ⟨some instant⟩

/-- The deadline `nanos` after `now`; one that the clock cannot show never comes. -/
def after (now : Instant) (nanos : Nat) : Deadline :=
  ⟨if now + nanos < clockLimit then some (now + nanos) else none⟩

/-- The deadline `millis` after `now`, where zero means none. -/
def ofMillis (now : Instant) (millis : Nat) : Deadline :=
  if millis = 0 then never else after now (millis * 1000000)

/-- Whether the deadline has come. -/
def expired (deadline : Deadline) (now : Instant) : Bool :=
  match deadline.instant with
  | some instant => instant ≤ now
  | none => false

/-- Nanoseconds left, if there is a deadline. -/
def remaining (deadline : Deadline) (now : Instant) : Option Nat :=
  deadline.instant.map (· - now)

end Deadline

/-- The flag that ends a scan, raised by hand or when the deadline is seen to have come. -/
structure StopSignal where
  raised : Bool
  deadline : Deadline
  deriving DecidableEq, Repr, Inhabited

namespace StopSignal

/-- A lowered flag bound to a deadline. -/
def ofDeadline (deadline : Deadline) : StopSignal := ⟨false, deadline⟩

/-- Raises the flag. -/
def raise (signal : StopSignal) : StopSignal := { signal with raised := true }

/-- Whether work has to stop, and the flag, which goes up when the deadline has come. -/
def check (signal : StopSignal) (now : Instant) : Bool × StopSignal :=
  if signal.raised then (true, signal)
  else if signal.deadline.expired now then (true, signal.raise)
  else (false, signal)

end StopSignal

end HeapAtlas
