import HeapAtlas.Zstd.Packing

/-!
The header of a Zstandard frame, and the place in the bytes that frames are read from.

A header tells the window that the frame's content is made in, and may state the content's size.
-/

namespace HeapAtlas.Zstd

/-- A place in the bytes: how many lie before it, and those that follow. -/
structure Place where
  position : Nat
  rest : Bytes
  deriving DecidableEq, Repr

/-- Takes `count` bytes, if there are as many. -/
def Place.take? (place : Place) (count : Nat) : Option (Bytes × Place) :=
  let taken := place.rest.take count
  if taken.length = count then some (taken, ⟨place.position + count, place.rest.drop count⟩)
  else none

/-- Takes a number of `width` bytes. -/
def Place.number? (place : Place) (width : Nat) : Option (Nat × Place) :=
  (place.take? width).map fun (digits, place) => (digits.toNat, place)

/-- What the header of a frame says. -/
structure Header where
  /-- The number of bytes that the content is made in. -/
  window : Nat
  /-- The number of bytes in the content, if it is stated. -/
  size : Option Nat
  deriving DecidableEq, Repr

/-- The largest exponent of a window. -/
def exponentLimit : Nat := 31

/--
The window that a byte describes, if it is not too large.

The upper five bits hold an exponent above ten, and the lower three count eighths of its power.
-/
def window? (byte : Nat) : Option Nat :=
  let exponent := 10 + byte / 8
  if exponentLimit < exponent then none
  else some ((1 <<< exponent) + (1 <<< exponent) / 8 * (byte % 8))

/-- Reads the size of a frame's content by the two bits that tell its width. -/
def contentSize? (flag : Nat) (oneSegment : Bool) (place : Place) : Option (Option Nat × Place) :=
  match flag with
  | 0 => if oneSegment then (place.number? 1).map fun (size, place) => (some size, place)
    else some (none, place)
  -- Sizes of two bytes begin behind those of one.
  | 1 => (place.number? 2).map fun (size, place) => (some (size + 256), place)
  | 2 => (place.number? 4).map fun (size, place) => (some size, place)
  | _ => (place.number? 8).map fun (size, place) =>
    (if size = wordMax then none else some size, place)

/-- Passes the number of a dictionary, by the two bits that tell its width; zero names none. -/
def noDictionary? (flag : Nat) (place : Place) : Option Place := do
  -- The four widths are none, one, two and four bytes.
  let (number, place) ← place.number? (if flag = 3 then 4 else flag)
  if number = 0 then some place else none

/--
Reads a header after its first four bytes.

The reserved bit has to be zero; frames with a checksum or a dictionary are not read. A frame of
one segment has its content as window.
-/
def header? (place : Place) : Option (Header × Place) := do
  let (descriptor, place) ← place.number? 1
  if descriptor / 4 % 4 ≠ 0 then none
  -- A frame of one segment has no byte for its window.
  if descriptor / 32 % 2 = 1 then
    let place ← noDictionary? (descriptor % 4) place
    let (size, place) ← contentSize? (descriptor / 64) true place
    return (⟨size.getD wordMax, size⟩, place)
  else
    let (byte, place) ← place.number? 1
    let window ← window? byte
    let place ← noDictionary? (descriptor % 4) place
    let (size, place) ← contentSize? (descriptor / 64) false place
    return (⟨window, size⟩, place)

end HeapAtlas.Zstd
