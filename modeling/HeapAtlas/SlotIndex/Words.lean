import HeapAtlas.Capped
import HeapAtlas.SlotIndex

/-!
The way from an identifier to its slot in words of 64 bits, with a table of words of 32 bits: none
where a difference falls below zero, a sum is no word, or an entry lies beyond its table.
-/

namespace HeapAtlas.SlotIndex

/-- A difference of words. -/
def difference? (word less : UInt64) : Option UInt64 :=
  if less ≤ word then some (word - less) else none

/-- A sum of words. -/
def sum? (word more : UInt64) : Option UInt64 :=
  if word.toNat + more.toNat ≤ wordMax then some (word + more) else none

/-- The entry of an identifier without a slot. -/
def noSlot : UInt32 := 0xffffffff

/-- An index with entries of 32 bits. -/
inductive InWords where
  | direct (base : UInt64) (entries : Array UInt32)
  | sorted
  deriving DecidableEq

/-- Puts a slot into the entry of its identifier. -/
def putInWords? (base : UInt64) (entries : Array UInt32) (id : ObjectId) (slot : Slot) :
    Option (Array UInt32) :=
  (difference? id.raw base).bind fun offset =>
    if offset.toNat < entries.size then
      some (entries.setIfInBounds offset.toNat (UInt32.ofNat slot))
    else none

/-- The table of `span` identifiers from `base` on. -/
def tableInWords? (base : UInt64) (span : Nat) (ids : List ObjectId) : Option (Array UInt32) :=
  ids.zipIdx.foldlM (fun entries (id, slot) => putInWords? base entries id slot)
    (Array.replicate span noSlot)

/-- Chooses the table when the identifiers span at most twice their number. -/
def buildInWords? (ids : Array ObjectId) : Option InWords :=
  match ids[0]?, ids.back? with
  | some first, some last =>
    (difference? last.raw first.raw).bind fun spread =>
      match sum? spread 1 with
      | some span =>
        if span.toNat ≤ Capped.mul ids.size 2 then
          (tableInWords? first.raw span.toNat ids.toList).map (.direct first.raw)
        else some .sorted
      -- All words there are make a span that is no word, and too large for any table.
      | none => some .sorted
  | _, _ => some .sorted

/-- The position in `[low, high)` that compares equal, as `bisect?` finds it. -/
def bisectInWords? (order : Nat → Ordering) (low high : Nat) : Option (Option Nat) :=
  if low < high then
    -- The bounds are added up before the sum is halved.
    if low + high ≤ wordMax then
      let middle := (low + high) / 2
      match order middle with
      | .eq => some (some middle)
      | .lt => if middle + 1 ≤ wordMax then bisectInWords? order (middle + 1) high else none
      | .gt => bisectInWords? order low middle
    else none
  else some none
termination_by high - low

/-- The slot of an identifier among ascending ones, if it has one. -/
def InWords.lookup? (index : InWords) (ids : Array ObjectId) (id : ObjectId) :
    Option (Option UInt32) :=
  match index with
  | .direct base entries =>
    -- An identifier below the base has no offset, and no slot.
    some ((difference? id.raw base).bind fun offset =>
      entries[offset.toNat]?.filter (· ≠ noSlot))
  | .sorted =>
    (bisectInWords? (orderOf (fun slot => ids[slot]?) id) 0 ids.size).map fun found =>
      found.map UInt32.ofNat

end HeapAtlas.SlotIndex
