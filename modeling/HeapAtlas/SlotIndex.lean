import HeapAtlas.Ident
import HeapAtlas.Bisect

/-! The way from an object's identifier to its slot. -/

namespace HeapAtlas

/-- Identifiers that lie close together have a table of their own; others are searched for. -/
inductive SlotIndex where
  /-- Entry `i` is the slot of identifier `base + i`. -/
  | direct (base : UInt64) (slots : Array (Option Slot))
  /-- Slots are found by halving the ascending identifiers. -/
  | sorted
  deriving DecidableEq, Inhabited

namespace SlotIndex

/-- The table of `span` identifiers from `base` on, with the slots of those that exist. -/
def tableOf (base : UInt64) (span : Nat) (ids : List ObjectId) : Array (Option Slot) :=
  ids.zipIdx.foldl
    (fun slots (id, slot) => slots.setIfInBounds (id.raw.toNat - base.toNat) (some slot))
    (Array.replicate span none)

/-- Chooses the table when the identifiers span at most twice their number. -/
def build (ids : Array ObjectId) : SlotIndex :=
  match ids[0]?, ids.back? with
  | some first, some last =>
    -- Identifiers ascend, so the first and the last tell how far they spread.
    let span := last.raw.toNat - first.raw.toNat + 1
    if span ≤ 2 * ids.size then .direct first.raw (tableOf first.raw span ids.toList) else .sorted
  | _, _ => .sorted

/-- The slot of an identifier among `count` ascending ones, which `idAt` gives by their slots. -/
def lookup (index : SlotIndex) (idAt : Slot → Option ObjectId) (count : Nat) (id : ObjectId) :
    Option Slot :=
  match index with
  | .direct base slots =>
    -- Below the base the difference would be cut off at zero.
    if base ≤ id.raw then (slots[id.raw.toNat - base.toNat]?).join else none
  | .sorted => bisect? (orderOf idAt id) 0 count

/-- Bytes that the table takes, four for an entry. -/
def byteCount : SlotIndex → Nat
  | .direct _ slots => slots.size * 4
  | .sorted => 0

end SlotIndex

end HeapAtlas
