/-! Groups of items laid end to end in one array, with the offsets at which groups begin. -/

namespace HeapAtlas

/-- Group `i` holds the items from offset `i` up to offset `i + 1`. -/
structure Ragged (α : Type) where
  offsets : Array Nat
  items : Array α
  deriving DecidableEq, Repr, Inhabited

namespace Ragged

variable {α β : Type}

/-- No groups. -/
def empty : Ragged α := ⟨#[0], #[]⟩

/-- Number of groups. -/
def groupCount (ragged : Ragged α) : Nat := ragged.offsets.size - 1

/-- Where a group begins. -/
def start (ragged : Ragged α) (index : Nat) : Nat := ragged.offsets.getD index 0

/-- Where a group ends. -/
def stop (ragged : Ragged α) (index : Nat) : Nat := ragged.offsets.getD (index + 1) 0

/-- Number of items of a group. -/
def groupSize (ragged : Ragged α) (index : Nat) : Nat := ragged.stop index - ragged.start index

/-- Positions of a group's items. -/
def positions (ragged : Ragged α) (index : Nat) : List Nat :=
  List.range' (ragged.start index) (ragged.groupSize index)

/-- The items of a group. -/
def group (ragged : Ragged α) (index : Nat) : List α :=
  (ragged.items.extract (ragged.start index) (ragged.stop index)).toList

/-- Adds a group behind the others. -/
def push (ragged : Ragged α) (group : List α) : Ragged α :=
  -- The new offset is where the items end once the group is added.
  ⟨ragged.offsets.push (ragged.items.size + group.length), ragged.items.appendList group⟩

/-- The groups of a list, in order. -/
def ofGroups (groups : List (List α)) : Ragged α := groups.foldl push empty

/-- Where groups of the given sizes begin, and where the last of them ends. -/
def offsetsOf (sizes : List Nat) : Array Nat :=
  sizes.foldl (fun offsets size => offsets.push (offsets.back?.getD 0 + size)) #[0]

/-- Changes every item and no group. -/
def map (f : α → β) (ragged : Ragged α) : Ragged β := ⟨ragged.offsets, ragged.items.map f⟩

/-- The offsets of `groups` groups begin at zero, never fall and end behind the last item. -/
structure Tiled (ragged : Ragged α) (groups : Nat) : Prop where
  size_offsets : ragged.offsets.size = groups + 1
  start_zero : ragged.offsets[0]? = some 0
  monotone : ∀ i j : Nat, i ≤ j → j ≤ groups →
    ragged.offsets.getD i 0 ≤ ragged.offsets.getD j 0
  stop_last : ragged.offsets[groups]? = some ragged.items.size

end Ragged

end HeapAtlas
