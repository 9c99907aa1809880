import Std.Data.HashMap

/-! Class and field names, each kept once and referred to by its index. -/

namespace HeapAtlas

/-- Names by index. -/
structure NameTable where
  names : Array String
  deriving DecidableEq, Inhabited

namespace NameTable

/-- The table without names. -/
def empty : NameTable := ⟨#[]⟩

/-- Adds a name at the end. -/
def push (table : NameTable) (name : String) : NameTable := ⟨table.names.push name⟩

/-- The table of names that are added one after another. -/
def ofNames (names : List String) : NameTable := names.foldl push empty

/-- Number of names. -/
def size (table : NameTable) : Nat := table.names.size

/-- The name at an index, if there is one. -/
def get? (table : NameTable) (index : Nat) : Option String := table.names[index]?

/-- The name at an index, past the end the empty text. -/
def get (table : NameTable) (index : Nat) : String := table.names.getD index ""

/-- Bytes that all names take in UTF-8. -/
def byteCount (table : NameTable) : Nat :=
  table.names.toList.foldl (fun bytes name => bytes + name.utf8ByteSize) 0

/-- Names that are added one after another stand in that order. -/
theorem ofNames_eq (names : List String) : ofNames names = ⟨names.toArray⟩ := by
  -- The table at hand is taken along, as the names are added to it from the first one on.
  have added (table : NameTable) : names.foldl push table = ⟨table.names ++ names.toArray⟩ := by
    induction names generalizing table with
    | nil => simp
    | cons name rest ih => rw [List.foldl_cons, ih]; simp [push]
  rw [ofNames, added, empty]
  simp

end NameTable

/-- A table under construction, which knows the index of every name it holds. -/
structure Interner where
  table : NameTable
  index : Std.HashMap String Nat

namespace Interner

/-- No names yet. -/
def empty : Interner := ⟨.empty, ∅⟩

/-- The index of a name, which joins the table at the end when it is new. -/
def intern (interner : Interner) (name : String) : Nat × Interner :=
  match interner.index[name]? with
  | some index => (index, interner)
  | none =>
    -- A new name gets the index behind the last one.
    let index := interner.table.size
    (index, ⟨interner.table.push name, interner.index.insert name index⟩)

/-- The indices of names, interned from left to right. -/
def internAll (interner : Interner) : List String → List Nat × Interner
  | [] => ([], interner)
  | name :: rest =>
    let (index, interner) := interner.intern name
    let (indices, interner) := interner.internAll rest
    (index :: indices, interner)

end Interner

end HeapAtlas
