import Mathlib.Data.List.Nodup
import HeapAtlas.NameTable

/-! Interned names: every index reads its name back, and no name has two indices. -/

namespace HeapAtlas

/-- A table read under some indices gives some names. -/
def NameTable.Reads (table : NameTable) : List Nat → List String → Prop :=
  List.Forall₂ fun index name => table.get? index = some name

/-- One table begins with all names of another. -/
def NameTable.Extends (after before : NameTable) : Prop :=
  before.names.toList <+: after.names.toList

/-- A name that is read is one of the table's. -/
theorem NameTable.lt_size {table : NameTable} {index : Nat} {name : String}
    (held : table.get? index = some name) : index < table.size :=
  (Array.getElem?_eq_some_iff.mp held).1

namespace NameTable.Extends

variable {first second third : NameTable}

/-- A table begins with its own names. -/
theorem refl (table : NameTable) : table.Extends table := List.prefix_refl _

/-- What begins with a table begins with all that the table begins with. -/
theorem trans (later : third.Extends second) (earlier : second.Extends first) :
    third.Extends first := List.IsPrefix.trans earlier later

/-- Names keep their indices. -/
theorem get?_eq (extends_ : second.Extends first) {index : Nat} {name : String}
    (held : first.get? index = some name) : second.get? index = some name := by
  obtain ⟨more, whole⟩ := extends_
  rw [NameTable.get?, ← Array.getElem?_toList] at held ⊢
  rw [← whole, List.getElem?_append_left (List.getElem?_eq_some_iff.mp held).1, held]

/-- Names that were read are still read once others are added. -/
theorem reads (extends_ : second.Extends first) {indices : List Nat} {names : List String}
    (held : first.Reads indices names) : second.Reads indices names :=
  held.imp fun _ _ => extends_.get?_eq

end NameTable.Extends

namespace Interner

/-- The index knows just the names of the table, under the indices they have there. -/
def Sound (interner : Interner) : Prop :=
  ∀ name index, interner.index[name]? = some index ↔ interner.table.get? index = some name

/-- What interning some names makes of an interner. -/
structure Grows (before after : Interner) (names : List String) : Prop where
  sound : after.Sound
  extends_ : after.table.Extends before.table
  mem : ∀ name ∈ after.table.names, name ∈ before.table.names ∨ name ∈ names

/-- Without names the index knows none. -/
theorem sound_empty : empty.Sound := by
  intro name index
  simp [empty, NameTable.empty, NameTable.get?]

variable {interner next last : Interner} {names more : List String}

/-- Interning no names changes nothing. -/
theorem Sound.grows (sound : interner.Sound) : interner.Grows interner [] where
  sound := sound
  extends_ := .refl _
  mem := fun _ => .inl

/-- Interning goes on where it was left off. -/
theorem Grows.trans (first : interner.Grows next names) (second : next.Grows last more) :
    interner.Grows last (names ++ more) where
  sound := second.sound
  extends_ := second.extends_.trans first.extends_
  mem := by
    intro name member
    -- A name came in with the second names, with the first, or was there before both.
    rcases second.mem name member with before | among
    · rcases first.mem name before with start | among
      · exact .inl start
      · exact .inr (List.mem_append_left _ among)
    · exact .inr (List.mem_append_right _ among)

/-- No name stands in the table twice. -/
theorem Sound.nodup (sound : interner.Sound) : interner.table.names.toList.Nodup := by
  rw [List.nodup_iff_getElem?_ne_getElem?]
  intro i j less within same
  rw [List.getElem?_eq_getElem within] at same
  -- The index would know two indices of the one name.
  have atSecond := (sound _ j).mpr (by
    rw [NameTable.get?, ← Array.getElem?_toList]
    exact List.getElem?_eq_getElem within)
  have atFirst := (sound _ i).mpr (by
    rw [NameTable.get?, ← Array.getElem?_toList]
    exact same)
  rw [atFirst] at atSecond
  cases atSecond
  exact Nat.lt_irrefl _ less

/-- A name that is not known may join the table at its end. -/
theorem Sound.push (sound : interner.Sound) {name : String} (new : interner.index[name]? = none) :
    Sound ⟨⟨interner.table.names.push name⟩, interner.index.insert name interner.table.size⟩ := by
  intro other index
  rw [Std.HashMap.getElem?_insert, NameTable.get?, Array.getElem?_push]
  by_cases same : name = other
  · -- The new name has the new index, and had none before.
    subst same
    rw [if_pos (beq_self_eq_true _)]
    split
    · rename_i last
      rw [last]
      exact iff_of_true rfl rfl
    · rename_i before
      refine iff_of_false (fun equal => before (Option.some.inj equal).symm) fun held => ?_
      rw [(sound name index).mpr held] at new
      cases new
  · rw [if_neg (by simpa using same), sound other index, NameTable.get?]
    split
    · rename_i last
      have beyond : interner.table.names[index]? = none := Array.getElem?_eq_none (by omega)
      rw [beyond]
      exact iff_of_false (by simp) (by simpa using same)
    · exact .rfl

/-- An interned name is read back under its index. -/
theorem Sound.intern (sound : interner.Sound) (name : String) :
    interner.Grows (interner.intern name).2 [name] ∧
      (interner.intern name).2.table.get? (interner.intern name).1 = some name := by
  rw [Interner.intern]
  cases known : interner.index[name]? with
  | some index =>
    exact ⟨⟨sound, .refl _, fun _ => .inl⟩, (sound name index).mp known⟩
  | none =>
    -- A new name joins the table at the end, under the index that is handed out.
    refine ⟨⟨sound.push known, ?_, ?_⟩, Array.getElem?_push_size⟩
    · show _ <+: (interner.table.names.push name).toList
      rw [Array.toList_push]
      exact List.prefix_append _ _
    · intro other member
      rcases Array.mem_push.mp member with before | rfl
      · exact .inl before
      · exact .inr List.mem_cons_self

/-- Interned names are read back under their indices. -/
theorem Sound.internAll (sound : interner.Sound) (names : List String) :
    interner.Grows (interner.internAll names).2 names ∧
      (interner.internAll names).2.table.Reads (interner.internAll names).1 names := by
  induction names generalizing interner with
  | nil => exact ⟨sound.grows, .nil⟩
  | cons name rest ih =>
    obtain ⟨grows, held⟩ := sound.intern name
    obtain ⟨others, read⟩ := ih grows.sound
    -- The first index still reads its name in the table that the others leave.
    exact ⟨grows.trans others, .cons (others.extends_.get?_eq held) read⟩

end Interner

end HeapAtlas
