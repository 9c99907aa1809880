import HeapAtlas.Categorize.Rules
import HeapAtlas.Proofs.Text.Trimmed

/-! Arrays are in the category of their elements, and more prefixes only make classes business. -/

namespace HeapAtlas

namespace Text

/-- What is visible behind a text that does not end with a blank stays when both are trimmed. -/
theorem trimBlank_append_visible {cs behind : List Char}
    (last : ∀ c, cs.getLast? = some c → isBlank c = false)
    (visible : ∀ c ∈ behind, isBlank c = false) :
    trimBlank (cs ++ behind) = trimBlank cs ++ behind := by
  -- Both texts have their blanks in front only, and these are the same.
  obtain ⟨before, whole, blank, head⟩ := exists_append_dropWhile isBlank cs
  have lastCore : ∀ c, (cs.dropWhile isBlank).getLast? = some c → isBlank c = false := by
    intro c isLast
    refine last c ?_
    rw [whole, List.getLast?_append, isLast, Option.some_or]
  have core : trimBlank cs = cs.dropWhile isBlank :=
    trimBlank_eq_iff.mpr ⟨⟨before, [], by rw [List.append_nil, ← whole], blank, by simp⟩, head,
      lastCore⟩
  rw [core]
  refine trimBlank_eq_iff.mpr ⟨⟨before, [], ?_, blank, by simp⟩, fun c first => ?_,
    fun c isLast => ?_⟩
  · rw [List.append_nil, ← List.append_assoc, ← whole]
  · rcases List.head?_append ▸ first |> Option.or_eq_some_iff.mp with inside | ⟨_, outside⟩
    · exact head c inside
    · exact visible c (List.mem_of_mem_head? outside)
  · rcases List.getLast?_append ▸ isLast |> Option.or_eq_some_iff.mp with outside | ⟨_, inside⟩
    · exact visible c (List.mem_of_mem_getLast? outside)
    · exact lastCore c inside

end Text

namespace Categorize

/-! ### Arrays -/

/-- The name of an array of so many dimensions with elements of a class. -/
def arrayName (name : String) : (dimensions : Nat) → String
  | 0 => name
  | dimensions + 1 => arrayName name dimensions ++ "[]"

variable {name : String}

/-- One more dimension is one more pair of brackets at the end. -/
theorem toList_arrayName_succ (name : String) (dimensions : Nat) :
    (arrayName name (dimensions + 1)).toList = (arrayName name dimensions).toList ++ ['[', ']'] :=
  String.toList_append

/-- Behind a name that does not end with a blank there is none behind its brackets either. -/
theorem last_arrayName (last : ∀ c, name.toList.getLast? = some c → Text.isBlank c = false)
    (dimensions : Nat) :
    ∀ c, (arrayName name dimensions).toList.getLast? = some c → Text.isBlank c = false := by
  cases dimensions with
  | zero => exact last
  | succ dimensions =>
    -- With brackets the last character is the closing one.
    rw [toList_arrayName_succ, List.getLast?_append]
    intro c closing
    cases closing
    rfl

/-- The elements of an array are those of the class that it is made of, at any depth. -/
theorem elementChars_arrayName
    (last : ∀ c, name.toList.getLast? = some c → Text.isBlank c = false) (dimensions : Nat) :
    elementChars (arrayName name dimensions) = elementChars name := by
  -- Each dimension puts one pair of brackets at the end, and that is the first to be dropped.
  induction dimensions with
  | zero => rfl
  | succ dimensions ih =>
    have visible : ∀ c ∈ ['[', ']'], Text.isBlank c = false :=
      List.forall_mem_cons.mpr ⟨rfl, List.forall_mem_singleton.mpr rfl⟩
    rw [← ih, elementChars, toList_arrayName_succ,
      Text.trimBlank_append_visible (last_arrayName last dimensions) visible, List.reverse_append]
    rfl

/-- A descriptor ends with a letter, so that what ends with a bracket is none. -/
theorem isDescriptor_concat_bracket (chars : List Char) :
    isDescriptor (chars ++ [']']) = false := by
  rw [isDescriptor]
  split
  · rename_i letter alone
    -- What is left behind the opening brackets is the last character.
    obtain ⟨opening, whole⟩ := List.dropWhile_suffix (· = '[') (l := chars ++ [']'])
    rw [alone] at whole
    obtain ⟨_, same⟩ := List.append_inj' whole rfl
    cases same
    exact Bool.and_false _
  · rfl

/-- A descriptor begins with a bracket. -/
theorem isDescriptor_of_head {chars : List Char} (head : chars.head? ≠ some '[') :
    isDescriptor chars = false := by
  rw [isDescriptor]
  split
  · rw [decide_eq_false head, Bool.false_and]
  · rfl

/-- An array counts as primitive just when its elements do, unless they are given by a letter. -/
theorem isPrimitive_arrayName
    (last : ∀ c, name.toList.getLast? = some c → Text.isBlank c = false)
    (head : name.toList.head? ≠ some '[') (dimensions : Nat) :
    isPrimitive (arrayName name dimensions) = isPrimitive name := by
  -- Neither the name nor its array is a descriptor, and their elements are the same.
  have none : isDescriptor (arrayName name dimensions).toList = false := by
    cases dimensions with
    | zero => exact isDescriptor_of_head head
    | succ dimensions =>
      rw [toList_arrayName_succ, ← List.singleton_append, ← List.append_assoc]
      exact isDescriptor_concat_bracket _
  rw [isPrimitive, isPrimitive, elementType, elementType, elementChars_arrayName last, none,
    isDescriptor_of_head head]

/-- An array is in the category of its elements. -/
theorem categorize_arrayName
    (last : ∀ c, name.toList.getLast? = some c → Text.isBlank c = false)
    (head : name.toList.head? ≠ some '[') (dimensions : Nat) (business : List String) :
    categorize (arrayName name dimensions) business = categorize name business := by
  rw [categorize, categorize, elementChars_arrayName last, isPrimitive_arrayName last head]

/-! ### Prefixes -/

variable {business more : List String}

/-- What begins with one of some prefixes begins with one of more prefixes. -/
theorem startsWithAny_of_subset {chars : List Char}
    (subset : ∀ start ∈ business, start ≠ "" → start ∈ more)
    (starts : startsWithAny chars business = true) : startsWithAny chars more = true := by
  obtain ⟨start, among, holds⟩ := List.any_eq_true.mp starts
  refine List.any_eq_true.mpr ⟨start, subset start among ?_, holds⟩
  -- An empty prefix is one that nothing begins with.
  rintro rfl
  cases holds

/-- Whether a class is primitive does not depend on prefixes. -/
theorem categorize_eq_primitive_iff :
    categorize name business = .primitive ↔ isPrimitive name = true := by
  rw [categorize]
  -- No later rule gives this category.
  split
  · simp_all
  · simp_all only [Bool.not_eq_true, iff_false, Bool.false_eq_true]
    split
    · nofun
    split
    · nofun
    split <;> nofun

/-- Business are the classes under one of the prefixes, unless they are primitive. -/
theorem categorize_eq_business_iff : categorize name business = .business ↔
    isPrimitive name = false ∧ startsWithAny (elementChars name) business = true := by
  rw [categorize]
  -- Only the rule before it can take a class away.
  split
  · simp_all
  · split
    · simp_all
    · simp_all only [Bool.not_eq_true, and_false, iff_false, Bool.false_eq_true]
      split
      · nofun
      split <;> nofun

/-- Prefixes that do not apply make no difference. -/
theorem categorize_of_not_startsWithAny
    (apart : startsWithAny (elementChars name) business = false) :
    categorize name business = categorize name [] := by
  have none : startsWithAny (elementChars name) [] = false := rfl
  simp only [categorize, apart, none]

/-- More prefixes leave a class in its category or make it business. -/
theorem categorize_of_subset (subset : ∀ start ∈ business, start ≠ "" → start ∈ more)
    (name : String) :
    categorize name more = categorize name business ∨ categorize name more = .business := by
  cases applies : startsWithAny (elementChars name) more with
  | true =>
    -- The class is business now, unless it is primitive, which it was before.
    cases primitive : isPrimitive name with
    | true =>
      left
      rw [categorize_eq_primitive_iff.mpr primitive, categorize_eq_primitive_iff.mpr primitive]
    | false => exact .inr (categorize_eq_business_iff.mpr ⟨primitive, applies⟩)
  | false =>
    -- Then none of the fewer prefixes applies either.
    have apart : startsWithAny (elementChars name) business = false :=
      Bool.eq_false_iff.mpr fun starts =>
        Bool.eq_false_iff.mp applies (startsWithAny_of_subset subset starts)
    left
    rw [categorize_of_not_startsWithAny applies, categorize_of_not_startsWithAny apart]

/--
Under any prefixes an array is in the category of its elements; and more prefixes, in any order and
with repetitions, leave a class in its category or make it business, where business classes stay
and primitive ones neither come nor go.
-/
theorem categorize_arrays_and_more_prefixes :
    (∀ name : String, (∀ c, name.toList.getLast? = some c → Text.isBlank c = false) →
      name.toList.head? ≠ some '[' → ∀ (business : List String) (dimensions : Nat),
        categorize (arrayName name dimensions) business = categorize name business) ∧
    ∀ (name : String) (business more : List String),
      (∀ start ∈ business, start ≠ "" → start ∈ more) →
        (categorize name more = categorize name business ∨ categorize name more = .business) ∧
        (categorize name business = .business → categorize name more = .business) ∧
        (categorize name more = .primitive ↔ categorize name business = .primitive) := by
  refine ⟨fun name last head business dimensions =>
    categorize_arrayName last head dimensions business,
    fun name business more subset => ⟨categorize_of_subset subset name, fun is => ?_, ?_⟩⟩
  · -- More prefixes keep what some of them have claimed.
    obtain ⟨apart, starts⟩ := categorize_eq_business_iff.mp is
    exact categorize_eq_business_iff.mpr ⟨apart, startsWithAny_of_subset subset starts⟩
  · rw [categorize_eq_primitive_iff, categorize_eq_primitive_iff]

/-- A framework's class, also as element of an array, that one of more prefixes claims, and an array
of words that none claims. -/
theorem categorize_claimed_framework :
    categorize (arrayName " io.netty.Chunk" 2) ["", "x."] = .framework ∧
      (categorize " io.netty.Chunk" ["io.netty.", "x.", "io.netty."] = .framework ∨
        categorize " io.netty.Chunk" ["io.netty.", "x.", "io.netty."] = .business) ∧
      categorize "[[I" ["[", "x."] = .primitive := by
  obtain ⟨arrays, prefixes⟩ := categorize_arrays_and_more_prefixes
  have plain : categorize " io.netty.Chunk" ["", "x."] = .framework := by decide +kernel
  have letters : categorize "[[I" ["x."] = .primitive := by decide +kernel
  -- Each part is the general law at a name that stands in brackets or behind a blank.
  refine ⟨?_, ?_, ?_⟩
  · have last : ∀ c, " io.netty.Chunk".toList.getLast? = some c → Text.isBlank c = false := by
      intro c last
      obtain rfl : 'k' = c := Option.some.inj last
      rfl
    rw [arrays " io.netty.Chunk" last (by decide +kernel), plain]
  · rw [← plain]
    exact (prefixes " io.netty.Chunk" ["", "x."] ["io.netty.", "x.", "io.netty."] (by decide)).1
  · exact (prefixes "[[I" ["x."] ["[", "x."] (by decide)).2.2.mpr letters

end Categorize

end HeapAtlas
