import Std.Data.HashMap
import HeapAtlas.Categorize.Categorizer
import HeapAtlas.Categorize.Rules

/-! Categories remembered by name, each with the generation of the prefixes it was found under. -/

namespace HeapAtlas

/-- A category and the generation of the business prefixes that it belongs to. -/
structure Stamped where
  category : Category
  generation : Nat
  deriving DecidableEq, Repr

/--
Business prefixes that may change, and what was found out under them.

Every change raises the generation, and an entry of an older one is found out anew.
-/
structure PrefixCategorizer where
  business : List String
  generation : Nat
  memo : Std.HashMap String Stamped

namespace PrefixCategorizer

/-- No business prefixes and nothing remembered. -/
def empty : PrefixCategorizer := ⟨[], 0, ∅⟩

/-- Replaces the business prefixes, which always counts as a change. -/
def setPrefixes (categorizer : PrefixCategorizer) (starts : List String) : PrefixCategorizer :=
  { categorizer with business := starts, generation := categorizer.generation + 1 }

/-- A categorizer with business prefixes. -/
def ofPrefixes (starts : List String) : PrefixCategorizer := empty.setPrefixes starts

/-- Adds a business prefix at the end and says whether it was new. -/
def addPrefix (categorizer : PrefixCategorizer) (start : String) : Bool × PrefixCategorizer :=
  if categorizer.business.contains start then (false, categorizer)
  else (true, categorizer.setPrefixes (categorizer.business ++ [start]))

/-- Removes a business prefix wherever it stands and says whether it was there. -/
def removePrefix (categorizer : PrefixCategorizer) (start : String) : Bool × PrefixCategorizer :=
  if categorizer.business.contains start then
    (true, categorizer.setPrefixes (categorizer.business.filter (· != start)))
  else (false, categorizer)

/-- Remembers a category of a name, unless one of a later generation is remembered already. -/
def remember (categorizer : PrefixCategorizer) (name : String) (stamped : Stamped) :
    PrefixCategorizer :=
  let renewed := { categorizer with memo := categorizer.memo.insert name stamped }
  match categorizer.memo[name]? with
  -- Prefixes may have changed since the category was found out.
  | some entry => if stamped.generation < entry.generation then categorizer else renewed
  | none => renewed

/-- The category of a class, remembered or found out. -/
def categorize (categorizer : PrefixCategorizer) (name : String) :
    Category × PrefixCategorizer :=
  let found := Categorize.categorize name categorizer.business
  let renewed := categorizer.remember name ⟨found, categorizer.generation⟩
  -- An entry of an earlier generation was made under other prefixes and is written over.
  match categorizer.memo[name]? with
  | some entry =>
    if entry.generation = categorizer.generation then (entry.category, categorizer)
    else (found, renewed)
  | none => (found, renewed)

/-- Number of names remembered. -/
def memoSize (categorizer : PrefixCategorizer) : Nat := categorizer.memo.size

/-- Number of names remembered under the prefixes now in force. -/
def freshSize (categorizer : PrefixCategorizer) : Nat :=
  categorizer.memo.toList.countP fun (_, entry) => entry.generation = categorizer.generation

/-- The category told depends on what is remembered of the name alone, and on the rules. -/
theorem categorize_fst (categorizer : PrefixCategorizer) (name : String) :
    (categorizer.categorize name).1 =
      match categorizer.memo[name]? with
      | some entry =>
        if entry.generation = categorizer.generation then entry.category
        else Categorize.categorize name categorizer.business
      | none => Categorize.categorize name categorizer.business := by
  unfold PrefixCategorizer.categorize
  generalize Categorize.categorize name categorizer.business = found
  -- A name is looked up first; an entry counts only if it is of the generation in force.
  cases categorizer.memo[name]? with
  | none => rfl
  | some entry =>
    by_cases current : entry.generation = categorizer.generation
    · simp only [if_pos current]
    · simp only [if_neg current]

/-- What is asked for changes no later answer, not even to the same question. -/
theorem categorize_after (categorizer : PrefixCategorizer) (name other : String) :
    ((categorizer.categorize name).2.categorize other).1 = (categorizer.categorize other).1 := by
  have told := categorizer.categorize_fst name
  -- Unless the answer was remembered, it is remembered from now on.
  have left : (categorizer.categorize name).2 = categorizer ∨
      (categorizer.categorize name).1 = Categorize.categorize name categorizer.business ∧
        (categorizer.categorize name).2 = { categorizer with
          memo := categorizer.memo.insert name
            ⟨Categorize.categorize name categorizer.business, categorizer.generation⟩ } := by
    unfold PrefixCategorizer.categorize PrefixCategorizer.remember
    generalize Categorize.categorize name categorizer.business = rules
    cases categorizer.memo[name]? with
    | none => exact .inr ⟨rfl, rfl⟩
    | some entry =>
      by_cases current : entry.generation = categorizer.generation
      · exact .inl (by simp only [if_pos current])
      · simp only [if_neg current]
        by_cases late : categorizer.generation < entry.generation
        · exact .inl (by rw [if_pos late])
        · exact .inr ⟨trivial, by rw [if_neg late]⟩
  rcases left with same | ⟨found, renewed⟩
  · rw [same]
  · rw [renewed, categorize_fst, categorize_fst]
    dsimp only
    rw [Std.HashMap.getElem?_insert]
    by_cases equal : name = other
    · subst equal
      rw [if_pos (beq_self_eq_true name)]
      dsimp only
      rw [if_pos rfl]
      exact found.symm.trans told
    · rw [if_neg (by simpa using equal)]

end PrefixCategorizer

instance : Categorizer PrefixCategorizer where
  categorize := PrefixCategorizer.categorize
  categorize_after := PrefixCategorizer.categorize_after

end HeapAtlas
