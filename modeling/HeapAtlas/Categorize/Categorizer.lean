import HeapAtlas.Category

/-! What tells the categories of classes: whatever puts a class name in one category. -/

namespace HeapAtlas

/--
Tells the category of a class by its name, and may remember what it told.

A name is in one category: what is asked for in between changes no later answer.
-/
class Categorizer (κ : Type) where
  categorize : κ → String → Category × κ
  categorize_after : ∀ (categorizer : κ) (name other : String),
    (categorize (categorize categorizer name).2 other).1 = (categorize categorizer other).1

/-- The same category for every class. -/
structure FixedCategory where
  category : Category
  deriving DecidableEq, Repr

instance : Inhabited FixedCategory := ⟨⟨.application⟩⟩

instance : Categorizer FixedCategory where
  categorize fixed _ := (fixed.category, fixed)
  categorize_after _ _ _ := rfl

/-- Any map of names to categories tells them and has nothing to remember. -/
instance : Categorizer (String → Category) where
  categorize categoryOf name := (categoryOf name, categoryOf)
  categorize_after _ _ _ := rfl

/-- A categorizer of either kind is one. -/
instance {κ μ : Type} [Categorizer κ] [Categorizer μ] : Categorizer (κ ⊕ μ) where
  categorize
    | .inl one, name =>
      let (category, one) := Categorizer.categorize one name
      (category, .inl one)
    | .inr other, name =>
      let (category, other) := Categorizer.categorize other name
      (category, .inr other)
  categorize_after
    | .inl one, name, other => Categorizer.categorize_after one name other
    | .inr one, name, other => Categorizer.categorize_after one name other

end HeapAtlas
