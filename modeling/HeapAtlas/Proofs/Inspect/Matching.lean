import HeapAtlas.Inspect
import Mathlib.Data.List.Nodup

/-! Declared names are matched with recorded values: each takes the first one left for it. -/

namespace HeapAtlas.Inspect

/-- Taking finds the first recorded value of a name and leaves all others. -/
theorem takeNamed_eq (name : String) (recorded : List Recorded) :
    takeNamed name recorded =
      (recorded.find? (·.name = name), recorded.eraseP (·.name = name)) := by
  induction recorded with
  | nil => rfl
  | cons first rest ih =>
    -- Taking stops at the first one, as finding and erasing do.
    by_cases same : first.name = name
    · simp [takeNamed, same]
    · simp [takeNamed, same, ih]

variable {σ : Type} [DecidableEq σ]

/-- The items that none of some names was given. -/
def leftOf (items : List σ) (given : List (String × Option σ)) : List σ :=
  items.filter fun item => some item ∉ given.map (·.2)

/-- Names with what each was given of some items, and what is left of them. -/
structure Matched (nameOf : σ → String) (items : List σ) (given : List (String × Option σ))
    (left : List σ) : Prop where
  /-- A name is given the first item of its name that no name before it was given. -/
  first : ∀ before name found after, given = before ++ (name, found) :: after →
    found = (leftOf items before).find? (nameOf · = name)
  left_eq : left = leftOf items given

variable {nameOf : σ → String} {items left : List σ} {given : List (String × Option σ)}

/-- Without an index that is taken, every item is left. -/
@[simp] theorem leftOf_nil (items : List σ) : leftOf items [] = items := by
  simp [leftOf]

/-- What the first name is given is missing for the names behind it. -/
theorem leftOf_cons (items : List σ) (name : String) (found : Option σ)
    (given : List (String × Option σ)) :
    leftOf items ((name, found) :: given) = leftOf (items.filter (some · ≠ found)) given := by
  rw [leftOf, leftOf, List.filter_filter]
  congr 1
  funext item
  simp only [List.map_cons, List.mem_cons, not_or, Bool.decide_and, Bool.and_comm]

/-- Without names all items are left. -/
theorem matched_nil (nameOf : σ → String) (items : List σ) : Matched nameOf items [] items where
  first before name found after split := by
    rw [List.nil_eq, List.append_eq_nil_iff] at split
    cases split.2
  left_eq := (leftOf_nil items).symm

/-- The first name is given its first item, and the names behind it share the other items. -/
theorem matched_cons_iff {name : String} {found : Option σ} :
    Matched nameOf items ((name, found) :: given) left ↔
      found = items.find? (nameOf · = name) ∧
        Matched nameOf (items.filter (some · ≠ found)) given left := by
  constructor
  · intro matched
    refine ⟨?_, ?_, ?_⟩
    · simpa only [leftOf_nil] using matched.first [] name found given rfl
    · intro before other taken after split
      rw [← leftOf_cons items name]
      exact matched.first ((name, found) :: before) other taken after (by rw [split]; rfl)
    · rw [← leftOf_cons items name]
      exact matched.left_eq
  · rintro ⟨first, others⟩
    refine ⟨fun before other taken after split => ?_, ?_⟩
    · -- The name in question is the first one, or one of those behind it.
      cases before with
      | nil =>
        cases split
        rw [leftOf_nil]
        exact first
      | cons head rest =>
        cases split
        rw [leftOf_cons]
        exact others.first rest other taken after rfl
    · rw [leftOf_cons]
      exact others.left_eq

/-- Of distinct items, taking out the first of a kind leaves all but what was found. -/
theorem eraseP_eq_filter (distinct : items.Nodup) (kind : σ → Bool) :
    items.eraseP kind = items.filter (some · ≠ items.find? kind) := by
  induction items with
  | nil => rfl
  | cons item items ih =>
    obtain ⟨fresh, distinct⟩ := List.nodup_cons.mp distinct
    by_cases same : kind item = true
    · -- The item is found and stands nowhere else.
      have others : ∀ other ∈ items, other ≠ item := fun other member equal =>
        fresh (equal ▸ member)
      rw [List.eraseP_cons_of_pos same, List.find?_cons_of_pos same,
        List.filter_cons_of_neg (by simp)]
      exact (List.filter_eq_self.mpr (by simpa using others)).symm
    · have missed : some item ≠ items.find? kind := fun equal =>
        same (List.find?_some equal.symm)
      rw [List.eraseP_cons_of_neg same, List.find?_cons_of_neg same,
        List.filter_cons_of_pos (by simpa using missed), ih distinct]

/-- What the names were given and what is left are all items. -/
theorem Matched.perm (matched : Matched nameOf items given left) (distinct : items.Nodup) :
    (given.filterMap (·.2) ++ left).Perm items := by
  -- The induction is on the names, each of which takes at most one item away.
  induction given generalizing items with
  | nil =>
    rw [matched.left_eq, leftOf_nil]
    exact .refl items
  | cons first rest ih =>
    obtain ⟨name, found⟩ := first
    obtain ⟨found_eq, others⟩ := matched_cons_iff.mp matched
    have later := ih others (distinct.filter _)
    cases found with
    | none => simpa using later
    | some item =>
      -- The item that was found is one of all, and the others are shared out behind it.
      have member : item ∈ items := List.mem_of_find?_eq_some found_eq.symm
      have split := List.perm_cons_erase member
      rw [distinct.erase_eq_filter] at split
      refine List.Perm.trans ?_ split.symm
      simpa [bne, beq_eq_decide] using later

/-- Names can be matched with items, and this is how recorded values are assigned to them. -/
theorem exists_matched (nameOf : σ → String) (distinct : items.Nodup) (names : List String) :
    ∃ given left, given.map (·.1) = names ∧ Matched nameOf items given left ∧
      ∀ read : σ → Recorded, (∀ item, (read item).name = nameOf item) →
        assign names (items.map read) =
          (given.map (fun pair => (pair.1, pair.2.map read)), left.map read) := by
  -- The induction is on the names, the first of which takes its item away from the others.
  induction names generalizing items with
  | nil => exact ⟨[], items, rfl, matched_nil _ _, fun read _ => rfl⟩
  | cons name names ih =>
    let found := items.find? (nameOf · = name)
    obtain ⟨given, left, same, matched, assigned⟩ :=
      @ih (items.filter (some · ≠ found)) (distinct.filter _)
    refine ⟨(name, found) :: given, left, by rw [List.map_cons, same],
      matched_cons_iff.mpr ⟨rfl, matched⟩, fun read named => ?_⟩
    rw [assign, takeNamed_eq, List.find?_map, List.eraseP_map]
    simp only [Function.comp_def, named]
    rw [eraseP_eq_filter distinct, assigned read named]
    rfl

end HeapAtlas.Inspect
