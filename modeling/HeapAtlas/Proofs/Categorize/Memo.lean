import HeapAtlas.Ranking

/-! Categories follow the rules in force, whatever is remembered of earlier ones. -/

namespace HeapAtlas

/-- What happens between questions to the rules by which classes are told apart. -/
inductive RuleEvent where
  | set (starts : List String)
  | add (start : String)
  | remove (start : String)
  /-- The category of a class is asked for by others. -/
  | consult (name : String)

namespace PrefixCategorizer

/-- What is remembered of the generation in force is right, and nothing is of a later one. -/
structure Sound (categorizer : PrefixCategorizer) : Prop where
  generation_le : ∀ (name : String) entry, categorizer.memo[name]? = some entry →
    entry.generation ≤ categorizer.generation
  category_eq : ∀ (name : String) entry, categorizer.memo[name]? = some entry →
    entry.generation = categorizer.generation →
      entry.category = Categorize.categorize name categorizer.business

/-- Nothing is remembered at first. -/
theorem sound_empty : empty.Sound := ⟨by simp [empty], by simp [empty]⟩

variable {categorizer : PrefixCategorizer}

/-- New prefixes are of a generation of which nothing is remembered yet. -/
theorem Sound.setPrefixes (sound : categorizer.Sound) (starts : List String) :
    (categorizer.setPrefixes starts).Sound where
  generation_le name entry held := Nat.le_succ_of_le (sound.generation_le name entry held)
  category_eq name entry held current := by
    -- No entry can be of the new generation.
    have earlier := sound.generation_le name entry held
    have later : entry.generation = categorizer.generation + 1 := current
    omega

/-- With prefixes but without an answer nothing is remembered either. -/
theorem sound_ofPrefixes (starts : List String) : (ofPrefixes starts).Sound :=
  sound_empty.setPrefixes starts

/-- A prefix that is added makes what is remembered out of date, and no rule is broken. -/
theorem Sound.addPrefix (sound : categorizer.Sound) (start : String) :
    (categorizer.addPrefix start).2.Sound := by
  unfold PrefixCategorizer.addPrefix
  split
  · exact sound
  · exact sound.setPrefixes _

/-- So does a prefix that is removed. -/
theorem Sound.removePrefix (sound : categorizer.Sound) (start : String) :
    (categorizer.removePrefix start).2.Sound := by
  unfold PrefixCategorizer.removePrefix
  split
  · exact sound.setPrefixes _
  · exact sound

/-- What was found out is remembered for the prefixes that it was found under. -/
theorem Sound.remember (sound : categorizer.Sound) (name : String) :
    (categorizer.remember name
        ⟨Categorize.categorize name categorizer.business, categorizer.generation⟩).Sound ∧
      (categorizer.remember name
        ⟨Categorize.categorize name categorizer.business, categorizer.generation⟩).business
          = categorizer.business := by
  -- The entry of the name is the one put in, and all others stay.
  have renewed : Sound { categorizer with
      memo := categorizer.memo.insert name
        ⟨Categorize.categorize name categorizer.business, categorizer.generation⟩ } := by
    refine ⟨fun other entry held => ?_, fun other entry held current => ?_⟩
    · rw [Std.HashMap.getElem?_insert] at held
      split at held
      · exact Option.some.inj held ▸ Nat.le_refl _
      · exact sound.generation_le other entry held
    · rw [Std.HashMap.getElem?_insert] at held
      split at held
      · rename_i same
        rw [← Option.some.inj held, beq_iff_eq.mp same]
      · exact sound.category_eq other entry held current
  unfold PrefixCategorizer.remember
  split
  · split
    · exact ⟨sound, rfl⟩
    · exact ⟨renewed, rfl⟩
  · exact ⟨renewed, rfl⟩

/-- The category told is that of the rules, and asking for it changes no rule. -/
theorem Sound.categorize (sound : categorizer.Sound) (name : String) :
    (categorizer.categorize name).1 = Categorize.categorize name categorizer.business ∧
      (categorizer.categorize name).2.Sound ∧
      (categorizer.categorize name).2.business = categorizer.business := by
  have right := sound.category_eq name
  have renewed := sound.remember name
  unfold PrefixCategorizer.categorize
  -- What the rules say of the name plays no part in what becomes of it.
  generalize Categorize.categorize name categorizer.business = found at right renewed ⊢
  cases held : categorizer.memo[name]? with
  | none => exact ⟨rfl, renewed⟩
  | some entry =>
    by_cases current : entry.generation = categorizer.generation
    · simp only [if_pos current]
      exact ⟨right entry held current, sound, trivial⟩
    · simp only [if_neg current]
      exact ⟨trivial, renewed⟩

/-- The categorizer after something happened to its rules. -/
def after (categorizer : PrefixCategorizer) : RuleEvent → PrefixCategorizer
  | .set starts => categorizer.setPrefixes starts
  | .add start => (categorizer.addPrefix start).2
  | .remove start => (categorizer.removePrefix start).2
  | .consult name => (categorizer.categorize name).2

/-- Remembering nothing wrong outlasts whatever happens to the rules. -/
theorem Sound.after (sound : categorizer.Sound) (event : RuleEvent) :
    (categorizer.after event).Sound := by
  cases event with
  | set starts => exact sound.setPrefixes starts
  | add start => exact sound.addPrefix start
  | remove start => exact sound.removePrefix start
  | consult name => exact (sound.categorize name).2.1

end PrefixCategorizer

/--
A categorizer whose rules may change between questions.

What it remembers shows in no answer unless it is wrong, and neither what is asked for nor a change
of the rules makes any of it wrong.
-/
class RuledCategorizer (κ : Type) extends Categorizer κ where
  /-- What may happen to the rules. -/
  Change : Type
  after : κ → Change → κ
  /-- Nothing wrong is remembered. -/
  Sound : κ → Prop
  /-- The same rules with nothing remembered. -/
  anew : κ → κ
  sound_anew : ∀ categorizer, Sound (anew categorizer)
  anew_anew : ∀ categorizer, anew (anew categorizer) = anew categorizer
  sound_after : ∀ {categorizer}, Sound categorizer → ∀ change, Sound (after categorizer change)
  sound_categorize : ∀ {categorizer}, Sound categorizer →
    ∀ name, Sound (categorize categorizer name).2
  categorize_anew : ∀ {categorizer}, Sound categorizer →
    ∀ name, (categorize (anew categorizer) name).1 = (categorize categorizer name).1
  anew_categorize : ∀ {categorizer}, Sound categorizer →
    ∀ name, anew (categorize categorizer name).2 = anew categorizer

/-- A category that is the same for all classes is never changed. -/
instance : RuledCategorizer FixedCategory where
  Change := Empty
  after _ := nofun
  Sound _ := True
  anew := id
  sound_anew _ := trivial
  anew_anew _ := rfl
  sound_after _ := nofun
  sound_categorize _ _ := trivial
  categorize_anew _ _ := rfl
  anew_categorize _ _ := rfl

/-- A map of names to categories may be replaced by any other one. -/
instance : RuledCategorizer (String → Category) where
  Change := String → Category
  after _ := id
  Sound _ := True
  anew := id
  sound_anew _ := trivial
  anew_anew _ := rfl
  sound_after _ _ := trivial
  sound_categorize _ _ := trivial
  categorize_anew _ _ := rfl
  anew_categorize _ _ := rfl

/-- The prefixes may be changed, and the generations keep what is remembered right. -/
instance : RuledCategorizer PrefixCategorizer where
  Change := RuleEvent
  after := PrefixCategorizer.after
  Sound := PrefixCategorizer.Sound
  anew categorizer := .ofPrefixes categorizer.business
  sound_anew categorizer := PrefixCategorizer.sound_ofPrefixes categorizer.business
  anew_anew _ := rfl
  sound_after := PrefixCategorizer.Sound.after
  sound_categorize sound name := (sound.categorize name).2.1
  categorize_anew {categorizer} sound name :=
    -- Both tell what the rules say, of which there is only one lot.
    ((PrefixCategorizer.sound_ofPrefixes categorizer.business).categorize name).1.trans
      (sound.categorize name).1.symm
  anew_categorize sound name := congrArg PrefixCategorizer.ofPrefixes (sound.categorize name).2.2

/-- A change to the rules of the one kind is none to those of the other. -/
instance {κ μ : Type} [RuledCategorizer κ] [RuledCategorizer μ] : RuledCategorizer (κ ⊕ μ) where
  Change := RuledCategorizer.Change κ ⊕ RuledCategorizer.Change μ
  after
    | .inl one, .inl change => .inl (RuledCategorizer.after one change)
    | .inr other, .inr change => .inr (RuledCategorizer.after other change)
    | categorizer, _ => categorizer
  Sound := Sum.elim RuledCategorizer.Sound RuledCategorizer.Sound
  anew := Sum.map RuledCategorizer.anew RuledCategorizer.anew
  sound_anew
    | .inl one => RuledCategorizer.sound_anew one
    | .inr other => RuledCategorizer.sound_anew other
  anew_anew
    | .inl one => congrArg Sum.inl (RuledCategorizer.anew_anew one)
    | .inr other => congrArg Sum.inr (RuledCategorizer.anew_anew other)
  sound_after {categorizer} sound change := by
    cases categorizer <;> cases change
    · exact RuledCategorizer.sound_after sound _
    · exact sound
    · exact sound
    · exact RuledCategorizer.sound_after sound _
  sound_categorize {categorizer} sound name := by
    cases categorizer with
    | inl one => exact RuledCategorizer.sound_categorize sound name
    | inr other => exact RuledCategorizer.sound_categorize sound name
  categorize_anew {categorizer} sound name := by
    cases categorizer with
    | inl one => exact RuledCategorizer.categorize_anew sound name
    | inr other => exact RuledCategorizer.categorize_anew sound name
  anew_categorize {categorizer} sound name := by
    cases categorizer with
    | inl one => exact congrArg Sum.inl (RuledCategorizer.anew_categorize sound name)
    | inr other => exact congrArg Sum.inr (RuledCategorizer.anew_categorize sound name)

namespace RankingIndex

/-- Names asked for one after another are told what each of them would be told alone. -/
theorem categorized_fst {κ : Type} [Categorizer κ] (categorizer : κ)
    (totals : List (String × ClassSummary)) :
    (categorized categorizer totals).1 =
      totals.map fun total =>
        ⟨total.1, (Categorizer.categorize categorizer total.1).1, total.2⟩ := by
  induction totals generalizing categorizer with
  | nil => rfl
  | cons total rest ih =>
    obtain ⟨name, summary⟩ := total
    -- The names behind are asked of the categorizer as the first one has left it.
    have others : (categorized (Categorizer.categorize categorizer name).2 rest).1 = rest.map
        fun total => ⟨total.1, (Categorizer.categorize categorizer total.1).1, total.2⟩ := by
      rw [ih]
      exact List.map_congr_left fun total _ => by rw [Categorizer.categorize_after]
    rw [categorized, List.map_cons, ← others]

section Ruled

variable {κ : Type} [RuledCategorizer κ] {categorizer : κ}

open RuledCategorizer

/-- Asking for names one after another makes nothing wrong of what is remembered. -/
theorem sound_categorized (sound : Sound categorizer) (totals : List (String × ClassSummary)) :
    Sound (categorized categorizer totals).2 ∧
      anew (categorized categorizer totals).2 = anew categorizer := by
  -- The induction is on the names; every question leaves the categorizer with its rules.
  induction totals generalizing categorizer with
  | nil => exact ⟨sound, rfl⟩
  | cons total rest ih =>
    obtain ⟨later, kept⟩ := ih (sound_categorize sound total.1)
    exact ⟨later, kept.trans (anew_categorize sound total.1)⟩

/-- Classes are ranked by the rules in force, whatever the categorizer remembers. -/
theorem topClasses_of_sound (index : RankingIndex) (graph : HeapGraph) (sound : Sound categorizer)
    (topN : Nat) (key : SortKey) (filter : CategoryFilter) :
    (index.topClasses graph categorizer topN key filter).1
        = (index.topClasses graph (anew categorizer) topN key filter).1 ∧
      Sound (index.topClasses graph categorizer topN key filter).2 ∧
      anew (index.topClasses graph categorizer topN key filter).2 = anew categorizer := by
  -- Name by name, a sound memory answers as no memory does.
  have rankings : (categorized categorizer (index.totalsByName graph)).1 =
      (categorized (anew categorizer) (index.totalsByName graph)).1 := by
    rw [categorized_fst, categorized_fst]
    exact List.map_congr_left fun total _ => by rw [categorize_anew sound]
  unfold topClasses
  dsimp only
  rw [rankings]
  exact ⟨rfl, sound_categorized sound _⟩

end Ruled

end RankingIndex

end HeapAtlas
