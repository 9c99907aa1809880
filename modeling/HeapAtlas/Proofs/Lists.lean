import Mathlib.Data.List.Forall2
import Mathlib.Data.List.Induction
import Mathlib.Data.List.Nodup
import Mathlib.Data.List.Perm.Basic

/-! Lists side by side, partner by partner, and lists of pairs in which keys are looked up. -/

namespace HeapAtlas

variable {α β γ : Type}

/-- An item of a list with one more item is an old one or the last. -/
theorem getElem?_concat {items : List α} {last item : α} {index : Nat}
    (held : (items ++ [last])[index]? = some item) :
    (index < items.length ∧ items[index]? = some item) ∨ (index = items.length ∧ item = last) := by
  rcases Nat.lt_trichotomy index items.length with less | rfl | more
  · rw [List.getElem?_append_left less] at held
    exact .inl ⟨less, held⟩
  · rw [List.getElem?_concat_length] at held
    exact .inr ⟨rfl, (Option.some.inj held).symm⟩
  · rw [List.getElem?_eq_none (by rw [List.length_append, List.length_singleton]; omega)] at held
    cases held

/-- What stands at a place is what is read there, whatever is read where nothing stands. -/
theorem getElem?_eq_some_getD {items : Array α} {index : Nat} (within : index < items.size)
    (fallback : α) : items[index]? = some (items.getD index fallback) := by
  rw [Array.getD_eq_getD_getElem?, Array.getElem?_eq_getElem within, Option.getD_some]

/-- Of items of which at most one is counted, those counted are one. -/
theorem eq_of_countP_le_one (counted : α → Bool) {items : List α}
    (few : items.countP counted ≤ 1) {one other : α} (here : one ∈ items) (there : other ∈ items)
    (oneCounted : counted one = true) (otherCounted : counted other = true) : one = other := by
  have first : one ∈ items.filter counted := List.mem_filter.mpr ⟨here, oneCounted⟩
  have second : other ∈ items.filter counted := List.mem_filter.mpr ⟨there, otherCounted⟩
  rw [List.countP_eq_length_filter] at few
  -- One is counted at least, so exactly one is left by the filter.
  obtain ⟨item, only⟩ := List.length_eq_one_iff.mp
    (Nat.le_antisymm few (List.length_pos_of_mem first))
  rw [only, List.mem_singleton] at first second
  rw [first, second]

/-- Of distinct items of which only one can be counted, at most one is. -/
theorem countP_le_one_of_nodup (counted : α → Bool) {items : List α} (distinct : items.Nodup)
    (alike : ∀ one ∈ items, ∀ other ∈ items,
      counted one = true → counted other = true → one = other) :
    items.countP counted ≤ 1 := by
  rw [List.countP_eq_length_filter]
  have only := distinct.filter counted
  cases held : items.filter counted with
  | nil => exact Nat.zero_le 1
  | cons one rest =>
    cases rest with
    | nil => exact Nat.le_refl 1
    | cons other others =>
      -- The first two would be one item, which stands there twice.
      obtain ⟨here, oneCounted⟩ := List.mem_filter.mp (held ▸ List.mem_cons_self)
      obtain ⟨there, otherCounted⟩ :=
        List.mem_filter.mp (held ▸ List.mem_cons_of_mem one List.mem_cons_self)
      rw [held, alike one here other there oneCounted otherCounted] at only
      exact absurd List.mem_cons_self (List.nodup_cons.mp only).1

/-- Reading a list at each of its places gives the list. -/
theorem filterMap_range_getElem? (items : List α) :
    (List.range items.length).filterMap (items[·]?) = items := by
  -- The places are counted up, so the induction runs from the back.
  induction items using List.reverseRecOn with
  | nil => rfl
  | append_singleton before last ih =>
    have kept : (List.range before.length).filterMap ((before ++ [last])[·]?)
        = (List.range before.length).filterMap (before[·]?) :=
      List.filterMap_congr fun place member =>
        List.getElem?_append_left (List.mem_range.mp member)
    rw [List.length_append, List.length_singleton, List.range_succ, List.filterMap_append, kept, ih]
    simp

/-- Counting down begins with the highest number. -/
theorem foldl_reverse_range_succ (f : α → Nat → α) (start : α) (count : Nat) :
    (List.range (count + 1)).reverse.foldl f start =
      (List.range count).reverse.foldl f (f start count) := by
  rw [List.range_succ, List.reverse_append, List.reverse_singleton, List.singleton_append,
    List.foldl_cons]

/-- Partners of partners are partners. -/
theorem forall₂_trans {R : α → β → Prop} {S : β → γ → Prop} {T : α → γ → Prop}
    (both : ∀ a b c, R a b → S b c → T a c) {left : List α} {middle : List β} {right : List γ}
    (first : List.Forall₂ R left middle) (second : List.Forall₂ S middle right) :
    List.Forall₂ T left right := by
  induction first generalizing right with
  | nil =>
    cases second
    exact .nil
  | cons one _ ih =>
    cases second with
    | cons other others => exact .cons (both _ _ _ one other) (ih others)

/-- A rearrangement of what is made of items is made of a rearrangement of the items. -/
theorem exists_perm_of_perm_map {f : α → β} {items : List α} {images : List β}
    (perm : images.Perm (items.map f)) :
    ∃ others : List α, others.Perm items ∧ images = others.map f := by
  have partners : List.Forall₂ (fun image item => image = f item) (items.map f) items :=
    List.forall₂_map_left_iff.mpr (List.forall₂_same.mpr fun _ _ => rfl)
  -- Rearranging the images moves their partners along.
  obtain ⟨others, partners, permuted⟩ := List.perm_comp_forall₂ perm partners
  rw [← List.forall₂_map_right_iff, List.forall₂_eq_eq_eq] at partners
  exact ⟨others, permuted, partners⟩

/-- Lists of the same length in which the items of each place are partners. -/
theorem forall₂_of_getElem? {rows : Array α} {records : List β} {R : α → β → Prop}
    (size : rows.size = records.length)
    (each : ∀ (slot : Nat) record, records[slot]? = some record →
      ∃ row, rows[slot]? = some row ∧ R row record) :
    List.Forall₂ R rows.toList records := by
  rw [List.forall₂_iff_get]
  refine ⟨by rw [Array.length_toList, size], fun slot inRows inRecords => ?_⟩
  obtain ⟨row, held, related⟩ := each slot _ (List.getElem?_eq_getElem inRecords)
  obtain ⟨_, rfl⟩ := Array.getElem?_eq_some_iff.mp held
  exact related

/-- What stands in the left list has a partner in the right one. -/
theorem exists_mem_of_forall₂ {R : α → β → Prop} {left : List α} {right : List β}
    (related : List.Forall₂ R left right) {one : α} (member : one ∈ left) :
    ∃ other ∈ right, R one other := by
  induction related with
  | nil => cases member
  | cons first _ ih =>
    rcases List.mem_cons.mp member with rfl | later
    · exact ⟨_, List.mem_cons_self, first⟩
    · obtain ⟨other, held, same⟩ := ih later
      exact ⟨other, List.mem_cons_of_mem _ held, same⟩

/-- Partners that are judged the same give the same first judgement. -/
theorem findSome?_eq_of_forall₂ {f : α → Option γ} {g : β → Option γ}
    {left : List α} {right : List β}
    (related : List.Forall₂ (fun one other => f one = g other) left right) :
    left.findSome? f = right.findSome? g := by
  induction related with
  | nil => rfl
  | cons same _ ih => rw [List.findSome?_cons, List.findSome?_cons, same, ih]

/-- A key is found when there is a pair of it. -/
theorem lookup_isSome_iff [BEq α] [LawfulBEq α] {pairs : List (α × β)} {key : α} :
    (pairs.lookup key).isSome ↔ key ∈ pairs.map (·.1) := by
  rw [List.lookup_isSome_iff, List.mem_map]
  refine exists_congr fun pair => and_congr_right fun _ => ?_
  rw [beq_iff_eq, eq_comm]

/-- In a list with different keys, a pair is what is looked up under its key. -/
theorem lookup_eq_some_iff [BEq α] [LawfulBEq α] {pairs : List (α × β)}
    (keys : (pairs.map (·.1)).Nodup) {key : α} {value : β} :
    pairs.lookup key = some value ↔ (key, value) ∈ pairs := by
  induction pairs with
  | nil => simp
  | cons first rest ih =>
    obtain ⟨other, held⟩ := first
    rw [List.map_cons, List.nodup_cons] at keys
    by_cases same : key = other
    · subst same
      -- No later pair has the key of the first one.
      have absent : (key, value) ∉ rest := fun later =>
        keys.1 (List.mem_map.mpr ⟨(key, value), later, rfl⟩)
      simp [absent, eq_comm]
    · have differs : (key == other) = false := by simpa using same
      rw [List.lookup_cons, differs]
      simpa [same] using ih keys.2

/-- Values that are read in the places of their keys are those that are looked up. -/
theorem map_eq_lookup [BEq α] [LawfulBEq α] {pairs : List (α × β)}
    (keys : (pairs.map (·.1)).Nodup) {place? : α → Option Nat} {read : Nat → β}
    (places : ∀ key place, place? key = some place ↔ (pairs.map (·.1))[place]? = some key)
    (reads : ∀ place key value, pairs[place]? = some (key, value) → read place = value) (key : α) :
    (place? key).map read = pairs.lookup key := by
  -- Both sides are told by a place in which the pair of the key stands.
  refine Option.ext fun value => ?_
  rw [Option.map_eq_some_iff, lookup_eq_some_iff keys, List.mem_iff_getElem?]
  refine exists_congr fun place => ?_
  rw [places, List.getElem?_map]
  constructor
  · intro found
    obtain ⟨standing, same⟩ := found
    obtain ⟨⟨other, held⟩, there, rfl⟩ := Option.map_eq_some_iff.mp standing
    rw [there, ← same, reads place other held there]
  · intro there
    exact ⟨by rw [there]; rfl, reads place key value there⟩

end HeapAtlas
