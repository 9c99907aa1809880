import Mathlib.Data.List.Induction
import HeapAtlas.Proofs.Graph.Lookup
import HeapAtlas.Proofs.Scan.TopK
import HeapAtlas.Ranking

/-! What a ranking finds of a class in some objects, and how the chunks' finds are dealt out. -/

namespace HeapAtlas

/-- Comparing sizes the other way is as good an order. -/
instance : Std.TransCmp fun one other : Ranked => compare other.size one.size where
  eq_swap := Std.OrientedCmp.eq_swap
  isLE_trans first second := Std.TransCmp.isLE_trans second first

/-- Ranked objects are compared by size, then by identifier, then by slot. -/
instance : Std.TransOrd Ranked :=
  inferInstanceAs (Std.TransCmp (compareLex (fun one other : Ranked => compare other.size one.size)
    (compareLex (compareOn (·.id)) (compareOn (·.slot)))))

/-- Ranked objects that compare equal are equal. -/
instance : Std.LawfulEqOrd Ranked where
  eq_of_compare {one other} same := by
    obtain ⟨sizes, ids, slots⟩ : compare other.size one.size = .eq ∧
        compare one.id other.id = .eq ∧ compare one.slot other.slot = .eq := by
      simpa only [compare, Ordering.then_eq_eq] using same
    have sameSize : other.size = one.size := Std.LawfulEqOrd.eq_of_compare sizes
    have sameId : one.id = other.id := Std.LawfulEqOrd.eq_of_compare ids
    have sameSlot : one.slot = other.slot := Std.LawfulEqOrd.eq_of_compare slots
    cases one; cases other; simp_all

/-- What was found of a class by one of the sizes. -/
def ClassPart.top (part : ClassPart) : SortKey → TopK Ranked
  | .shallow => part.byShallow
  | .retained => part.byRetained

namespace RankingIndex

/-- The size of an object that a ranking goes by. -/
def sizeBy (graph : HeapGraph) (sizes : RetainedSizes) : SortKey → Slot → Nat
  | .shallow => graph.shallowSize
  | .retained => sizes.retainedSize

/-- An object as it is ranked. -/
def rank (graph : HeapGraph) (sizes : RetainedSizes) (key : SortKey) (slot : Slot) : Ranked :=
  ⟨sizeBy graph sizes key slot, graph.objectId slot, slot⟩

/-- The instances of a class among some objects. -/
def instancesAmong (graph : HeapGraph) (classSlot : Slot) (slots : List Slot) : List Slot :=
  slots.filter (graph.classOf · = classSlot)

variable (graph : HeapGraph) (sizes : RetainedSizes)

/-- Taking instances into a part pushes them, as they are ranked. -/
theorem top_foldl_addInstance (part : ClassPart) (key : SortKey) (slots : List Slot) :
    (slots.foldl (addInstance graph sizes) part).top key =
      (slots.map (rank graph sizes key)).foldl TopK.push (part.top key) := by
  induction slots generalizing part with
  | nil => rfl
  | cons slot slots ih =>
    -- One instance is pushed into both lists, each time ranked by the list's own key.
    have pushed : (addInstance graph sizes part slot).top key =
        (part.top key).push (rank graph sizes key slot) := by
      cases key <;> rfl
    rw [List.foldl_cons, ih, pushed]
    rfl

/-- There is a part of every class with an instance, with all its instances taken into it. -/
theorem getElem?_partsOf (topK : Nat) (slots : List Slot) (classSlot : Slot) :
    (partsOf graph sizes topK slots)[classSlot]? =
      if instancesAmong graph classSlot slots = [] then none
      else some ((instancesAmong graph classSlot slots).foldl (addInstance graph sizes)
        (noPart topK)) := by
  -- The induction is on the objects, the last of which changes the part of its own class.
  induction slots using List.reverseRecOn with
  | nil => simp [partsOf, instancesAmong]
  | append_singleton slots slot ih =>
    have before : (partsOf graph sizes topK slots).getD classSlot (noPart topK) =
        (instancesAmong graph classSlot slots).foldl (addInstance graph sizes) (noPart topK) := by
      rw [Std.HashMap.getD_eq_getD_getElem?, ih]
      split
      · rename_i none
        rw [none]
        rfl
      · rfl
    have step : partsOf graph sizes topK (slots ++ [slot]) =
        (partsOf graph sizes topK slots).insert (graph.classOf slot) (addInstance graph sizes
          ((partsOf graph sizes topK slots).getD (graph.classOf slot) (noPart topK)) slot) := by
      rw [partsOf, List.foldl_append]
      rfl
    rw [step, Std.HashMap.getElem?_insert]
    unfold instancesAmong at before ih ⊢
    rw [List.filter_append]
    by_cases same : graph.classOf slot = classSlot
    · subst same
      rw [List.filter_cons_of_pos (by simp), List.filter_nil, List.foldl_append,
        if_pos (beq_self_eq_true _), if_neg (by simp), before]
      rfl
    · rw [List.filter_cons_of_neg (by simpa using same), List.filter_nil, List.append_nil,
        if_neg (by simpa using same), ih]

/-- Dealing out the parts of one chunk puts each before the others of its class. -/
theorem foldl_modify {α : Type} {pairs : List (Slot × α)} (distinct : (pairs.map (·.1)).Nodup)
    {classSlot : Slot} {held : Option α}
    (among : ∀ value, (classSlot, value) ∈ pairs ↔ held = some value)
    (gathered : Array (List α)) :
    (pairs.foldl (fun gathered pair => gathered.modify pair.1 (pair.2 :: ·)) gathered)[classSlot]? =
      gathered[classSlot]?.map (held.toList ++ ·) := by
  -- The induction is on the pairs, at most one of which is of the class.
  induction pairs generalizing held gathered with
  | nil =>
    cases held with
    | none => simp
    | some value => cases (among value).mpr rfl
  | cons pair pairs ih =>
    obtain ⟨other, value⟩ := pair
    obtain ⟨absent, others⟩ := List.nodup_cons.mp distinct
    rw [List.foldl_cons]
    by_cases same : other = classSlot
    · subst same
      obtain rfl := (among value).mp List.mem_cons_self
      have later : ∀ value, (other, value) ∈ pairs ↔ (none : Option α) = some value := by
        intro value
        refine iff_of_false (fun member => ?_) (by simp)
        exact absent (List.mem_map.mpr ⟨_, member, rfl⟩)
      rw [ih others later, Array.getElem?_modify, if_pos rfl, Option.map_map]
      rfl
    · have later : ∀ value, (classSlot, value) ∈ pairs ↔ held = some value := by
        intro value
        rw [← among, List.mem_cons]
        refine ⟨.inr, fun found => found.resolve_left fun equal => ?_⟩
        cases equal
        exact same rfl
      rw [ih others later, Array.getElem?_modify, if_neg same]

/-- Every class gets its parts from all chunks, in the order of the chunks. -/
theorem getElem?_gather {classCount : Nat} {classSlot : Slot} (within : classSlot < classCount)
    (chunks : List (Std.HashMap Slot ClassPart)) :
    (gather classCount chunks)[classSlot]? = some (chunks.filterMap (·[classSlot]?)) := by
  -- The chunks are dealt out from the last to the first, each in front of those behind it.
  induction chunks with
  | nil => simp [gather, within]
  | cons found chunks ih =>
    have distinct : (found.toList.map (·.1)).Nodup := by
      refine List.pairwise_map.mpr (Std.HashMap.distinct_keys_toList.imp fun differ => ?_)
      simpa using differ
    have step : gather classCount (found :: chunks) = found.toList.foldl
        (fun gathered pair => gathered.modify pair.1 (pair.2 :: ·)) (gather classCount chunks) :=
      Std.HashMap.fold_eq_foldl_toList
    rw [step, foldl_modify distinct (fun _ => Std.HashMap.mem_toList_iff_getElem?_eq_some), ih]
    cases held : found[classSlot]? with
    | none => simp [held]
    | some part => simp [held]

end RankingIndex

end HeapAtlas
