import Mathlib.Data.List.Sort
import HeapAtlas.Proofs.Categorize.Memo
import HeapAtlas.Proofs.Ranking.Timed
import HeapAtlas.Proofs.Sorting

/-! Class names by the totals of their instances: one list, however the heap was scanned. -/

namespace HeapAtlas.RankingIndex

/-- Adds the totals of a class to those of its name, unless it has no instances. -/
def addClass (index : RankingIndex) (graph : HeapGraph) (totals : Std.TreeMap String ClassSummary)
    (classSlot : Slot) : Std.TreeMap String ClassSummary :=
  let summary := index.summary classSlot
  if summary.instances = 0 then totals
  else
    let name := graph.className classSlot
    totals.insert name ((totals.getD name .zero).add summary)

/-- One class name stands before another: its total is larger, or as large with the smaller name. -/
def Leads (key : SortKey) (one other : ClassRanking) : Prop :=
  other.summary.total key < one.summary.total key ∨
    one.summary.total key = other.summary.total key ∧ one.name < other.name

variable {graph : HeapGraph} {sizes : RetainedSizes}

section Totals

/-- What the classes of a name have among some classes. -/
def ofName (graph : HeapGraph) (instancesOf : Slot → List Slot) (name : String)
    (classSlots : List Slot) : List Slot :=
  (classSlots.filter (graph.className · = name)).flatMap instancesOf

/-- One more class adds to what the classes of its own name have. -/
theorem ofName_append_singleton (graph : HeapGraph) (instancesOf : Slot → List Slot)
    (name : String) (classSlots : List Slot) (last : Slot) :
    ofName graph instancesOf name (classSlots ++ [last]) =
      ofName graph instancesOf name classSlots ++
        if graph.className last = name then instancesOf last else [] := by
  rw [ofName, ofName, List.filter_append, List.flatMap_append]
  -- A class of another name is filtered out and adds nothing.
  by_cases same : graph.className last = name <;> simp [same]

/-- Added up class by class, every name has the totals of the instances of its classes, if there are
any. -/
theorem getElem?_foldl_addClass (index : RankingIndex) (instancesOf : Slot → List Slot)
    (classSlots : List Slot)
    (right : ∀ classSlot ∈ classSlots,
      index.summary classSlot = totalsOf graph sizes (instancesOf classSlot)) (name : String) :
    (classSlots.foldl (index.addClass graph) ∅)[name]? =
      if ofName graph instancesOf name classSlots = [] then none
      else some (totalsOf graph sizes (ofName graph instancesOf name classSlots)) := by
  -- The induction is on the classes, the last of which adds to the totals of its own name.
  induction classSlots using List.reverseRecOn with
  | nil => simp [ofName]
  | append_singleton classSlots last ih =>
    have before := ih fun classSlot member => right classSlot (List.mem_append_left _ member)
    have ofLast := right last (List.mem_append_right _ List.mem_cons_self)
    have sumBefore : (classSlots.foldl (index.addClass graph) ∅).getD name .zero =
        totalsOf graph sizes (ofName graph instancesOf name classSlots) := by
      rw [Std.TreeMap.getD_eq_getD_getElem?, before]
      split
      · rename_i none_
        rw [none_]
        rfl
      · rfl
    rw [List.foldl_append, List.foldl_cons, List.foldl_nil, ofName_append_singleton, addClass]
    dsimp only
    rw [ofLast]
    by_cases empty : instancesOf last = []
    · -- A class without instances is left out, and adds none.
      rw [if_pos ((instances_totalsOf_eq_zero_iff graph sizes).mpr empty), before, empty, ite_self,
        List.append_nil]
    · rw [if_neg (mt (instances_totalsOf_eq_zero_iff graph sizes).mp empty),
        Std.TreeMap.getElem?_insert]
      by_cases same : graph.className last = name
      · subst same
        rw [if_pos Std.ReflOrd.compare_self, sumBefore, add_totalsOf, if_pos rfl,
          if_neg (by simp [empty])]
      · rw [if_neg (mt Std.LawfulEqOrd.eq_of_compare same), before, if_neg same, List.append_nil]

/-- The totals are listed by name in ascending order, each name once. -/
theorem totalsByName_ascends (index : RankingIndex) (graph : HeapGraph) :
    (index.totalsByName graph).Pairwise fun one other => one.1 < other.1 := by
  refine Std.TreeMap.ordered_keys_toList.imp fun less => ?_
  exact compareOfLessAndEq_eq_lt.mp less

/-- An index lists the names that have instances among its objects, each with their totals. -/
theorem mem_totalsByName_iff (made : graph.Made) {index : RankingIndex} {slots : List Slot}
    (covers : Covers graph sizes index slots) (within : ∀ slot ∈ slots, slot < graph.objectCount)
    (name : String) (summary : ClassSummary) :
    (name, summary) ∈ index.totalsByName graph ↔
      instancesOfName graph name slots ≠ [] ∧
        summary = totalsOf graph sizes (instancesOfName graph name slots) := by
  have held := getElem?_foldl_addClass index (fun classSlot => instancesAmong graph classSlot slots)
    (List.range graph.classCount)
    (fun classSlot member => covers.summary_eq classSlot (List.mem_range.mp member)) name
  -- The instances of the classes of a name are the instances of that name.
  have perm : (ofName graph (fun classSlot => instancesAmong graph classSlot slots) name
      (List.range graph.classCount)).Perm (instancesOfName graph name slots) :=
    instances_perm made within name
  show _ ∈ Std.TreeMap.toList (List.foldl (addClass _ graph) ∅ (List.range _)) ↔ _
  rw [Std.TreeMap.mem_toList_iff_getElem?_eq_some, covers.size_classes, held,
    totalsOf_perm graph sizes perm, Option.ite_none_left_eq_some, Option.some.injEq,
    ← List.length_eq_zero_iff, perm.length_eq, List.length_eq_zero_iff]
  exact and_congr Iff.rfl eq_comm

end Totals

/-- No class name stands before itself. -/
instance (key : SortKey) : Std.Irrefl (Leads key) where
  irrefl entry before := by
    rcases before with larger | ⟨_, less⟩
    · exact Nat.lt_irrefl _ larger
    · exact String.lt_irrefl _ less

/-- Of two class names only one stands before the other. -/
instance (key : SortKey) : Std.Antisymm (Leads key) where
  antisymm one other before after := by
    rcases before with larger | ⟨same, less⟩ <;> rcases after with smaller | ⟨_, more⟩
    · omega
    · omega
    · omega
    · exact absurd more (String.lt_asymm less)

variable {κ : Type} [Categorizer κ]

variable (graph sizes) in
/-- An entry for a class name that has instances and a kept category, with the totals of its
instances. -/
structure Lists (categorizer : κ) (filter : CategoryFilter) (entry : ClassRanking) : Prop where
  instances : instancesNamed graph entry.name ≠ []
  category : entry.category = (Categorizer.categorize categorizer entry.name).1
  kept : filter.allows entry.category = true
  summary : entry.summary = totalsOf graph sizes (instancesNamed graph entry.name)

/-- There is one entry for a class name. -/
theorem Lists.unique {categorizer : κ} {filter : CategoryFilter} {one other : ClassRanking}
    (first : Lists graph sizes categorizer filter one)
    (second : Lists graph sizes categorizer filter other) (same : one.name = other.name) :
    one = other := by
  -- Category and totals are told by the name alone.
  have categories : one.category = other.category := by
    rw [first.category, second.category, same]
  have summaries : one.summary = other.summary := by
    rw [first.summary, second.summary, same]
  cases one
  cases other
  simp_all only

/-- A complete index answers with the beginning of a list of all entries, in their order. -/
theorem exists_topClasses_whole (made : graph.Made) (sizes : RetainedSizes) (categorizer : κ)
    (key : SortKey) (filter : CategoryFilter) (options : IndexOptions) :
    ∃ ranking : List ClassRanking, ranking.Pairwise (Leads key) ∧
      (∀ entry, entry ∈ ranking ↔ Lists graph sizes categorizer filter entry) ∧
      ∀ topN, ((whole graph sizes options).topClasses graph categorizer topN key filter).1 =
        ranking.take topN := by
  have listed := mem_totalsByName_iff made (covers_whole graph sizes options)
    fun slot => List.mem_range.mp
  have ascends := totalsByName_ascends (whole graph sizes options) graph
  generalize whole graph sizes options = index at listed ascends ⊢
  let entryOf : String × ClassSummary → ClassRanking := fun total =>
    ⟨total.1, (Categorizer.categorize categorizer total.1).1, total.2⟩
  let kept := ((index.totalsByName graph).map entryOf).filter fun entry =>
    filter.allows entry.category
  refine ⟨kept.mergeSort fun one other => other.summary.total key ≤ one.summary.total key,
    ?_, fun entry => ?_, fun topN => ?_⟩
  · -- Entries are sorted by their totals, and those of equal totals stay in the order of names.
    have byName : kept.Pairwise fun one other => one.name < other.name := by
      refine List.Pairwise.filter _ (List.pairwise_map.mpr ?_)
      exact ascends
    -- The larger total comes first, so totals are compared the other way round.
    exact pairwise_mergeSort_key
      (fun entry : ClassRanking => OrderDual.toDual (entry.summary.total key)) byName
  · rw [List.mem_mergeSort, List.mem_filter, List.mem_map]
    constructor
    · rintro ⟨⟨⟨name, summary⟩, member, rfl⟩, allowed⟩
      obtain ⟨instances, same⟩ := (listed name summary).mp member
      exact ⟨instances, rfl, allowed, same⟩
    · intro entered
      refine ⟨⟨(entry.name, entry.summary), (listed _ _).mpr
        ⟨entered.instances, entered.summary⟩, ?_⟩, entered.kept⟩
      show ClassRanking.mk _ _ _ = entry
      rw [← entered.category]
  · rw [topClasses]
    dsimp only
    rw [categorized_fst]

/--
Of the class names with instances and a kept category there is one list, by their totals, and a
complete index answers with its beginning, whatever tells the categories, and whatever the chunks
and the workers were.
-/
theorem topClasses_eq_ranking (made : graph.Made) (sizes : RetainedSizes) (categorizer : κ)
    (key : SortKey) (filter : CategoryFilter) :
    ∃ ranking : List ClassRanking,
      (∀ entry, entry ∈ ranking ↔ Lists graph sizes categorizer filter entry) ∧
      (ranking.map (·.name)).Nodup ∧ ranking.Pairwise (Leads key) ∧
      ∀ (options : IndexOptions) (deadline : Deadline) (now : Instant) (topN : Nat),
        (build graph sizes options deadline now).complete = true →
          ((build graph sizes options deadline now).value.topClasses graph categorizer topN key
            filter).1 = ranking.take topN := by
  obtain ⟨ranking, ordered, members, _⟩ :=
    exists_topClasses_whole made sizes categorizer key filter ⟨0, 0, 0⟩
  refine ⟨ranking, members, ?_, ordered, fun options deadline now topN complete => ?_⟩
  · exact List.Nodup.map_on (fun one here other there same =>
      ((members one).mp here).unique ((members other).mp there) same) ordered.nodup
  · -- Any complete index ranks the same entries, so it ranks them in the same order.
    obtain ⟨others, othersOrdered, othersMembers, answers⟩ :=
      exists_topClasses_whole made sizes categorizer key filter options
    rw [build_of_complete graph sizes complete, answers,
      othersOrdered.eq_of_mem_iff ordered fun entry =>
        (othersMembers entry).trans (members entry).symm]

/-- In the circle the two classes of one name come to as much as the third class, whose name is
before theirs. -/
theorem circle_topClasses_eq_ranking :
    Columns.circle.resolved.Made ∧
      ∀ (sizes : RetainedSizes) (chunkSize workers : Nat) (now : Instant),
        ((build Columns.circle.resolved sizes ⟨1, chunkSize, workers⟩ .never now).value.topClasses
          Columns.circle.resolved (FixedCategory.mk .application) 9 .shallow .everything).1 =
        [⟨"Base", .application, totalsOf Columns.circle.resolved sizes [2]⟩,
          ⟨"Node", .application, totalsOf Columns.circle.resolved sizes [0, 1]⟩] := by
  refine ⟨HeapGraph.made_circle, fun sizes chunkSize workers now => ?_⟩
  obtain ⟨ranking, members, _, ordered, answers⟩ := topClasses_eq_ranking HeapGraph.made_circle
    sizes (FixedCategory.mk .application) .shallow .everything
  -- Two objects have classes of one name, and the third has the class of the other.
  have instances : ∀ name, instancesNamed Columns.circle.resolved name =
      if name = "Node" then [0, 1] else if name = "Base" then [2] else [] := by
    intro name
    have slots : List.range Columns.circle.resolved.objectCount = [0, 1, 2] := by decide +kernel
    have names : [0, 1, 2].map (fun slot => Columns.circle.resolved.className
        (Columns.circle.resolved.classOf slot)) = ["Node", "Node", "Base"] := by decide +kernel
    simp only [List.map_cons, List.map_nil, List.cons.injEq, and_true] at names
    rw [instancesNamed, slots, instancesOfName]
    by_cases node : name = "Node"
    · subst node
      simp [names]
    · by_cases base : name = "Base"
      · subst base
        simp [names]
      · simp [names, Ne.symm node, Ne.symm base, node, base]
  have allowed : CategoryFilter.everything.allows .application = true := by decide
  have expected : ranking = [⟨"Base", .application, totalsOf Columns.circle.resolved sizes [2]⟩,
      ⟨"Node", .application, totalsOf Columns.circle.resolved sizes [0, 1]⟩] := by
    have totals : min wordMax ([2].map Columns.circle.resolved.shallowSize).sum =
        min wordMax ([0, 1].map Columns.circle.resolved.shallowSize).sum := by decide +kernel
    have before : "Base" < "Node" := by decide +kernel
    have leads : Leads .shallow
        ⟨"Base", .application, totalsOf Columns.circle.resolved sizes [2]⟩
        ⟨"Node", .application, totalsOf Columns.circle.resolved sizes [0, 1]⟩ :=
      .inr ⟨totals, before⟩
    refine ordered.eq_of_mem_iff (List.pairwise_pair.mpr leads) fun entry =>
      (members entry).trans ?_
    have first : Lists Columns.circle.resolved sizes (FixedCategory.mk .application) .everything
        ⟨"Base", .application, totalsOf Columns.circle.resolved sizes [2]⟩ :=
      ⟨by simp [instances], rfl, allowed, by simp [instances]⟩
    have second : Lists Columns.circle.resolved sizes (FixedCategory.mk .application) .everything
        ⟨"Node", .application, totalsOf Columns.circle.resolved sizes [0, 1]⟩ :=
      ⟨by simp [instances], rfl, allowed, by simp [instances]⟩
    rw [List.mem_pair]
    constructor
    · intro listed
      by_cases node : entry.name = "Node"
      · exact .inr (listed.unique second node)
      · by_cases base : entry.name = "Base"
        · exact .inl (listed.unique first base)
        · exact absurd (by rw [instances, if_neg node, if_neg base]) listed.instances
    · rintro (rfl | rfl)
      · exact first
      · exact second
  rw [answers ⟨1, chunkSize, workers⟩ .never now 9 (by rw [build_never]), expected]
  rfl

end HeapAtlas.RankingIndex
