import HeapAtlas.Paths
import HeapAtlas.Proofs.Paths.Chain

/-! The search for all paths, level by level, without a bound on their number or a clock. -/

namespace HeapAtlas.PathSearch

/-- A search that is never cut short; visited objects, kept trails and paths stand latest first. -/
structure Wave where
  visited : List Slot
  next : List Trail
  paths : List RootPath

/-- The references that are followed back from the trails of a level, in order. -/
def stepsFrom (graph : HeapGraph) (maxDepth depth : Nat) (trails : List Trail) :
    List (Trail × InEdge) :=
  if depth < maxDepth then
    trails.flatMap fun trail => (graph.inEdges trail.head).map fun arrival => (trail, arrival)
  else []

/-- The path that a step back to a root makes. -/
def pathOf (step : Trail × InEdge) : RootPath := (step.1.extend step.2).toPath

namespace Wave

/-- Follows one reference back: to a path where a root is met, and else to a trail if it is new. -/
def follow (graph : HeapGraph) (maxDepth depth : Nat) (wave : Wave) (step : Trail × InEdge) :
    Wave :=
  -- A root ends a path each time it is met and is never marked.
  if graph.isRoot step.2.source then { wave with paths := pathOf step :: wave.paths }
  else if step.2.source ∈ wave.visited then wave
  else
    { wave with
      visited := step.2.source :: wave.visited
      next := if depth + 1 < maxDepth then step.1.extend step.2 :: wave.next else wave.next }

/-- Goes through a level and holds the trails of the next one. -/
def pass (graph : HeapGraph) (maxDepth depth : Nat) (trails : List Trail) (wave : Wave) : Wave :=
  (stepsFrom graph maxDepth depth trails).foldl (follow graph maxDepth depth)
    { wave with next := [] }

/-- Goes through level after level. -/
def advance (graph : HeapGraph) (maxDepth : Nat) :
    (levels : Nat) → (depth : Nat) → List Trail → Wave → Wave
  | 0, _, _, wave => wave
  | levels + 1, depth, trails, wave =>
    if trails.isEmpty then wave
    else
      let wave := wave.pass graph maxDepth depth trails
      advance graph maxDepth levels (depth + 1) wave.next.reverse wave

end Wave

variable {graph : HeapGraph} {maxDepth depth : Nat} {trails : List Trail} {wave : Wave}

/-- Steps go back from the trails of a level, unless it is the last one. -/
theorem mem_stepsFrom {step : Trail × InEdge} :
    step ∈ stepsFrom graph maxDepth depth trails ↔
      depth < maxDepth ∧ step.1 ∈ trails ∧ step.2 ∈ graph.inEdges step.1.head := by
  unfold stepsFrom
  -- At the last level there are no steps, whatever arrives.
  split
  · rename_i near
    simp only [List.mem_flatMap, List.mem_map, near, true_and]
    constructor
    · intro listed
      obtain ⟨trail, among, arrival, arrives, rfl⟩ := listed
      exact ⟨among, arrives⟩
    · intro held
      exact ⟨step.1, held.1, step.2, held.2, rfl⟩
  · rename_i far
    simp [far]

/-- The path of a step ends with the reference that the step went back over. -/
@[simp] theorem getLast?_edges_pathOf (step : Trail × InEdge) :
    (pathOf step).edges.getLast? = some step.2.edge := by
  simp [pathOf, Trail.toPath, Trail.extend]

namespace Wave

/-- Every step back to a root makes a path, and no other step does. -/
theorem paths_foldl (steps : List (Trail × InEdge)) (wave : Wave) :
    (steps.foldl (follow graph maxDepth depth) wave).paths =
      ((steps.filter fun step => graph.isRoot step.2.source).map pathOf).reverse ++
        wave.paths := by
  induction steps generalizing wave with
  | nil => simp
  | cons step rest ih =>
    rw [List.foldl_cons, ih]
    -- Later paths are put in front, so the list comes out reversed.
    cases isRoot : graph.isRoot step.2.source with
    | true => simp [follow, isRoot]
    | false => by_cases known : step.2.source ∈ wave.visited <;> simp [follow, isRoot, known]

/-- The paths of a level are added to those found before. -/
theorem paths_pass (trails : List Trail) (wave : Wave) :
    (wave.pass graph maxDepth depth trails).paths =
      (((stepsFrom graph maxDepth depth trails).filter fun step =>
        graph.isRoot step.2.source).map pathOf).reverse ++ wave.paths :=
  paths_foldl _ _

/-- What is known of a wave after it took some steps. -/
structure Took (graph : HeapGraph) (maxDepth depth : Nat) (wave : Wave)
    (steps : List (Trail × InEdge)) (after : Wave) : Prop where
  visited : ∀ node, node ∈ after.visited ↔ node ∈ wave.visited ∨
    ∃ step ∈ steps, step.2.source = node ∧ graph.isRoot node = false
  /-- Trails that are kept were there before or lead on to an object that was not yet visited. -/
  kept : ∀ trail ∈ after.next, trail ∈ wave.next ∨ ∃ step ∈ steps,
    trail = step.1.extend step.2 ∧ graph.isRoot step.2.source = false ∧
      step.2.source ∉ wave.visited
  before : ∀ trail ∈ wave.next, trail ∈ after.next
  reached : depth + 1 < maxDepth → ∀ step ∈ steps, graph.isRoot step.2.source = false →
    step.2.source ∉ wave.visited → ∃ trail ∈ after.next, trail.head = step.2.source
  apart : (after.next.map (·.head)).Nodup
  seen : ∀ trail ∈ after.next, trail.head ∈ after.visited

/-- A step to a root or to a visited object changes nothing but perhaps the paths. -/
theorem took_idle (apart : (wave.next.map (·.head)).Nodup)
    (seen : ∀ trail ∈ wave.next, trail.head ∈ wave.visited) {step : Trail × InEdge} {after : Wave}
    (idle : graph.isRoot step.2.source = false → step.2.source ∈ wave.visited)
    (visited : after.visited = wave.visited) (next : after.next = wave.next) :
    Took graph maxDepth depth wave [step] after := by
  -- Neither the visited objects nor the trails are changed by such a step.
  refine ⟨fun node => ?_, ?_, ?_, ?_, next ▸ apart, next ▸ visited ▸ seen⟩
  · rw [visited]
    simp only [List.mem_singleton, exists_eq_left]
    constructor
    · exact fun held => .inl held
    · intro held
      rcases held with before | ⟨rfl, inner⟩
      · exact before
      · exact idle inner
  · exact fun trail held => .inl (next ▸ held)
  · exact fun trail held => next ▸ held
  · intro _ other member inner fresh
    cases List.mem_singleton.mp member
    exact absurd (idle inner) fresh

/-- A step to an object that is no root and was not visited visits it and keeps its trail. -/
theorem took_new (apart : (wave.next.map (·.head)).Nodup)
    (seen : ∀ trail ∈ wave.next, trail.head ∈ wave.visited) {step : Trail × InEdge} {after : Wave}
    (inner : graph.isRoot step.2.source = false) (fresh : step.2.source ∉ wave.visited)
    (visited : after.visited = step.2.source :: wave.visited)
    (next : after.next =
      if depth + 1 < maxDepth then step.1.extend step.2 :: wave.next else wave.next) :
    Took graph maxDepth depth wave [step] after := by
  refine ⟨fun node => ?_, ?_, ?_, ?_, ?_, ?_⟩
  · rw [visited, List.mem_cons]
    simp only [List.mem_singleton, exists_eq_left]
    constructor
    · intro held
      rcases held with rfl | before
      · exact .inr ⟨rfl, inner⟩
      · exact .inl before
    · intro held
      rcases held with before | ⟨rfl, _⟩
      · exact .inr before
      · exact .inl rfl
  · intro trail held
    rw [next] at held
    split at held
    · rcases List.mem_cons.mp held with rfl | old
      · exact .inr ⟨step, List.mem_singleton_self _, rfl, inner, fresh⟩
      · exact .inl old
    · exact .inl held
  · intro trail held
    rw [next]
    split
    · exact List.mem_cons_of_mem _ held
    · exact held
  · intro near other member _ _
    cases List.mem_singleton.mp member
    rw [next, if_pos near]
    exact ⟨_, List.mem_cons_self, rfl⟩
  · rw [next]
    split
    · -- All trails that are held lead to visited objects, and the new one does not.
      rw [List.map_cons, List.nodup_cons]
      refine ⟨fun twice => ?_, apart⟩
      obtain ⟨trail, held, same⟩ := List.mem_map.mp twice
      have old := seen trail held
      rw [same] at old
      exact fresh old
    · exact apart
  · intro trail held
    rw [next] at held
    rw [visited]
    split at held
    · rcases List.mem_cons.mp held with rfl | old
      · exact List.mem_cons_self
      · exact List.mem_cons_of_mem _ (seen trail old)
    · exact List.mem_cons_of_mem _ (seen trail held)

/-- One step visits the object it leads to and keeps a trail to it if it is new. -/
theorem took_follow (apart : (wave.next.map (·.head)).Nodup)
    (seen : ∀ trail ∈ wave.next, trail.head ∈ wave.visited) (step : Trail × InEdge) :
    Took graph maxDepth depth wave [step] (wave.follow graph maxDepth depth step) := by
  -- A step that ends at a root or at a visited object leaves visits and trails alone.
  cases inner : graph.isRoot step.2.source with
  | true => apply took_idle apart seen <;> simp [follow, inner]
  | false =>
    by_cases known : step.2.source ∈ wave.visited
    · apply took_idle apart seen <;> simp [follow, inner, known]
    · apply took_new apart seen inner known <;> simp [follow, inner, known]

/-- What is known after one step and then others is known after all of them. -/
theorem took_foldl (apart : (wave.next.map (·.head)).Nodup)
    (seen : ∀ trail ∈ wave.next, trail.head ∈ wave.visited) (steps : List (Trail × InEdge)) :
    Took graph maxDepth depth wave steps (steps.foldl (follow graph maxDepth depth) wave) := by
  induction steps generalizing wave with
  | nil =>
    exact ⟨by simp, fun trail held => .inl held, fun trail held => held, by simp, apart, seen⟩
  | cons step rest ih =>
    have first : Took graph maxDepth depth wave [step] (wave.follow graph maxDepth depth step) :=
      took_follow apart seen step
    have others := ih first.apart first.seen
    rw [List.foldl_cons]
    refine ⟨fun node => ?_, ?_, ?_, ?_, others.apart, others.seen⟩
    · rw [others.visited, first.visited]
      simp only [List.mem_cons, exists_eq_or_imp, List.not_mem_nil, false_and, exists_false,
        false_or, or_assoc]
    · intro trail held
      rcases others.kept trail held with early | ⟨later, member, equal, inner, fresh⟩
      · rcases first.kept trail early with before | ⟨only, member, kept⟩
        · exact .inl before
        · cases List.mem_singleton.mp member
          exact .inr ⟨step, List.mem_cons_self, kept⟩
      · -- What is not visited after the first step was not visited before it either.
        refine .inr ⟨later, List.mem_cons_of_mem _ member, equal, inner, fun known => ?_⟩
        exact fresh ((first.visited _).mpr (.inl known))
    · exact fun trail held => others.before trail (first.before trail held)
    · intro near other member inner fresh
      rcases List.mem_cons.mp member with rfl | later
      · obtain ⟨trail, held, head⟩ :=
          first.reached near other (List.mem_singleton_self _) inner fresh
        exact ⟨trail, others.before trail held, head⟩
      · by_cases known : other.2.source ∈ (wave.follow graph maxDepth depth step).visited
        · -- The first step led to the same object and has kept a trail to it.
          rcases (first.visited _).mp known with before | ⟨only, alone, same, _⟩
          · exact absurd before fresh
          · cases List.mem_singleton.mp alone
            obtain ⟨trail, held, head⟩ := first.reached near step (List.mem_singleton_self _)
              (same ▸ inner) (same ▸ fresh)
            exact ⟨trail, others.before trail held, head.trans same⟩
        · exact others.reached near other later inner known

/-- A level begins without kept trails, so that its steps tell all that is known after it. -/
theorem took_pass (trails : List Trail) (wave : Wave) :
    Took graph maxDepth depth { wave with next := [] } (stepsFrom graph maxDepth depth trails)
      (wave.pass graph maxDepth depth trails) := by
  -- Without kept trails there is nothing to hold apart or to have been seen.
  apply took_foldl
  · exact List.nodup_nil
  · intro trail held
    cases held

end Wave

end HeapAtlas.PathSearch
