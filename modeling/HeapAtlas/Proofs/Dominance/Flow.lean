import Mathlib.Data.List.Nodup
import Mathlib.Tactic.ByContra
import HeapAtlas.Dominance.Retained

/-! Dominance by the paths of a flow graph: what stands on every way from the root to a node. -/

namespace HeapAtlas

namespace Flow

variable {α β : Type}

/-- A way from the root along the edges; the node that was reached last stands first. -/
inductive Path (flows : α → α → Prop) (root : α) : α → List α → Prop where
  | start : Path flows root root [root]
  | extend {node next : α} {nodes : List α} (path : Path flows root node nodes)
      (step : flows node next) : Path flows root next (next :: nodes)

/-- Some way leads to a node. -/
def Reaches (flows : α → α → Prop) (root node : α) : Prop := ∃ nodes, Path flows root node nodes

/-- A node stands on every way to another. -/
def Dominates (flows : α → α → Prop) (root above node : α) : Prop :=
  ∀ nodes, Path flows root node nodes → above ∈ nodes

/-- A node stands on every way to another, which is not itself. -/
def StrictlyDominates (flows : α → α → Prop) (root above node : α) : Prop :=
  above ≠ node ∧ Dominates flows root above node

/-- The strict dominator that all other strict dominators dominate. -/
def ImmediatelyDominates (flows : α → α → Prop) (root above node : α) : Prop :=
  StrictlyDominates flows root above node ∧
    ∀ other, other ≠ above → StrictlyDominates flows root other node →
      Dominates flows root other above

/-- The edges that are left when a node is deleted. -/
def without (flows : α → α → Prop) (deleted source target : α) : Prop :=
  flows source target ∧ source ≠ deleted ∧ target ≠ deleted

section Paths

variable {flows : α → α → Prop} {root node next above : α} {nodes : List α}

/-- A way begins with the node that it reaches. -/
theorem Path.exists_cons (path : Path flows root node nodes) : ∃ rest, nodes = node :: rest := by
  cases path with
  | start => exact ⟨[], rfl⟩
  | extend path step => exact ⟨_, rfl⟩

/-- What a way reaches stands on it. -/
theorem Path.mem (path : Path flows root node nodes) : node ∈ nodes := by
  obtain ⟨rest, rfl⟩ := path.exists_cons
  exact List.mem_cons_self

/-- Whatever stands on a way is reached by the first part of it. -/
theorem Path.exists_part (path : Path flows root node nodes) (stands : above ∈ nodes) :
    ∃ part, Path flows root above part ∧ part <:+ nodes := by
  -- The last node is reached by the whole way, any other by a part of the way before.
  induction path with
  | start =>
    cases List.mem_singleton.mp stands
    exact ⟨[root], .start, List.suffix_refl _⟩
  | extend path step ih =>
    rcases List.mem_cons.mp stands with rfl | earlier
    · exact ⟨_, path.extend step, List.suffix_refl _⟩
    · obtain ⟨part, reached, isPart⟩ := ih earlier
      exact ⟨part, reached, isPart.trans (List.suffix_cons _ _)⟩

/-- A way that passes no node twice takes nodes of any other to the same place. -/
theorem Path.exists_nodup (path : Path flows root node nodes) :
    ∃ direct, Path flows root node direct ∧ direct.Nodup ∧ direct ⊆ nodes := by
  -- The induction is on the way, and what is passed twice is cut off as it comes up.
  induction path with
  | start => exact ⟨[root], .start, List.nodup_singleton _, List.Subset.refl _⟩
  | @extend node next nodes path step ih =>
    obtain ⟨direct, reached, nodup, within⟩ := ih
    -- Where the next node was passed before, the way up to there is enough.
    by_cases passed : next ∈ direct
    · obtain ⟨part, sooner, isPart⟩ := reached.exists_part passed
      exact ⟨part, sooner, nodup.sublist isPart.sublist, fun other member =>
        List.mem_cons_of_mem _ (within (isPart.subset member))⟩
    · exact ⟨next :: direct, reached.extend step, List.nodup_cons.mpr ⟨passed, nodup⟩,
        List.cons_subset_cons _ within⟩

/-- What holds of the root and behind every edge holds all along a way. -/
theorem Path.forall_mem {holds : α → Prop} (path : Path flows root node nodes)
    (atRoot : holds root) (behind : ∀ {source target}, flows source target → holds target) :
    ∀ passed ∈ nodes, holds passed := by
  induction path with
  | start =>
    intro passed member
    exact List.mem_singleton.mp member ▸ atRoot
  | extend path step ih =>
    intro passed member
    -- The last node stands behind an edge, and the others on the way before.
    rcases List.mem_cons.mp member with rfl | earlier
    · exact behind step
    · exact ih passed earlier

/-- Edges lead on from what is reached. -/
theorem Reaches.step (reached : Reaches flows root node) (step : flows node next) :
    Reaches flows root next := by
  obtain ⟨nodes, path⟩ := reached
  exact ⟨_, path.extend step⟩

/-- Where a way avoids a node, it is still there when that node is deleted. -/
theorem reaches_without_iff {deleted : α} (kept : root ≠ deleted) :
    Reaches (without flows deleted) root node ↔
      ∃ nodes, Path flows root node nodes ∧ deleted ∉ nodes := by
  constructor
  · intro reached
    obtain ⟨nodes, path⟩ := reached
    refine ⟨nodes, ?_⟩
    -- No edge that is left leads to the deleted node.
    induction path with
    | start => exact ⟨.start, by simpa using kept.symm⟩
    | extend path step ih =>
      obtain ⟨before, avoided⟩ := ih
      refine ⟨before.extend step.1, fun member => ?_⟩
      rcases List.mem_cons.mp member with equal | earlier
      · exact step.2.2 equal.symm
      · exact avoided earlier
  · intro around
    obtain ⟨nodes, path, avoided⟩ := around
    refine ⟨nodes, ?_⟩
    -- Every edge of the way is between nodes that stand on it.
    induction path with
    | start => exact .start
    | extend path step ih =>
      rw [List.mem_cons, not_or] at avoided
      refine (ih avoided.2).extend ⟨step, ?_, Ne.symm avoided.1⟩
      intro same
      exact avoided.2 (same ▸ path.mem)

end Paths

section Dominance

variable {flows : α → α → Prop} {root node next above higher : α}

/-- Every node dominates itself. -/
theorem Dominates.refl : Dominates flows root node node := fun _ path => path.mem

/-- Every way begins at the root. -/
theorem dominates_root : Dominates flows root root node := by
  intro nodes path
  induction path with
  | start => exact List.mem_singleton_self _
  | extend path step ih => exact List.mem_cons_of_mem _ ih

/-- What dominates a dominator dominates what that dominates. -/
theorem Dominates.trans (upper : Dominates flows root higher above)
    (lower : Dominates flows root above node) : Dominates flows root higher node := by
  -- A way to the lower node passes the middle one, and up to there the upper one.
  intro nodes path
  obtain ⟨part, reached, isPart⟩ := path.exists_part (lower nodes path)
  exact isPart.subset (upper part reached)

/-- The dominators of what is reached are reached. -/
theorem Dominates.reaches (dominates : Dominates flows root above node)
    (reached : Reaches flows root node) : Reaches flows root above := by
  -- The first part of any way there ends at the dominator.
  obtain ⟨nodes, path⟩ := reached
  obtain ⟨part, sooner, _⟩ := path.exists_part (dominates nodes path)
  exact ⟨part, sooner⟩

/-- Only the root dominates the root. -/
theorem Dominates.eq_root (dominates : Dominates flows root above root) : above = root :=
  List.mem_singleton.mp (dominates _ .start)

/-- A strict dominator of a node dominates each node with an edge to it. -/
theorem StrictlyDominates.dominates_of_flows (dominates : StrictlyDominates flows root above next)
    (step : flows node next) : Dominates flows root above node := by
  -- The edge makes a longer way, where the dominator stands before the end.
  intro nodes path
  rcases List.mem_cons.mp (dominates.2 _ (path.extend step)) with equal | earlier
  · exact absurd equal dominates.1
  · exact earlier

/-- Two nodes that are reached do not dominate each other. -/
theorem Dominates.antisymm (reached : Reaches flows root node)
    (first : Dominates flows root above node) (second : Dominates flows root node above) :
    above = node := by
  by_contra different
  -- On a way to the one stands a shorter way to the other, and on that a shorter one to the first.
  have descent : ∀ size nodes, nodes.length ≤ size → ¬ Path flows root node nodes := by
    intro size
    induction size with
    | zero =>
      intro nodes short path
      obtain ⟨rest, rfl⟩ := path.exists_cons
      simp at short
    | succ size ih =>
      intro nodes short path
      obtain ⟨middle, toAbove, inNodes⟩ := path.exists_part (first nodes path)
      obtain ⟨part, toNode, inMiddle⟩ := toAbove.exists_part (second middle toAbove)
      refine ih part ?_ toNode
      -- Only if they were one node could the way to the other be as long.
      have shorter : middle.length < nodes.length := by
        refine Nat.lt_of_le_of_ne inNodes.length_le fun same => different ?_
        obtain ⟨_, beginsAbove⟩ := toAbove.exists_cons
        obtain ⟨_, beginsNode⟩ := path.exists_cons
        have equal := inNodes.eq_of_length same
        rw [beginsAbove, beginsNode] at equal
        exact (List.cons.inj equal).1
      have least := inMiddle.length_le
      omega
  obtain ⟨nodes, path⟩ := reached
  exact descent nodes.length nodes (Nat.le_refl _) path

/-- A node that is reached has at most one immediate dominator. -/
theorem ImmediatelyDominates.unique (reached : Reaches flows root node)
    (first : ImmediatelyDominates flows root above node)
    (second : ImmediatelyDominates flows root higher node) : above = higher := by
  -- Two different ones would dominate each other.
  by_contra different
  exact different (Dominates.antisymm (second.1.2.reaches reached)
    (second.2 above different first.1) (first.2 higher (Ne.symm different) second.1))

end Dominance

/-- A renaming of what is reached in one flow graph that makes it what is reached in another. -/
structure Renames (rename : α → β) (flows : α → α → Prop) (root : α) (flows' : β → β → Prop)
    (root' : β) : Prop where
  origin : rename root = root'
  forth : ∀ {source target}, flows source target → flows' (rename source) (rename target)
  back : ∀ {source target'}, Reaches flows root source → flows' (rename source) target' →
    ∃ target, rename target = target' ∧ flows source target
  injective : ∀ {first second}, Reaches flows root first → Reaches flows root second →
    rename first = rename second → first = second

namespace Renames

variable {rename : α → β} {flows : α → α → Prop} {root : α} {flows' : β → β → Prop} {root' : β}
  {above node : α} {node' : β}

/-- A renamed way is a way. -/
theorem path (renames : Renames rename flows root flows' root') {nodes : List α}
    (path : Path flows root node nodes) :
    Path flows' root' (rename node) (nodes.map rename) := by
  -- Edge by edge the new names stand behind one another.
  induction path with
  | start =>
    rw [List.map_singleton, renames.origin]
    exact .start
  | extend path step ih => exact ih.extend (renames.forth step)

/-- Every way is a renamed one. -/
theorem exists_path (renames : Renames rename flows root flows' root') {nodes' : List β}
    (path' : Path flows' root' node' nodes') :
    ∃ node nodes, rename node = node' ∧ nodes.map rename = nodes' ∧
      Path flows root node nodes := by
  induction path' with
  | start => exact ⟨root, [root], renames.origin, by simp [renames.origin], .start⟩
  | extend path' step' ih =>
    obtain ⟨node, nodes, rfl, rfl, path⟩ := ih
    -- The edge leads on from a renamed node that is reached, so it is renamed itself.
    obtain ⟨next, rfl, step⟩ := renames.back ⟨nodes, path⟩ step'
    exact ⟨next, next :: nodes, rfl, rfl, path.extend step⟩

/-- Whatever is reached is the new name of something that is. -/
theorem reaches_iff (renames : Renames rename flows root flows' root') :
    Reaches flows' root' node' ↔ ∃ node, rename node = node' ∧ Reaches flows root node := by
  constructor
  · intro reached'
    obtain ⟨nodes', path'⟩ := reached'
    obtain ⟨node, nodes, equal, _, path⟩ := renames.exists_path path'
    exact ⟨node, equal, nodes, path⟩
  · intro renamed
    obtain ⟨node, rfl, nodes, path⟩ := renamed
    exact ⟨_, renames.path path⟩

/-- Dominance goes with the new names. -/
theorem dominates_iff (renames : Renames rename flows root flows' root')
    (reachedAbove : Reaches flows root above) (reached : Reaches flows root node) :
    Dominates flows' root' (rename above) (rename node) ↔ Dominates flows root above node := by
  constructor
  · intro dominates nodes path
    -- The renamed way passes the new name, which no other node on the way has.
    obtain ⟨other, member, equal⟩ := List.mem_map.mp (dominates _ (renames.path path))
    obtain ⟨part, reachedOther, _⟩ := path.exists_part member
    rwa [← renames.injective ⟨part, reachedOther⟩ reachedAbove equal]
  · intro dominates nodes' path'
    -- The way is a renamed one, and that passes the dominator.
    obtain ⟨other, nodes, equal, rfl, path⟩ := renames.exists_path path'
    cases renames.injective ⟨nodes, path⟩ reached equal
    exact List.mem_map_of_mem (dominates nodes path)

/-- Strict dominance goes with the new names. -/
theorem strictlyDominates_iff (renames : Renames rename flows root flows' root')
    (reachedAbove : Reaches flows root above) (reached : Reaches flows root node) :
    StrictlyDominates flows' root' (rename above) (rename node) ↔
      StrictlyDominates flows root above node := by
  rw [StrictlyDominates, StrictlyDominates, renames.dominates_iff reachedAbove reached]
  -- Different nodes keep different names.
  refine and_congr_left fun _ => not_congr ⟨renames.injective reachedAbove reached, ?_⟩
  intro same
  rw [same]

/-- The immediate dominator goes with the new names. -/
theorem immediatelyDominates (renames : Renames rename flows root flows' root')
    (reached : Reaches flows root node) (immediate : ImmediatelyDominates flows root above node) :
    ImmediatelyDominates flows' root' (rename above) (rename node) := by
  have reachedAbove := immediate.1.2.reaches reached
  refine ⟨(renames.strictlyDominates_iff reachedAbove reached).mpr immediate.1, ?_⟩
  intro other' different strict'
  -- Every other dominator of the new name is reached, and so a new name itself.
  have reached' := renames.reaches_iff.mpr ⟨node, rfl, reached⟩
  obtain ⟨other, rfl, reachedOther⟩ := renames.reaches_iff.mp (strict'.2.reaches reached')
  refine (renames.dominates_iff reachedOther reachedAbove).mpr (immediate.2 other ?_ ?_)
  · intro same
    exact different (congrArg rename same)
  · exact (renames.strictlyDominates_iff reachedOther reached).mp strict'

end Renames

end Flow

namespace HeapGraph

/-- The super-root refers to every root, and objects refer along their resolved references. -/
inductive Flows (graph : HeapGraph) : Dominator → Dominator → Prop where
  | root {slot : Slot} {kind : RootKind} (root : (slot, kind) ∈ graph.roots) :
    graph.Flows .superRoot (.object slot)
  | reference {source target : Slot} (refers : target ∈ graph.referents source) :
    graph.Flows (.object source) (.object target)

/-- Whether references lead from a root to an object. -/
def Reached (graph : HeapGraph) (slot : Slot) : Prop :=
  Flow.Reaches graph.Flows .superRoot (.object slot)

/-- Whether references would lead from a root to an object if another object were deleted. -/
def ReachedWithout (graph : HeapGraph) (deleted slot : Slot) : Prop :=
  Flow.Reaches (Flow.without graph.Flows (.object deleted)) .superRoot (.object slot)

/-- An object is lost with another when it is reached, but only past the other. -/
theorem not_reachedWithout_iff {graph : HeapGraph} {deleted slot : Slot} :
    ¬ graph.ReachedWithout deleted slot ↔
      Flow.Dominates graph.Flows .superRoot (.object deleted) (.object slot) := by
  -- Nothing is left of the ways that pass the deleted object.
  rw [ReachedWithout, Flow.reaches_without_iff (by intro equal; cases equal)]
  constructor
  · intro none nodes path
    by_contra avoided
    exact none ⟨nodes, path, avoided⟩
  · intro dominates around
    obtain ⟨nodes, path, avoided⟩ := around
    exact avoided (dominates nodes path)

end HeapGraph

end HeapAtlas
