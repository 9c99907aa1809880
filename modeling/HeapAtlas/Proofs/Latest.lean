import Mathlib.Data.List.Dedup
import Mathlib.Data.List.Induction
import Mathlib.Data.List.Sort
import Std.Data.TreeMap
import HeapAtlas.Proofs.Lists

/-! Pairs put in one after another: of each key the last value counts. -/

namespace HeapAtlas

variable {κ ν : Type} [DecidableEq κ]

/-- The last value that was put in under a key. -/
def latest? (pairs : List (κ × ν)) (key : κ) : Option ν := pairs.reverse.lookup key

/-- A pair that comes last counts for its key and for no other. -/
theorem latest?_concat (pairs : List (κ × ν)) (last : κ × ν) (key : κ) :
    latest? (pairs ++ [last]) key = if last.1 = key then some last.2 else latest? pairs key := by
  -- The last pair is the first that a look-up from the back meets.
  rw [latest?, List.reverse_append, List.reverse_singleton, List.singleton_append,
    List.lookup_cons, latest?]
  by_cases same : last.1 = key
  · rw [if_pos same, same, beq_self_eq_true]
  · rw [if_neg same, beq_false_of_ne (Ne.symm same)]

variable [Ord κ]

/-- The keys under which something was put in, each once and in ascending order. -/
def ascendingKeys (pairs : List (κ × ν)) : List κ :=
  (pairs.map (·.1)).dedup.insertionSort fun one other => (compare one other).isLE

/-- The last value under each key, in ascending order of the keys. -/
def latest (pairs : List (κ × ν)) : List (κ × ν) :=
  (ascendingKeys pairs).filterMap fun key => (latest? pairs key).map fun value => (key, value)

/-- The keys are those that have a latest value. -/
theorem mem_ascendingKeys {pairs : List (κ × ν)} {key : κ} :
    key ∈ ascendingKeys pairs ↔ (latest? pairs key).isSome := by
  rw [ascendingKeys, List.mem_insertionSort, List.mem_dedup, latest?, lookup_isSome_iff,
    List.map_reverse, List.mem_reverse]

/-- Each key is listed once. -/
theorem nodup_ascendingKeys (pairs : List (κ × ν)) : (ascendingKeys pairs).Nodup :=
  (List.perm_insertionSort _ _).nodup_iff.mpr (List.nodup_dedup _)

/-- A pair is listed when its value is the latest of its key. -/
theorem mem_latest {pairs : List (κ × ν)} {key : κ} {value : ν} :
    (key, value) ∈ latest pairs ↔ latest? pairs key = some value := by
  rw [latest, List.mem_filterMap]
  constructor
  · intro listed
    obtain ⟨other, _, held⟩ := listed
    obtain ⟨found, counts, same⟩ := Option.map_eq_some_iff.mp held
    cases same
    exact counts
  · intro counts
    exact ⟨key, mem_ascendingKeys.mpr (by rw [counts]; rfl), by rw [counts]; rfl⟩

/-- Every key has a value that counts. -/
theorem map_fst_latest (pairs : List (κ × ν)) : (latest pairs).map (·.1) = ascendingKeys pairs := by
  -- A key is listed because some pair has it, and so it has a latest value.
  have kept : ∀ key ∈ ascendingKeys pairs,
      ((latest? pairs key).map fun value => (key, value)).map (·.1) = some key := by
    intro key member
    obtain ⟨value, counts⟩ := Option.isSome_iff_exists.mp (mem_ascendingKeys.mp member)
    rw [counts]
    rfl
  rw [latest, List.map_filterMap, List.filterMap_congr kept, List.filterMap_some]

/-- What is looked up among the values that count is the last one put in. -/
theorem lookup_latest (pairs : List (κ × ν)) (key : κ) :
    (latest pairs).lookup key = latest? pairs key := by
  have distinct : ((latest pairs).map (·.1)).Nodup := by
    rw [map_fst_latest]
    exact nodup_ascendingKeys pairs
  refine Option.ext fun value => ?_
  rw [lookup_eq_some_iff distinct, mem_latest]

variable [Std.TransOrd κ] [Std.LawfulEqOrd κ]

/-- The keys are listed from the least to the greatest. -/
theorem ascendingKeys_ascend (pairs : List (κ × ν)) :
    (ascendingKeys pairs).Pairwise fun one other => compare one other = .lt := by
  have total : Std.Total fun one other : κ => (compare one other).isLE = true := by
    refine ⟨fun one other => ?_⟩
    rw [Std.OrientedOrd.eq_swap (a := other)]
    cases compare one other <;> simp
  have transitive : IsTrans κ fun one other => (compare one other).isLE = true :=
    ⟨fun _ _ _ => Std.TransOrd.isLE_trans⟩
  have sorted : (ascendingKeys pairs).Pairwise fun one other => (compare one other).isLE :=
    List.pairwise_insertionSort _ _
  -- Keys that do not fall and differ ascend.
  refine (sorted.and (nodup_ascendingKeys pairs)).imp fun {one other} both => ?_
  cases order : compare one other with
  | lt => rfl
  | eq => exact absurd (Std.compare_eq_iff_eq.mp order) both.2
  | gt =>
    rw [order] at both
    cases both.1

/-- A map into which pairs were put holds the last value under each key. -/
theorem getElem?_foldl_insert (pairs : List (κ × ν)) (key : κ) :
    (pairs.foldl (fun map pair => map.insert pair.1 pair.2) (∅ : Std.TreeMap κ ν))[key]? =
      latest? pairs key := by
  -- The induction is from the end, as it is the last pair that counts.
  induction pairs using List.reverseRecOn with
  | nil => exact Std.TreeMap.getElem?_emptyc
  | append_singleton pairs last ih =>
    rw [List.foldl_concat, Std.TreeMap.getElem?_insert, latest?_concat, ih]
    simp only [Std.compare_eq_iff_eq]

/-- The values that count stand in ascending order of their keys. -/
theorem latest_ascend (pairs : List (κ × ν)) :
    (latest pairs).Pairwise fun one other => compare one.1 other.1 = .lt := by
  have ascend := ascendingKeys_ascend pairs
  rw [← map_fst_latest, List.pairwise_map] at ascend
  exact ascend

omit [DecidableEq κ] [Std.LawfulEqOrd κ] in
/-- Pairs in ascending order of their keys are the same once they have the same members. -/
theorem eq_of_ascends {one other : List (κ × ν)}
    (first : one.Pairwise fun a b => compare a.1 b.1 = .lt)
    (second : other.Pairwise fun a b => compare a.1 b.1 = .lt)
    (members : ∀ pair, pair ∈ one ↔ pair ∈ other) : one = other := by
  -- Lists that are sorted strictly are told by their members.
  have irreflexive : Std.Irrefl fun a b : κ × ν => compare a.1 b.1 = .lt := by
    refine ⟨fun pair less => ?_⟩
    rw [Std.ReflOrd.compare_self] at less
    cases less
  have antisymmetric : Std.Antisymm fun a b : κ × ν => compare a.1 b.1 = .lt := by
    refine ⟨fun a b less more => ?_⟩
    rw [Std.OrientedOrd.eq_swap, less] at more
    cases more
  exact List.Pairwise.eq_of_mem_iff first second members

/-- The same values count under all keys exactly when the same pairs are listed. -/
theorem latest_eq_iff {one other : List (κ × ν)} :
    latest one = latest other ↔ ∀ key, latest? one key = latest? other key := by
  constructor
  · intro same key
    rw [← lookup_latest, same, lookup_latest]
  · intro same
    -- Both lists ascend by distinct keys, so having the same members makes them equal.
    refine eq_of_ascends (latest_ascend one) (latest_ascend other) fun pair => ?_
    rw [mem_latest, mem_latest, same]

/-- A map lists the values that count in ascending order of their keys. -/
theorem toList_foldl_insert (pairs : List (κ × ν)) :
    (pairs.foldl (fun map pair => map.insert pair.1 pair.2) (∅ : Std.TreeMap κ ν)).toList =
      latest pairs := by
  -- Both lists ascend, so that they are the same once they have the same members.
  refine eq_of_ascends Std.TreeMap.ordered_keys_toList (latest_ascend pairs) fun pair => ?_
  rw [Std.TreeMap.mem_toList_iff_getElem?_eq_some, getElem?_foldl_insert, mem_latest]

end HeapAtlas
