/-! The smallest keys of a stream, and the merge of ascending lists. -/

namespace HeapAtlas

/-- Keys in ascending order. -/
def ascending {κ : Type} [Ord κ] (keys : List κ) : List κ :=
  keys.mergeSort fun one other => (compare one other).isLE

/--
The smallest `limit` keys seen so far.

Keys are held as they come; only when there are more than twice as many as are wanted are they
sorted and cut back. So a key costs one sort in `limit`, however many are kept.
-/
structure TopK (κ : Type) where
  limit : Nat
  /-- Keys seen, all of the smallest among them. -/
  held : List κ
  /-- The number of keys held. -/
  count : Nat
  count_eq : count = held.length := by rfl
  deriving DecidableEq, Repr

namespace TopK

variable {κ : Type} [Ord κ]

/-- No keys seen. -/
def empty (limit : Nat) : TopK κ := ⟨limit, [], 0, rfl⟩

/-- Number of keys kept. -/
def size (top : TopK κ) : Nat := min top.count top.limit

/-- Whether no key is kept. -/
def isEmpty (top : TopK κ) : Bool := top.size = 0

/-- The kept keys, ascending. -/
def toSorted (top : TopK κ) : List κ := (ascending top.held).take top.limit

/-- Holds no more keys than are kept. -/
def cutBack (top : TopK κ) : TopK κ where
  limit := top.limit
  held := top.toSorted
  count := top.size
  count_eq := by
    -- Sorting keeps the number of keys, and taking cuts it off at the limit.
    simp [size, toSorted, ascending, top.count_eq, Nat.min_comm]

/-- Holds one more key. -/
def add (top : TopK κ) (key : κ) : TopK κ :=
  ⟨top.limit, key :: top.held, top.count + 1, congrArg (· + 1) top.count_eq⟩

/-- Offers a key, which is kept if there is room or if it is below the largest kept. -/
def push (top : TopK κ) (key : κ) : TopK κ :=
  let grown := top.add key
  -- Only at twice the limit are keys sorted, and then half of them go.
  if 2 * grown.limit < grown.count then grown.cutBack else grown

end TopK

/-- Merges neighbours; a last list without a neighbour stays as it is. -/
def mergeNeighbours {κ : Type} [Ord κ] : List (List κ) → List (List κ)
  | first :: second :: rest =>
    first.merge second (fun one other => (compare one other).isLE) :: mergeNeighbours rest
  | lists => lists

/-- At least two lists become fewer by a merge of neighbours. -/
theorem length_mergeNeighbours_le {κ : Type} [Ord κ] (lists : List (List κ)) :
    2 * (mergeNeighbours lists).length ≤ lists.length + 1 := by
  -- Two lists turn into one at every step.
  induction lists using mergeNeighbours.induct with
  | case1 first second rest ih => simp only [mergeNeighbours, List.length_cons]; omega
  | case2 lists single =>
    match lists with
    | [] => simp [mergeNeighbours]
    | [_] => simp [mergeNeighbours]
    | first :: second :: rest => exact (single first second rest rfl).elim

/-- Takes heads from lists until all are empty, always the least, of equal ones the earliest. -/
def mergeAll {κ : Type} [Ord κ] : List (List κ) → List κ
  | [] => []
  | [list] => list
  | first :: second :: rest => mergeAll (mergeNeighbours (first :: second :: rest))
termination_by lists => lists.length
decreasing_by
  have := length_mergeNeighbours_le (first :: second :: rest)
  simp only [List.length_cons] at this ⊢
  omega

/-- Takes heads from lists, always the least one, up to `limit` times. -/
def mergeSorted {κ : Type} [Ord κ] (limit : Nat) (lists : List (List κ)) : List κ :=
  (mergeAll lists).take limit

end HeapAtlas
