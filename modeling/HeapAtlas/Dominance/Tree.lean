import HeapAtlas.Dominance.Postorder

/-!
Immediate dominators as the fixed point of meeting the dominators of predecessors.

Objects go by their postorder numbers, above which stands one more number for the super-root that
refers to every root.
-/

namespace HeapAtlas.Dominance

/-- For each number, the number that is held to dominate it immediately, if there is one yet. -/
abbrev Candidates := Array (Option Nat)

/--
Where the ways up from two numbers meet.

The lower of the two climbs; it fails where an entry is missing or does not lead up.
-/
def meet (candidates : Candidates) (first second : Nat) : Option Nat :=
  if first = second then some first
  -- The lower number cannot be on the way up from the higher, so it is the one that climbs.
  else if first < second then
    match _found : candidates[first]? with
    | some (some above) =>
      if _up : first < above then meet candidates above second else none
    | _ => none
  else
    match _found : candidates[second]? with
    | some (some above) =>
      if _up : second < above then meet candidates first above else none
    | _ => none
termination_by (candidates.size - first) + (candidates.size - second)
decreasing_by
  -- An entry exists only below the size, and the climb from it leads up.
  all_goals
    have := (Array.getElem?_eq_some_iff.1 _found).1
    omega

/-- Takes in a predecessor that has an entry. -/
def meetPredecessor (candidates : Candidates) (current : Option Nat) (predecessor : Nat) :
    Option Nat :=
  match candidates[predecessor]? with
  | some (some _) =>
    -- The first predecessor with an entry is taken as it is, and later ones are met with it.
    match current with
    | none => some predecessor
    | some current => meet candidates predecessor current
  -- Without an entry nothing is known of the predecessor, so it is passed over.
  | _ => current

/-- The dominator that the predecessors of an object and the roots now speak for. -/
def proposal (graph : HeapGraph) (order : Postorder) (candidates : Candidates) (number : Nat) :
    Option Nat :=
  let slot := order.slotAt number
  -- A root has the super-root for a predecessor, and that always has an entry.
  let start := if graph.isRoot slot then some order.size else none
  ((graph.inSources slot).filterMap order.number?).foldl (meetPredecessor candidates) start

/-- Brings one number's entry up to date. -/
def relax (graph : HeapGraph) (order : Postorder) (candidates : Candidates) (number : Nat) :
    Candidates :=
  match proposal graph order candidates number with
  | some dominator => candidates.setIfInBounds number (some dominator)
  -- Nobody speaks yet, so there is nothing to enter.
  | none => candidates

/-- Brings every entry up to date, parents before children. -/
def sweep (graph : HeapGraph) (order : Postorder) (candidates : Candidates) : Candidates :=
  -- Parents have higher numbers, so they come first when the numbers fall.
  (List.range order.size).reverse.foldl (relax graph order) candidates

/-- Sweeps until nothing changes, at most `rounds` times. -/
def settle (graph : HeapGraph) (order : Postorder) : (rounds : Nat) → Candidates → Candidates
  | 0, candidates => candidates
  | rounds + 1, candidates =>
    let swept := sweep graph order candidates
    -- A sweep that changes nothing is the last one that is needed.
    if swept = candidates then candidates else settle graph order rounds swept

/-- The entries to start from: only the super-root has one, itself. -/
def start (order : Postorder) : Candidates :=
  (Array.replicate order.size none).push (some order.size)

/-- Every round but the last moves an entry up, which each can do once for every number above. -/
def roundBound (order : Postorder) : Nat := (order.size + 1) * (order.size + 1) + 1

/-- The immediate dominators by number; the super-root's number is the number of objects. -/
def candidatesOf (graph : HeapGraph) (order : Postorder) : Candidates :=
  settle graph order (roundBound order) (start order)

end HeapAtlas.Dominance
