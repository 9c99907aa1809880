import HeapAtlas.Paths.Arena

/-! Links of an arena: they lead from a place back along a trail, and give its path. -/

namespace HeapAtlas.PathArena

open PathSearch

/-- The links of an arena lead from a place back along a trail. -/
inductive Traced (arena : Array Step) : Nat → Trail → Prop
  | first {position : Nat} {target : Slot} (held : arena[position]? = some (.ofTarget target)) :
      Traced arena position (.ofTarget target)
  | back {position parent : Nat} {trail : Trail} {arrival : InEdge}
      (traced : Traced arena parent trail) (earlier : parent < position)
      (held : arena[position]? = some (.back parent (.ofNat (trail.edges.length + 1)) arrival)) :
      Traced arena position (trail.extend arrival)

namespace Traced

variable {arena : Array Step} {position : Nat} {trail : Trail}

/-- At the place stands the object that the trail has come to, and how far away it is. -/
theorem exists_step (traced : Traced arena position trail) :
    ∃ step, arena[position]? = some step ∧ step.slot = trail.head ∧
      step.depth = .ofNat trail.edges.length := by
  cases traced with
  | first held => exact ⟨_, held, rfl, rfl⟩
  | back _ _ held => exact ⟨_, held, rfl, rfl⟩

/-- The place is one of the arena's. -/
theorem lt_size (traced : Traced arena position trail) : position < arena.size := by
  obtain ⟨step, held, _⟩ := traced.exists_step
  exact (Array.getElem?_eq_some_iff.mp held).1

/-- Links lead to earlier places, so a trail is no longer than the place is far from the start. -/
theorem length_le (traced : Traced arena position trail) : trail.edges.length ≤ position := by
  induction traced with
  | first held => exact Nat.zero_le _
  | back traced earlier held ih =>
    rw [Trail.extend, List.length_cons]
    omega

/-- Steps that are added behind change no trail. -/
theorem push (traced : Traced arena position trail) (step : Step) :
    Traced (arena.push step) position trail := by
  -- What stands at a place of the arena still stands there.
  have kept {place : Nat} {old : Step} (held : arena[place]? = some old) :
      (arena.push step)[place]? = some old := by
    have below := (Array.getElem?_eq_some_iff.mp held).1
    rw [Array.getElem?_push, if_neg (Nat.ne_of_lt below), held]
  induction traced with
  | first held => exact .first (kept held)
  | back _ earlier held ih => exact .back ih earlier (kept held)

/-- A step that is added behind a place leads on from its trail. -/
theorem extend (traced : Traced arena position trail) (arrival : InEdge) :
    Traced (arena.push (.back position (.ofNat (trail.edges.length + 1)) arrival)) arena.size
      (trail.extend arrival) := by
  refine .back (traced.push _) traced.lt_size ?_
  rw [Array.getElem?_push, if_pos rfl]

/-- Within the numbers that links can tell, following them gives the trail. -/
theorem trace?_eq (traced : Traced arena position trail) (small : arena.size ≤ noParent.toNat)
    {room : Nat} (enough : position < room) :
    trace? arena room position = some (trail.nodes, trail.edges) := by
  induction traced generalizing room with
  | first held =>
    obtain ⟨room, rfl⟩ := Nat.exists_eq_add_one_of_ne_zero (by omega : room ≠ 0)
    rw [trace?, held]
    rfl
  | @back position parent trail arrival traced earlier held ih =>
    obtain ⟨room, rfl⟩ := Nat.exists_eq_add_one_of_ne_zero (by omega : room ≠ 0)
    have below := traced.lt_size
    have link : (UInt32.ofNat parent).toNat = parent :=
      UInt32.toNat_ofNat_of_lt' (Nat.lt_of_lt_of_le below (Nat.le_of_lt
        (Nat.lt_of_le_of_lt small noParent.toNat_lt)))
    -- A link to a place of the arena is told from none.
    have linked : UInt32.ofNat parent ≠ noParent := by
      intro same
      rw [same] at link
      omega
    rw [trace?, held]
    simp only [Option.bind_eq_bind, Option.bind_some, Step.back]
    rw [if_neg linked, link, ih (by omega)]
    rfl

/-- A trail to a root is materialised to its path. -/
theorem materialise?_eq (traced : Traced arena position trail)
    (small : arena.size ≤ noParent.toNat) :
    materialise? arena position = some trail.toPath := by
  rw [materialise?, traced.trace?_eq small traced.lt_size]
  rfl

end Traced

end HeapAtlas.PathArena
