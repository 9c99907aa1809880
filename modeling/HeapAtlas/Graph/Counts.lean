import HeapAtlas.Capped

/-! How much a heap holds, and the memory that it and its analysis are expected to take. -/

namespace HeapAtlas

/-- Numbers of the parts of a heap, and the bytes of its names. -/
structure Counts where
  classes : Nat
  objects : Nat
  edges : Nat
  primitives : Nat
  roots : Nat
  nameBytes : Nat
  deriving DecidableEq, Repr, Inhabited

namespace Counts

/-- Bytes of one object: identifier, class, size, three offsets and a bit for the roots. -/
def perObject : Nat := 8 + 4 + 8 + 8 + 8 + 8 + 1

/-- Bytes of one reference: target, label, type and its entry among the incoming ones. -/
def perEdge : Nat := 4 + 4 + 1 + 4 + 8

/-- Bytes of one primitive field: name, type and word. -/
def perPrimitive : Nat := 4 + 1 + 8

/-- Bytes of one class: identifier, name, superclass, offset and room for eight fields. -/
def perClass : Nat := 8 + 4 + 4 + 8 + 4 * 8

/-- Expected bytes of a heap with these counts, whose identifiers lie far apart. -/
def graphBytes (counts : Counts) : Nat :=
  Capped.sum
    [Capped.mul counts.objects perObject, Capped.mul counts.edges perEdge,
      Capped.mul counts.primitives perPrimitive, Capped.mul counts.classes perClass,
      Capped.mul counts.roots 8, Capped.mul counts.nameBytes 2]

/-- Expected bytes of an analysis: retained size, dominator and a mark for every object. -/
def analysisBytes (objects : Nat) : Nat :=
  Capped.add (Capped.mul objects 14) (objects / 8)

/-- Expected bytes of a heap with these counts and its analysis. -/
def requiredBytes (counts : Counts) : Nat :=
  Capped.add counts.graphBytes (analysisBytes counts.objects)

end Counts

end HeapAtlas
