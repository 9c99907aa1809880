/-! A small generator of numbers that gives the same sequence for the same seed. -/

namespace HeapAtlas.Sample

/-- A xorshift generator with a multiplier at the end; its state is never zero. -/
structure Generator where
  state : UInt64
  deriving DecidableEq, Repr, Inhabited

namespace Generator

/-- The generator of a seed, where zero counts as one. -/
def ofSeed (seed : UInt64) : Generator := ⟨if seed = 0 then 1 else seed⟩

/-- The next number. -/
def next (generator : Generator) : UInt64 × Generator :=
  let x := generator.state
  let x := x ^^^ (x >>> 12)
  let x := x ^^^ (x <<< 25)
  let x := x ^^^ (x >>> 27)
  (x * 0x2545F4914F6CDD1D, ⟨x⟩)

/-- A number below a bound; for a bound of zero it is zero and no number is used up. -/
def below (generator : Generator) (bound : UInt64) : UInt64 × Generator :=
  if bound = 0 then (0, generator)
  else
    let (value, generator) := generator.next
    (value % bound, generator)

/-- True with the given probability. -/
def chance (generator : Generator) (numerator denominator : UInt64) : Bool × Generator :=
  let (value, generator) := generator.below denominator
  (value < numerator, generator)

end Generator

end HeapAtlas.Sample
