/-! White space as the Unicode property `White_Space` has it, and trimming a text by it. -/

namespace HeapAtlas.Text

/-- A character counts as blank exactly when Unicode gives it the property `White_Space`. -/
def isBlank (c : Char) : Bool :=
  let code := c.toNat
  (9 ≤ code && code ≤ 13) || code = 0x20 || code = 0x85 || code = 0xa0 || code = 0x1680 ||
    (0x2000 ≤ code && code ≤ 0x200a) || code = 0x2028 || code = 0x2029 || code = 0x202f ||
    code = 0x205f || code = 0x3000

/-- The characters up to the last one that is not blank. -/
def dropBlankEnd (cs : List Char) : List Char :=
  (cs.reverse.dropWhile isBlank).reverse

/-- The characters between the first and the last one that is not blank. -/
def trimBlank (cs : List Char) : List Char :=
  dropBlankEnd (cs.dropWhile isBlank)

/-- Blanks in front of a text do not survive trimming. -/
theorem trimBlank_append_left {blanks cs : List Char} (blank : ∀ c ∈ blanks, isBlank c = true) :
    trimBlank (blanks ++ cs) = trimBlank cs := by
  -- Dropping stops inside the text, never inside the blanks.
  simp only [trimBlank, List.dropWhile_append_of_pos blank]

end HeapAtlas.Text
