import Mathlib.Data.List.TakeWhile
import HeapAtlas.Text.Blank

/-! Trimming: what is left of a text has no blank at either end, and only blanks are gone. -/

namespace HeapAtlas.Text

/-- A text is a core with nothing but blanks around it, and the core neither begins nor ends with
one. -/
structure Trimmed (text core : List Char) : Prop where
  surrounded : ∃ before after, text = before ++ core ++ after ∧
    (∀ c ∈ before, isBlank c = true) ∧ ∀ c ∈ after, isBlank c = true
  head : ∀ c, core.head? = some c → isBlank c = false
  last : ∀ c, core.getLast? = some c → isBlank c = false

/-- Nothing is dropped from characters the first of which is to stay. -/
theorem dropWhile_eq_self_of_head? {drop : Char → Bool} {cs : List Char}
    (stays : ∀ c, cs.head? = some c → drop c = false) : cs.dropWhile drop = cs := by
  cases cs with
  | nil => rfl
  | cons first rest => simp [stays first rfl]

/-- What is dropped are the characters in front of the first that is to stay. -/
theorem exists_append_dropWhile (drop : Char → Bool) (cs : List Char) :
    ∃ dropped, cs = dropped ++ cs.dropWhile drop ∧ (∀ c ∈ dropped, drop c = true) ∧
      ∀ c, (cs.dropWhile drop).head? = some c → drop c = false := by
  refine ⟨cs.takeWhile drop, List.takeWhile_append_dropWhile.symm,
    fun c member => List.mem_takeWhile_imp member, fun c first => ?_⟩
  have stays := List.head?_dropWhile_not drop cs
  rw [first] at stays
  simpa using stays

/-- Blanks behind a core are dropped, and the core ends where it did. -/
theorem dropBlankEnd_of_last {core after : List Char}
    (blank : ∀ c ∈ after, isBlank c = true)
    (last : ∀ c, core.getLast? = some c → isBlank c = false) :
    dropBlankEnd (core ++ after) = core := by
  -- Read from the back, the blanks come first and the core stops the dropping.
  have turned : ∀ c ∈ after.reverse, isBlank c = true := by simpa using blank
  rw [dropBlankEnd, List.reverse_append, List.dropWhile_append_of_pos turned,
    dropWhile_eq_self_of_head? (by simpa using last), List.reverse_reverse]

/-- What is dropped at the end are the blanks behind the last character that is to stay. -/
theorem exists_dropBlankEnd_append (cs : List Char) :
    ∃ after, cs = dropBlankEnd cs ++ after ∧ (∀ c ∈ after, isBlank c = true) ∧
      ∀ c, (dropBlankEnd cs).getLast? = some c → isBlank c = false := by
  -- Dropping at the end is dropping in front of the reversed text.
  obtain ⟨dropped, whole, blank, stays⟩ := exists_append_dropWhile isBlank cs.reverse
  refine ⟨dropped.reverse, ?_, by simpa using blank, ?_⟩
  · rw [dropBlankEnd, ← List.reverse_append, ← whole, List.reverse_reverse]
  · simpa [dropBlankEnd] using stays

/-- Trimming leaves the core of a text, and a text has no other core. -/
theorem trimBlank_eq_iff {text core : List Char} : trimBlank text = core ↔ Trimmed text core := by
  constructor
  · rintro rfl
    obtain ⟨before, whole, blankBefore, head⟩ := exists_append_dropWhile isBlank text
    obtain ⟨after, rest, blankAfter, last⟩ :=
      exists_dropBlankEnd_append (text.dropWhile isBlank)
    refine ⟨⟨before, after, ?_, blankBefore, blankAfter⟩, fun c first => head c ?_, last⟩
    · rw [trimBlank, List.append_assoc, ← rest, ← whole]
    · -- What is first after both ends were trimmed was so after the front was.
      rw [rest, List.head?_append]
      exact Option.or_eq_some_iff.mpr (.inl first)
  · intro trimmed
    obtain ⟨before, after, rfl, blankBefore, blankAfter⟩ := trimmed.surrounded
    rw [List.append_assoc, trimBlank_append_left blankBefore, trimBlank]
    cases core with
    | nil =>
      -- Nothing but blanks is dropped from the front already.
      rw [List.nil_append, List.dropWhile_eq_nil_iff.mpr blankAfter]
      rfl
    | cons first rest =>
      rw [dropWhile_eq_self_of_head? (by simpa using trimmed.head),
        dropBlankEnd_of_last blankAfter trimmed.last]

end HeapAtlas.Text
