import Mathlib.Data.List.Basic
import HeapAtlas.Files.Path

/-! Where a path leads that continues another, and which texts are names of files. -/

namespace HeapAtlas.Path

/-! ### Segments -/

/-- Every text has at least one segment, though it may be empty. -/
theorem segments_ne_nil (cs : List Char) : segments cs ≠ [] := by
  cases cs with
  | nil => simp [segments]
  | cons c rest =>
    rw [segments]
    -- A slash closes a segment; any other character is put in front of one.
    split
    · simp
    · split <;> simp

/-- A slash parts what stands before it from what stands behind it. -/
theorem segments_append (front back : List Char) :
    segments (front ++ '/' :: back) = segments front ++ segments back := by
  induction front with
  | nil => rfl
  | cons c rest ih =>
    rw [List.cons_append, segments, segments, ih]
    split
    · rfl
    · -- The character joins the first segment, which is that of the front.
      cases first : segments rest with
      | nil => exact absurd first (segments_ne_nil rest)
      | cons segment others => rfl

/-- Without a slash there is one segment, which is the whole. -/
theorem segments_of_notMem {cs : List Char} (slashless : '/' ∉ cs) : segments cs = [cs] := by
  induction cs with
  | nil => rfl
  | cons c rest ih =>
    simp only [List.mem_cons, not_or] at slashless
    rw [segments, if_neg (Ne.symm slashless.1), ih slashless.2]

/-! ### Parts -/

/-- The parts that segments make, behind the top directory or not. -/
def partsFrom (absolute : Bool) (all : List (List Char)) : List PathPart :=
  if absolute then .top :: all.filterMap partOf?
  else
    match all with
    | ['.'] :: rest => .here :: rest.filterMap partOf?
    | all => all.filterMap partOf?

/-- A path is read from its segments, by whether it begins at the top. -/
theorem parts_eq (path : String) :
    parts path = partsFrom (isAbsolute path) (segments path.toList) := rfl

/-- Only the first segment is treated in a way of its own. -/
theorem partsFrom_append (absolute : Bool) {front : List (List Char)} (some_ : front ≠ [])
    (back : List (List Char)) :
    partsFrom absolute (front ++ back) = partsFrom absolute front ++ back.filterMap partOf? := by
  obtain ⟨first, rest, rfl⟩ := List.exists_cons_of_ne_nil some_
  cases absolute with
  | true => exact congrArg (PathPart.top :: ·) List.filterMap_append
  | false =>
    -- A dot counts in front of all other segments, and there alone.
    by_cases dot : first = ['.']
    · subst dot
      simp [partsFrom]
    · have plain (behind : List (List Char)) :
          partsFrom false (first :: behind) = (first :: behind).filterMap partOf? := by
        simp [partsFrom, dot]
      rw [List.cons_append, plain, plain, ← List.cons_append, List.filterMap_append]

/-- A segment makes no part just when it is empty or a single dot. -/
theorem partOf?_eq_none_iff {segment : List Char} :
    partOf? segment = none ↔ segment = [] ∨ segment = ['.'] := by
  rw [partOf?]
  split <;> simp_all
  split <;> simp

/-- The name of a file in a directory: a text that is a segment and neither empty nor made of one or
two dots. -/
structure IsFileName (text : String) : Prop where
  some_ : text ≠ ""
  slashless : '/' ∉ text.toList
  not_here : text ≠ "."
  not_up : text ≠ ".."

namespace IsFileName

variable {name : String}

/-- A file name is not empty. -/
theorem toList_ne_nil (named : IsFileName name) : name.toList ≠ [] := by
  simpa using named.some_

/-- A file name does not begin at the top. -/
theorem isAbsolute_eq (named : IsFileName name) : isAbsolute name = false := by
  rw [isAbsolute, decide_eq_false_iff_not]
  intro first
  exact named.slashless (List.mem_of_mem_head? first)

/-- A file name is a part of a path as it stands. -/
theorem partOf?_eq (named : IsFileName name) : partOf? name.toList = some (.name name) := by
  have here : name.toList ≠ ['.'] := fun same => named.not_here (String.toList_inj.mp same)
  have up : name.toList ≠ ['.', '.'] := fun same => named.not_up (String.toList_inj.mp same)
  rw [partOf?, if_neg (by simp [named.toList_ne_nil, here]), if_neg up, String.ofList_toList]

/-- A file name has no separator, so it is its only segment. -/
theorem segments_eq (named : IsFileName name) : segments name.toList = [name.toList] :=
  segments_of_notMem named.slashless

/-- A name stays one with a slashless ending that has more than dots. -/
theorem append (named : IsFileName name) {ending : String} (slashless : '/' ∉ ending.toList)
    (long : 2 < ending.toList.length) : IsFileName (name ++ ending) := by
  have size : 2 < (name ++ ending).toList.length := by
    rw [String.toList_append, List.length_append]
    omega
  -- With so long an ending the name is neither empty nor made of dots alone.
  refine ⟨?_, ?_, ?_, ?_⟩
  · rintro empty
    rw [empty] at size
    simp at size
  · rw [String.toList_append, List.mem_append, not_or]
    exact ⟨named.slashless, slashless⟩
  · rintro dot
    rw [dot] at size
    simp at size
  · rintro dots
    rw [dots] at size
    simp at size

end IsFileName

/-! ### Continued paths -/

/-- The text of a path that continues another one by a path that does not begin at the top. -/
theorem exists_toList_join {directory path : String} (relative : isAbsolute path = false)
    (some_ : directory ≠ "") :
    ∃ front, (join directory path).toList = front ++ '/' :: path.toList ∧
      (directory.toList = front ∨ directory.toList = front ++ ['/']) := by
  rw [join, relative, if_neg Bool.false_ne_true]
  by_cases last : directory.toList.getLast? = some '/'
  · -- The slash between the two is there already.
    obtain ⟨front, whole⟩ := List.getLast?_eq_some_iff.mp last
    refine ⟨front, ?_, .inr whole⟩
    rw [if_pos (.inr last), String.toList_append, whole, List.append_assoc]
    rfl
  · refine ⟨directory.toList, ?_, .inl rfl⟩
    rw [if_neg (by simp [some_, last])]
    simp

/-- The segments of a continued path end with those of the path that continues it. -/
theorem exists_segments_join (directory path : String) :
    ∃ front, segments (join directory path).toList = front ++ segments path.toList := by
  by_cases relative : isAbsolute path = true
  · -- A path from the top takes the place of the directory.
    exact ⟨[], by rw [join, if_pos relative, List.nil_append]⟩
  · by_cases some_ : directory = ""
    · subst some_
      exact ⟨[], by simp [join, relative]⟩
    · obtain ⟨front, text, _⟩ := exists_toList_join (by simpa using relative) some_
      exact ⟨segments front, by rw [text, segments_append]⟩

/-- A directory's path that is continued by a name has the name as its last segment, behind those of
the directory. -/
theorem exists_segments_child (directory : String) {name : String} (named : IsFileName name) :
    ∃ front, segments (join directory name).toList = front ++ [name.toList] ∧
      (segments directory.toList = front ∨ segments directory.toList = front ++ [[]]) := by
  -- In the empty directory a child is its name, and elsewhere it stands behind a separator.
  by_cases some_ : directory = ""
  · subst some_
    refine ⟨[], ?_, .inr rfl⟩
    rw [join, named.isAbsolute_eq]
    simpa using named.segments_eq
  · obtain ⟨front, text, whole⟩ := exists_toList_join named.isAbsolute_eq some_
    refine ⟨segments front, by rw [text, segments_append, named.segments_eq], ?_⟩
    rcases whole with whole | whole
    · exact .inl (by rw [whole])
    · exact .inr (by rw [whole, segments_append]; rfl)

/-- A path is that of a child of a directory when it has one part more, a name. -/
def IsChild (directory path : String) : Prop :=
  ∃ name, parts path = parts directory ++ [.name name]

/-- A directory's path that is continued by a name leads to its child of that name. -/
theorem parts_join {directory name : String} (named : IsFileName name) :
    parts (join directory name) = parts directory ++ [.name name] := by
  by_cases some_ : directory = ""
  · subst some_
    have alone : join "" name = name := by simp [join, named.isAbsolute_eq]
    have bare : parts "" = [] := rfl
    rw [alone, bare, parts_eq, named.isAbsolute_eq, named.segments_eq]
    -- The name is not the single dot that is treated in a way of its own.
    have other : name.toList ≠ ['.'] := fun same => named.not_here (String.toList_inj.mp same)
    simp [partsFrom, other, named.partOf?_eq]
  · obtain ⟨front, text, whole⟩ := exists_toList_join named.isAbsolute_eq some_
    have child : parts (join directory name) =
        partsFrom (isAbsolute (join directory name)) (segments front) ++ [.name name] := by
      rw [parts_eq, text, segments_append, partsFrom_append _ (segments_ne_nil front),
        named.segments_eq]
      simp [named.partOf?_eq]
    have parent : parts directory = partsFrom (isAbsolute directory) (segments front) := by
      rcases whole with whole | whole
      · rw [parts_eq, whole]
      · rw [parts_eq, whole, segments_append, partsFrom_append _ (segments_ne_nil front)]
        simp [segments, partOf?]
    -- Both begin at the top or neither does.
    have start : isAbsolute (join directory name) = isAbsolute directory := by
      have long : directory.toList ≠ [] := by simpa using some_
      rw [isAbsolute, isAbsolute, text]
      rcases whole with whole | whole
      · rw [whole] at long ⊢
        rw [List.head?_append_of_ne_nil _ long]
      · rw [whole]
        simp
    rw [child, parent, start]

/-! ### Paths of one part -/

/-- A path of one part that has a slash has nothing behind it but slashes and single dots. -/
theorem exists_idle_last {path : String} (one : (parts path).length = 1)
    (slash : '/' ∈ path.toList) :
    ∃ front last, segments path.toList = front ++ [last] ∧ partOf? last = none := by
  obtain ⟨first, back, whole, slashless⟩ := List.eq_append_cons_of_mem slash
  have split : segments path.toList = first :: segments back := by
    rw [whole, segments_append, segments_of_notMem slashless, List.singleton_append]
  -- The part is what is in front of the first slash, or the top if nothing is.
  have idle : (segments back).filterMap partOf? = [] := by
    rw [parts_eq, split, ← List.singleton_append, partsFrom_append _ (by simp),
      List.length_append] at one
    have counted : 0 < (partsFrom (isAbsolute path) [first]).length := by
      by_cases empty : first = []
      · have absolute : isAbsolute path = true := by simp [isAbsolute, whole, empty]
        simp [partsFrom, absolute]
      · by_cases dot : first = ['.']
        · cases isAbsolute path <;> simp [partsFrom, dot]
        · have made : partOf? first ≠ none := by simp [partOf?_eq_none_iff, empty, dot]
          obtain ⟨part, made⟩ := Option.ne_none_iff_exists'.mp made
          cases isAbsolute path <;> simp [partsFrom, dot, made]
    exact List.length_eq_zero_iff.mp (by omega)
  obtain ⟨before, last, ends⟩ := List.eq_nil_or_concat' (segments back) |>.resolve_left
    (segments_ne_nil back)
  refine ⟨first :: before, last, by rw [split, ends, List.cons_append], ?_⟩
  exact List.filterMap_eq_nil_iff.mp idle last (by rw [ends]; simp)

end HeapAtlas.Path
