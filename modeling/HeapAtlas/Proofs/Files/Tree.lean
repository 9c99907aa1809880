import HeapAtlas.Files.Tree
import HeapAtlas.Proofs.Files.Path

/-! What is read at a path: the file of a name in the directory that the path leads to. -/

namespace HeapAtlas.FileNode

open HeapAtlas.Path

/-- What stands under a name in the directory that a path leads to. -/
def child? (top : FileNode) (directory name : String) : Option FileNode :=
  match follow [] top (segments directory.toList) with
  | .ok (.directory entries) => entries.lookup name
  | _ => none

/-- Only two dots need the directories above, so that any other segment goes on from where those
before it led. -/
theorem follow_concat {segment : List Char} (down : partOf? segment ≠ some .up)
    (above : List FileNode) (node : FileNode) (front : List (List Char)) :
    follow above node (front ++ [segment]) =
      (follow above node front).bind fun reached => follow [] reached [segment] := by
  -- The induction is on the segments in front, each of which is followed in the same way.
  induction front generalizing above node with
  | nil =>
    show follow above node [segment] = follow [] node [segment]
    cases node with
    | file content => rfl
    | directory entries =>
      cases made : partOf? segment with
      | none => simp [follow, made]
      | some part =>
        cases part with
        | name text => simp [follow, made]
        | up => exact absurd made down
        | top | here => simp [follow, made]
  | cons first rest ih =>
    cases node with
    | file content => rfl
    | directory entries =>
      rw [List.cons_append, follow.eq_def, follow.eq_def above (directory entries)]
      dsimp only
      cases partOf? first with
      | none => exact ih above _
      | some part =>
        cases part with
        | name text =>
          dsimp only
          split
          · rfl
          · cases entries.lookup text with
            | none => rfl
            | some below => exact ih _ below
        | up =>
          cases above with
          | nil => exact ih [] _
          | cons parent others => exact ih others parent
        | top | here => exact ih above _

/-- A name leads from a directory to what stands under it. -/
theorem follow_name_eq_ok {name : String} (named : IsFileName name) {node found : FileNode}
    (led : follow [] node [name.toList] = .ok found) :
    ∃ entries, node = directory entries ∧ entries.lookup name = some found := by
  -- A name leads on from a directory, and only to what is in it.
  cases node with
  | file content => cases led
  | directory entries =>
    rw [follow, named.partOf?_eq] at led
    dsimp only at led
    split at led
    · cases led
    · cases held : entries.lookup name with
      | none =>
        rw [held] at led
        cases led
      | some below =>
        rw [held] at led
        cases led
        exact ⟨entries, rfl, held⟩

/-- What is read at a path is the file that the path leads to. -/
theorem follow_of_read {top : FileNode} {path : String} {content : Bytes}
    (read : top.read path = .ok content) :
    follow [] top (segments path.toList) = .ok (file content) := by
  rw [FileNode.read] at read
  split at read
  · cases read
  · split at read <;> simp_all

/-- What is read at the path of a child is the child. -/
theorem child?_of_read {top : FileNode} {directory name : String} {content : Bytes}
    (named : IsFileName name) (read : top.read (join directory name) = .ok content) :
    top.child? directory name = some (file content) := by
  obtain ⟨front, text, whole⟩ := exists_segments_child directory named
  have led := follow_of_read read
  rw [text, follow_concat (by rw [named.partOf?_eq]; simp)] at led
  cases reached : follow [] top front with
  | error fault =>
    rw [reached] at led
    cases led
  | ok node =>
    rw [reached] at led
    obtain ⟨entries, rfl, held⟩ := follow_name_eq_ok named led
    -- A slash behind the directory leads nowhere else.
    have parent : follow [] top (segments directory.toList) = .ok (.directory entries) := by
      rcases whole with whole | whole
      · rw [whole, reached]
      · rw [whole, follow_concat (by simp [partOf?]), reached]
        rfl
    rw [child?, parent]
    exact held

/-- Nothing is read at a path that goes on behind the file. -/
theorem read_ne_ok_of_idle_last {path : String} {front : List (List Char)} {last : List Char}
    (split : segments path.toList = front ++ [last]) (idle : partOf? last = none)
    (top : FileNode) (content : Bytes) : top.read path ≠ .ok content := by
  intro read
  have led := follow_of_read read
  rw [split, follow_concat (by simp [idle])] at led
  -- The path would end as it does without its last segment, and at a file that segment fails.
  cases reached : follow [] top front with
  | error fault =>
    rw [reached] at led
    cases led
  | ok node =>
    rw [reached] at led
    cases node with
    | file content => cases led
    | directory entries =>
      simp [Except.bind, follow, idle] at led

/-- Where there is no directory at all, nothing is found and nothing is missing. -/
theorem read_file (content : Bytes) (path : String) :
    (file content).read path = .error .unusable := by
  rw [FileNode.read]
  split
  · rfl
  · -- A file has nothing below, and a path has a segment to follow.
    obtain ⟨first, rest, split⟩ := List.exists_cons_of_ne_nil (segments_ne_nil path.toList)
    rw [split, follow]

/-- An entry is found under its name, and the other ones are as they were. -/
theorem lookup_insertEntry (name other : String) (node : FileNode)
    (entries : List (String × FileNode)) :
    (insertEntry name node entries).lookup other =
      if other = name then some node else entries.lookup other := by
  have split (entry : String × FileNode) (rest : List (String × FileNode)) :
      (entry :: rest).lookup other =
        if other = entry.1 then some entry.2 else rest.lookup other := by
    rw [List.lookup_cons]
    by_cases same : other = entry.1
    · simp [same]
    · rw [beq_false_of_ne same, if_neg same]
  induction entries with
  | nil => rw [insertEntry, split]
  | cons entry rest ih =>
    rw [insertEntry]
    by_cases here : entry.1 = name
    · rw [if_pos here, split, split, here]
      split_ifs <;> rfl
    · rw [if_neg here, split, split, ih]
      -- The entry in front has another name than the new one.
      by_cases first : other = entry.1
      · rw [if_pos first, if_pos first, if_neg (first ▸ here)]
      · rw [if_neg first, if_neg first]

end HeapAtlas.FileNode
