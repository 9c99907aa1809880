import HeapAtlas.Proofs.Files.Tree
import HeapAtlas.Residency.Source

/-! Which keys of a snapshot directory lead to files below it, and what is read for the others. -/

namespace HeapAtlas.SnapshotDirectory

open HeapAtlas.Path

/-- A key that is looked for has one part and no two dots in a row. -/
theorem admits_eq_true_iff {key : String} :
    admits key = true ↔
      key ≠ "" ∧ (parts key).length = 1 ∧ hasTwoDots key.toList = false := by
  simp [admits, and_assoc]

/-- A key that is looked for is the name of a file unless it has a slash or is a single dot. -/
theorem isFileName_iff_of_admits {key : String} (admitted : admits key = true) :
    IsFileName key ↔ '/' ∉ key.toList ∧ key ≠ "." := by
  obtain ⟨some_, _, dots⟩ := admits_eq_true_iff.mp admitted
  constructor
  · intro named
    exact ⟨named.slashless, named.not_here⟩
  · intro plain
    refine ⟨some_, plain.1, plain.2, ?_⟩
    -- Two dots are what the guard refuses itself.
    rintro rfl
    cases dots

/-- The name of a snapshot's layout is a name when that of the snapshot is. -/
theorem isFileName_layout {key : String} (named : IsFileName key) :
    IsFileName (key ++ layoutSuffix) := named.append (by decide) (by decide)

/-- A key that is looked for and is no name of a file ends behind the file that it names. -/
theorem exists_idle_last_of_admits {key : String} (admitted : admits key = true)
    (unnamed : ¬ IsFileName key) :
    ∃ front last, segments key.toList = front ++ [last] ∧ partOf? last = none := by
  -- The last segment is empty or a dot behind a slash, or the whole key is a dot.
  by_cases slash : '/' ∈ key.toList
  · exact exists_idle_last (admits_eq_true_iff.mp admitted).2.1 slash
  · have dot : key = "." := by
      by_contra other
      exact unnamed ((isFileName_iff_of_admits admitted).mpr ⟨slash, other⟩)
    subst dot
    exact ⟨[], ['.'], rfl, rfl⟩

/-- Both paths of a key lead to children of the root when the key is the name of a file. -/
theorem isChild_of_isFileName (source : SnapshotDirectory) {key : String}
    (named : IsFileName key) :
    IsChild source.root (source.snapshotPath key) ∧
      IsChild source.root (source.layoutPath key) :=
  ⟨⟨key, parts_join named⟩, ⟨_, parts_join (isFileName_layout named)⟩⟩

/-- A key is refused without a look exactly when no files at all would make a difference. -/
theorem fetch_eq_notFound_iff (root key : String) :
    (∀ top, fetch ⟨top, root⟩ key = .error (.notFound key)) ↔ admits key = false := by
  constructor
  · intro refused
    by_contra admitted
    rw [Bool.not_eq_false] at admitted
    -- Where the top is a file, whatever is looked for is unusable.
    have unusable := refused (.file [])
    simp [fetch, admitted, FileNode.read_file] at unusable
  · intro refused top
    simp [fetch, refused]

/-- What is fetched was read at the paths of a key that is looked for. -/
theorem fetch_eq_ok_iff {source : SnapshotDirectory} {key : String} {stored : StoredSnapshot} :
    source.fetch key = .ok stored ↔ admits key = true ∧
      source.top.read (source.snapshotPath key) = .ok stored.content ∧
      stored.layout = (source.top.read (source.layoutPath key)).toOption := by
  rw [fetch]
  -- The key is admitted first, and then the snapshot decides; the side-file never fails a fetch.
  cases admitted : admits key with
  | false => simp
  | true =>
    simp only [Bool.not_true, Bool.false_eq_true, if_false, true_and]
    cases read : source.top.read (source.snapshotPath key) with
    | error fault => cases fault <;> simp
    | ok content =>
      obtain ⟨other, layout⟩ := stored
      simp [eq_comm]

/--
A key is looked for or refused whatever files there are. Of the keys that are looked for, just
those without a slash and other than a single dot are names of files, for which both paths lead to
children of the root. Nothing is fetched for any other key, and what is fetched for these is what
the root's children hold.
-/
theorem leads_below_iff (source : SnapshotDirectory) (key : String) :
    ((∀ top, fetch ⟨top, source.root⟩ key = .error (.notFound key)) ↔ admits key = false) ∧
      (admits key = true →
        ((IsFileName key ∧ IsChild source.root (source.snapshotPath key) ∧
            IsChild source.root (source.layoutPath key)) ↔
          '/' ∉ key.toList ∧ key ≠ ".")) ∧
      ∀ stored, source.fetch key = .ok stored →
        IsFileName key ∧
          source.top.child? source.root key = some (.file stored.content) ∧
          ∀ bytes, stored.layout = some bytes →
            source.top.child? source.root (key ++ layoutSuffix) = some (.file bytes) := by
  refine ⟨fetch_eq_notFound_iff source.root key, fun admitted => ?_, fun stored fetched => ?_⟩
  · rw [← isFileName_iff_of_admits admitted]
    exact ⟨fun leads => leads.1, fun named => ⟨named, source.isChild_of_isFileName named⟩⟩
  · obtain ⟨admitted, read, layout⟩ := fetch_eq_ok_iff.mp fetched
    have named : IsFileName key := by
      by_contra unnamed
      -- The path ends as the key does, behind whatever file there is.
      obtain ⟨front, last, ends, idle⟩ := exists_idle_last_of_admits admitted unnamed
      obtain ⟨before, whole⟩ := exists_segments_join source.root key
      rw [ends, ← List.append_assoc] at whole
      exact FileNode.read_ne_ok_of_idle_last whole idle source.top stored.content read
    refine ⟨named, FileNode.child?_of_read named read, fun bytes held => ?_⟩
    refine FileNode.child?_of_read (isFileName_layout named) ?_
    rw [held] at layout
    cases found : source.top.read (source.layoutPath key) with
    | error fault =>
      rw [found] at layout
      cases layout
    | ok content =>
      rw [found] at layout
      cases layout
      exact found

/-- A directory of one snapshot and its layout, beside which there are other files. -/
def shop : SnapshotDirectory where
  top := .directory [("data", .directory [("a", .file [1]), ("a.layout.json", .file [2])]),
    ("b", .file [3])]
  root := "/data/"

/-- The snapshot is a child of the root, and so is its layout; what lies beside the root is not
looked for, whatever it is. -/
theorem shop_leads_below :
    IsFileName "a" ∧ IsChild shop.root (shop.snapshotPath "a") ∧
      shop.fetch "a" = .ok ⟨[1], some [2]⟩ ∧
      shop.top.child? shop.root "a.layout.json" = some (.file [2]) ∧
      ∀ top, fetch ⟨top, shop.root⟩ "../b" = .error (.notFound "../b") := by
  have fetched : shop.fetch "a" = .ok ⟨[1], some [2]⟩ := by decide +kernel
  obtain ⟨_, leads, reads⟩ := leads_below_iff shop "a"
  obtain ⟨named, _, layout⟩ := reads ⟨[1], some [2]⟩ fetched
  exact ⟨named, ((leads (by decide +kernel)).mpr (by decide)).2.1, fetched, layout [2] rfl,
    (leads_below_iff shop "../b").1.mpr (by decide +kernel)⟩

/-- A single slash is looked for, although it names no file and its path is that of the top. -/
theorem slash_leads_elsewhere :
    admits "/" = true ∧ ¬ IsFileName "/" ∧ shop.snapshotPath "/" = "/" ∧
      ¬ IsChild shop.root (shop.snapshotPath "/") ∧
      shop.fetch "/" = .error (.unreadable "/" (.file .unusable)) := by
  refine ⟨by decide +kernel, fun named => named.slashless (by decide), by decide +kernel, ?_,
    by decide +kernel⟩
  rintro ⟨name, parts⟩
  -- The path of the top has a single part, and a child of the root would have three.
  have one : (Path.parts (shop.snapshotPath "/")).length = 1 := by decide +kernel
  have two : (Path.parts shop.root).length = 2 := by decide +kernel
  rw [parts, List.length_append, two] at one
  cases one

end HeapAtlas.SnapshotDirectory
