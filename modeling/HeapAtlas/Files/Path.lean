/-! Paths with slashes: their segments, the parts that count, and how one path continues another. -/

namespace HeapAtlas

/-- A part of a path. -/
inductive PathPart where
  /-- The top directory, where a path begins with a slash. -/
  | top
  /-- The current directory, where a path begins with a single dot. -/
  | here
  /-- The directory above, two dots. -/
  | up
  | name (text : String)
  deriving DecidableEq, Repr

namespace Path

/-- The texts between slashes, one more than there are slashes. -/
def segments : List Char → List (List Char)
  | [] => [[]]
  | c :: rest =>
    -- A slash ends one segment and begins the next, which may be empty.
    if c = '/' then [] :: segments rest
    else
      match segments rest with
      | [] => [[c]]
      | first :: others => (c :: first) :: others

/-- The part that a segment makes where it is not the first; none if empty or a single dot. -/
def partOf? (segment : List Char) : Option PathPart :=
  if segment = [] ∨ segment = ['.'] then none
  else if segment = ['.', '.'] then some .up
  else some (.name (String.ofList segment))

/-- Whether a path begins at the top directory. -/
def isAbsolute (path : String) : Bool := path.toList.head? = some '/'

/-- The parts of a path. -/
def parts (path : String) : List PathPart :=
  if isAbsolute path then .top :: (segments path.toList).filterMap partOf?
  else
    -- A single dot counts only in front.
    match segments path.toList with
    | ['.'] :: rest => .here :: rest.filterMap partOf?
    | all => all.filterMap partOf?

/-- Continues a path by another one, which takes its place if it begins at the top directory. -/
def join (base path : String) : String :=
  if isAbsolute path then path
  else if base.isEmpty ∨ base.toList.getLast? = some '/' then base ++ path
  else base ++ "/" ++ path

/-- Drops slashes and single dots in front. -/
def dropIdle : List (List Char) → List (List Char)
  | segment :: rest =>
    if segment = [] ∨ segment = ['.'] then dropIdle rest else segment :: rest
  | [] => []

/-- The text of segments with slashes between them. -/
def ofSegments : List (List Char) → List Char
  | [] => []
  | [segment] => segment
  | segment :: rest => segment ++ '/' :: ofSegments rest

/-- A path that does not begin at the top, without slashes and dots that idle at its ends. -/
def trimmed (path : String) : String :=
  String.ofList (ofSegments (dropIdle (dropIdle (segments path.toList)).reverse).reverse)

/-- The trimmed way down to a path that goes on after a directory's text; none for any other. -/
def below? (directory path : String) : Option String :=
  -- Going on has to begin with a slash, or a longer name would count.
  let rest := path.toList.drop directory.length
  if directory.toList.isPrefixOf path.toList ∧ rest.head?.all (· = '/') then
    some (trimmed (String.ofList rest))
  else none

/-- Whether two dots follow one another anywhere. -/
def hasTwoDots : List Char → Bool
  | '.' :: '.' :: _ => true
  | _ :: rest => hasTwoDots rest
  | [] => false

end Path

end HeapAtlas
