import HeapAtlas.Bytes
import HeapAtlas.Files.Path

/-! Files in directories, and how a path leads to one. -/

namespace HeapAtlas

/-- A file, or a directory with its entries by name. -/
inductive FileNode where
  | file (content : Bytes)
  | directory (entries : List (String × FileNode))

/-- Why a path cannot be read or written as a file. -/
inductive FileFault where
  /-- Nothing is there. -/
  | missing
  /-- A directory is there, the way leads through a file, or the path is no path. -/
  | unusable
  deriving DecidableEq, Repr

namespace FileNode

instance : Inhabited FileNode := ⟨directory []⟩

/-- The most bytes that a name may have. -/
def nameLimit : Nat := 255

/-- The number of bytes that a path has to stay below. -/
def pathLimit : Nat := 4096

/-- Whether a text can be a path at all. -/
def isPath (path : String) : Bool :=
  !path.toList.contains '\x00' && path.utf8ByteSize < pathLimit

/-- The entries of a directory, none of a file. -/
def entries : FileNode → List (String × FileNode)
  | file _ => []
  | directory entries => entries

/-- Puts an entry in, in place of an earlier one of its name. -/
def insertEntry (name : String) (node : FileNode) :
    List (String × FileNode) → List (String × FileNode)
  | [] => [(name, node)]
  | entry :: rest =>
    if entry.1 = name then (name, node) :: rest else entry :: insertEntry name node rest

/-- Puts a node at the end of a way through directories, which are made where they are missing. -/
def insert (node : FileNode) (way : List String) (new : FileNode) : FileNode :=
  match way with
  | [] => new
  | name :: rest =>
    -- A file on the way gives way to a directory.
    let below := (node.entries.lookup name).getD (directory [])
    directory (insertEntry name (below.insert rest new) node.entries)

/-- Follows segments of a path down from a node, with the directories above it at hand. -/
def follow (above : List FileNode) (node : FileNode) : List (List Char) → Except FileFault FileNode
  | [] => .ok node
  | segment :: rest =>
    match node with
    | file _ => .error .unusable
    | directory entries =>
      match Path.partOf? segment with
      | some (.name name) =>
        if nameLimit < name.utf8ByteSize then .error .unusable
        else
          match entries.lookup name with
          | some below => follow (directory entries :: above) below rest
          | none => .error .missing
      | some .up =>
        -- Above the top directory there is only itself.
        match above with
        | parent :: others => follow others parent rest
        | [] => follow [] (directory entries) rest
      | _ => follow above (directory entries) rest

/-- The content of the file that a path leads to from the top directory. -/
def read (top : FileNode) (path : String) : Except FileFault Bytes :=
  if !isPath path then .error .unusable
  else
    match follow [] top (Path.segments path.toList) with
    | .ok (file content) => .ok content
    | .ok (directory _) => .error .unusable
    | .error fault => .error fault

/-- Writes the file of a name in the directory at the end of a way. -/
def write (top : FileNode) (way : List String) (name : String) (content : Bytes) :
    Except FileFault FileNode :=
  if !isPath name ∨ nameLimit < name.utf8ByteSize then .error .unusable
  else
    -- A directory of the name is in the way, and anything else is replaced.
    match follow [] top (way.map String.toList ++ [name.toList]) with
    | .ok (directory _) => .error .unusable
    | _ => .ok (top.insert (way ++ [name]) (file content))

/-- Makes a directory at the end of a way, unless something is there. -/
def makeDirectory (top : FileNode) (way : List String) : FileNode :=
  match follow [] top (way.map String.toList) with
  | .ok _ => top
  | .error _ => top.insert way (directory [])

end FileNode

end HeapAtlas
