import Std.Data.TreeMap
import HeapAtlas.Files.Tree
import HeapAtlas.QueryError

/-! Where snapshots come from: kept in memory, or as files of one directory. -/

namespace HeapAtlas

/-- A snapshot as it is stored, with declared field types on the side if there are any. -/
structure StoredSnapshot where
  content : Bytes
  layout : Option Bytes
  deriving DecidableEq, Repr

/-- Why stored bytes could not be read. -/
inductive ReadFault where
  /-- The source was told to fail. -/
  | simulated
  /-- The file could not be read. -/
  | file (fault : FileFault)
  deriving DecidableEq, Repr

/-- Why there is no analysis of a snapshot. -/
inductive LoadError where
  /-- Nothing is stored under the key. -/
  | notFound (key : String)
  | unreadable (key : String) (fault : ReadFault)
  /-- The bytes begin as a frame and are none. -/
  | badFrame
  | decode (key : String) (fault : Snapshot.DecodeError)
  | analysis (key : String) (fault : QueryError)
  deriving DecidableEq, Repr

namespace LoadError

/-- The wording of a load error, none where it is the storage's or the frame format's own. -/
def message? : LoadError → Option String
  | notFound key => some ("snapshot " ++ Text.quoted key ++ " not found")
  | unreadable key .simulated =>
    some ("reading snapshot " ++ Text.quoted key ++ ": simulated fetch failure")
  | unreadable _ (.file _) | badFrame => none
  | decode key fault => some ("decoding snapshot " ++ Text.quoted key ++ ": " ++ fault.message)
  | analysis key fault => some ("analysing snapshot " ++ Text.quoted key ++ ": " ++ fault.message)

/-- The kind of a load error. -/
def kind : LoadError → ErrorKind
  | notFound _ => .notFound
  | unreadable _ _ | badFrame | decode _ _ => .decodeFailure
  | analysis _ fault => fault.kind

end LoadError

/-- Gives stored snapshots by key; it may count what it is asked for. -/
class SnapshotSource (σ : Type) where
  fetch : σ → String → Except LoadError StoredSnapshot × σ

/-- Snapshots in memory, a count of the fetches of every key, and the keys told to fail. -/
structure MemorySource where
  snapshots : Std.TreeMap String StoredSnapshot
  fetches : Std.TreeMap String Nat
  failing : List String

namespace MemorySource

/-- No snapshots. -/
def empty : MemorySource := ⟨∅, ∅, []⟩

/-- Stores a snapshot, in place of an earlier one. -/
def insert (source : MemorySource) (key : String) (snapshot : StoredSnapshot) : MemorySource :=
  { source with snapshots := source.snapshots.insert key snapshot }

/-- Puts a layout beside a stored snapshot; without one nothing is stored. -/
def setLayout (source : MemorySource) (key : String) (layout : Bytes) : MemorySource :=
  match source.snapshots[key]? with
  | some snapshot => source.insert key { snapshot with layout := some layout }
  | none => source

/-- Tells whether fetches of a key are to fail. -/
def setFailing (source : MemorySource) (key : String) (fail : Bool) : MemorySource :=
  let others := source.failing.filter (· ≠ key)
  { source with failing := if fail then key :: others else others }

/-- Number of fetches of a key, failed ones included. -/
def fetchCount (source : MemorySource) (key : String) : Nat := source.fetches.getD key 0

/-- Number of fetches of all keys. -/
def totalFetches (source : MemorySource) : Nat := source.fetches.values.foldl (· + ·) 0

/-- Counts a fetch and answers it. -/
def fetch (source : MemorySource) (key : String) :
    Except LoadError StoredSnapshot × MemorySource :=
  let counted :=
    { source with fetches := source.fetches.insert key (source.fetchCount key + 1) }
  -- A key that is told to fail does so whether it is stored or not.
  if source.failing.contains key then (.error (.unreadable key .simulated), counted)
  else
    match source.snapshots[key]? with
    | some snapshot => (.ok snapshot, counted)
    | none => (.error (.notFound key), counted)

instance : SnapshotSource MemorySource := ⟨fetch⟩

end MemorySource

/-- Snapshots as files of the directory at a path, with layouts as files beside them. -/
structure SnapshotDirectory where
  top : FileNode
  root : String

namespace SnapshotDirectory

/-- What the name of a layout's file has after the name of the snapshot's. -/
def layoutSuffix : String := ".layout.json"

/-- The path of the snapshot of a key. -/
def snapshotPath (source : SnapshotDirectory) (key : String) : String := Path.join source.root key

/-- The path of the layout of a key. -/
def layoutPath (source : SnapshotDirectory) (key : String) : String :=
  Path.join source.root (key ++ layoutSuffix)

/-- Whether a key is looked for at all: one part, and no two dots in a row. -/
def admits (key : String) : Bool :=
  !key.isEmpty && (Path.parts key).length = 1 && !Path.hasTwoDots key.toList

/-- Reads the file of a key and, if it can be read, the layout beside it. -/
def fetch (source : SnapshotDirectory) (key : String) : Except LoadError StoredSnapshot :=
  if !admits key then .error (.notFound key)
  else
    -- A layout that cannot be read is treated like one that is not there.
    match source.top.read (source.snapshotPath key) with
    | .ok content => .ok ⟨content, (source.top.read (source.layoutPath key)).toOption⟩
    | .error .missing => .error (.notFound key)
    | .error fault => .error (.unreadable key (.file fault))

instance : SnapshotSource SnapshotDirectory := ⟨fun source key => (source.fetch key, source)⟩

end SnapshotDirectory

end HeapAtlas
