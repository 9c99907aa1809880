import HeapAtlas.Bytes
import HeapAtlas.Graph.Ragged
import HeapAtlas.NameTable

/-! Names as they lie in memory: one text, and the offsets at which names begin and end. -/

namespace HeapAtlas

/-- One text of all names; name `i` stands from offset `i` up to offset `i + 1`, in bytes. -/
structure NameBuffer where
  text : String
  offsets : Array Nat
  deriving DecidableEq, Inhabited

namespace NameBuffer

/-- No names: the first one will begin at zero. -/
def empty : NameBuffer := ⟨"", #[0]⟩

/-- Number of names. -/
def size (buffer : NameBuffer) : Nat := buffer.offsets.size - 1

/-- Bytes that all names take. -/
def byteCount (buffer : NameBuffer) : Nat := buffer.text.utf8ByteSize

/-- Adds a name behind the others; it ends where the text then ends. -/
def push (buffer : NameBuffer) (name : String) : NameBuffer :=
  -- A buffer that was never set up gets its first offset now.
  let offsets := if buffer.offsets.isEmpty then #[0] else buffer.offsets
  let text := buffer.text ++ name
  ⟨text, offsets.push text.utf8ByteSize⟩

/-- Cuts a text at two of its bytes, unless a cut would go through a character. -/
def cut? (text : String) (start stop : Nat) : Option String :=
  if String.Pos.Raw.isValid text ⟨start⟩ && String.Pos.Raw.isValid text ⟨stop⟩ then
    (Bytes.slice (Bytes.ofText text) start (stop - start)).text?
  else none

/-- The name at an index, past the end the empty text; none if it cannot be cut out. -/
def get? (buffer : NameBuffer) (index : Nat) : Option String :=
  match buffer.offsets[index]?, buffer.offsets[index + 1]? with
  | some start, some stop => cut? buffer.text start stop
  | _, _ => some ""

/-- Where names begin, and how many bytes they take. -/
def spans (buffer : NameBuffer) : List (Nat × Nat) :=
  buffer.offsets.toList.zipWith (fun start stop => (start, stop - start)) buffer.offsets.toList.tail

/-- The bytes of the names, one group for a name. -/
def bytes (buffer : NameBuffer) : Ragged UInt8 :=
  ⟨buffer.offsets, (Bytes.ofText buffer.text).toArray⟩

end NameBuffer

/-- The names of a table as they lie in memory, where they were added in their order. -/
def NameTable.buffer (table : NameTable) : NameBuffer :=
  table.names.toList.foldl NameBuffer.push .empty

end HeapAtlas
