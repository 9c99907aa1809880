import HeapAtlas.Zstd.Header

/-!
Writing Zstandard frames, and reading those whose blocks are stored plainly or repeat one byte.

Frames with a block in the compressed form, a checksum or a dictionary are left to other readers.

Several frames may follow one another, and frames to be passed over may stand between them. A
short frame that states its size is read whole, and only its size is checked. Any other frame is
streamed through buffers, which limit its window and its blocks.
-/

namespace HeapAtlas.Zstd

/-- The largest block that is streamed. -/
def blockLimit : Nat := 1 <<< 17

/-- The largest window that is streamed. -/
def windowLimit : Nat := (1 <<< 27) + 1

/-- The most content that a frame read whole may hold. -/
def wholeLimit : Nat := 1 <<< 13

/-- The bytes arrive in portions of this size: a full block with its descriptor. -/
def portion : Nat := blockLimit + 3

/-- A part of a frame's content. -/
inductive Block where
  | stored (content : Bytes)
  | run (count : Nat) (byte : UInt8)
  /-- A block in the compressed form that holds not even a first byte. -/
  | hollow
  deriving DecidableEq, Repr

namespace Block

/-- The bytes that a block stands for. -/
def content : Block → Bytes
  | stored content => content
  | run count byte => List.replicate count byte
  | hollow => []

/-- The number of bytes that a block stands for. -/
def size : Block → Nat
  | stored content => content.length
  | run count _ => count
  | hollow => 0

/-- The room that a block takes, be it as it is read or as what it stands for. -/
def room : Block → Nat
  | run count _ => max count 1
  | block => block.size

/-- Whether a block has nothing after its descriptor. -/
def isBare : Block → Bool
  | stored content => content.isEmpty
  | run _ _ => false
  | hollow => true

end Block

/-- Reads one block, and whether it is the last of its frame. -/
def block? (place : Place) : Option ((Bool × Block) × Place) := do
  let (descriptor, place) ← place.number? 3
  -- One bit for the last block, two for its kind, and the rest for its size.
  let isLast : Bool := descriptor % 2 = 1
  let size := descriptor / 8
  match descriptor / 2 % 4 with
  | 0 => (place.take? size).map fun (content, place) => ((isLast, .stored content), place)
  | 1 => (place.take? 1).map fun (bytes, place) => ((isLast, .run size (bytes.byteAt 0)), place)
  | 2 => if size = 0 then some ((isLast, .hollow), place) else none
  | _ => none

/-- Reads blocks up to the last one of a frame, within `fuel` blocks. -/
def blocks? : (fuel : Nat) → Place → Option (List Block × Place)
  -- A block has three bytes at least, so the bytes of a frame bound its blocks.
  | 0, _ => none
  | fuel + 1, place => do
    let ((isLast, block), place) ← block? place
    if isLast then return ([block], place)
    let (others, place) ← blocks? fuel place
    return (block :: others, place)

/-- The room for one block as it is read, and for content that has been made. -/
structure Buffers where
  block : Nat
  content : Nat
  deriving DecidableEq, Repr

/-- All room there is. -/
def Buffers.size (buffers : Buffers) : Nat := buffers.block + buffers.content

/-- Buffers are far too large if they have this many times the room that is needed, or more. -/
def excessFactor : Nat := 3

/-- Buffers are given up when they are far too large for this many frames in a row. -/
def excessLimit : Nat := 128

/-- The buffers at hand, and for how many frames in a row they have been far too large. -/
structure Reserve where
  buffers : Buffers
  excess : Nat
  deriving DecidableEq, Repr

/-- No buffers. -/
def Reserve.empty : Reserve := ⟨⟨0, 0⟩, 0⟩

/--
The reserve as a frame that needs buffers uses it.

Buffers serve if both are large enough and they are not given up, and are replaced if not.
Smaller ones that have just replaced others keep the count until a frame comes that they suit.
-/
def Reserve.fit (held : Reserve) (needed : Buffers) : Reserve :=
  -- The count begins anew with every frame that needs a good part of the buffers.
  let excess := if excessFactor * needed.size ≤ held.buffers.size then held.excess + 1 else 0
  if needed.block ≤ held.buffers.block ∧ needed.content ≤ held.buffers.content
      ∧ excess < excessLimit then ⟨held.buffers, excess⟩
  else ⟨needed, excess⟩

namespace Header

/-- The largest block of a streamed frame. -/
def blockLimit (header : Header) : Nat := min header.window Zstd.blockLimit

/--
The buffers that a frame needs.

Its content is kept for a window and two blocks, with 32 bytes to spare on either side, unless
all of it needs less. A window is at least one kibibyte.
-/
def buffers (header : Header) : Buffers where
  block := max header.blockLimit 4
  content := min (header.size.getD wordMax)
    (max header.window (1 <<< 10) + 2 * header.blockLimit + 64)

/-- Whether a frame between two positions is read whole: it is short, and arrives in one portion. -/
def isWhole (header : Header) (start stop : Nat) : Bool :=
  -- The frame is all at hand when its first and its last byte come in one portion.
  header.size.any (· ≤ wholeLimit) && start / portion = (stop - 1) / portion

/-- The content of a frame that is read whole: its size has to be right. -/
def whole? (header : Header) (blocks : List Block) : Option Bytes :=
  -- A block in the compressed form without a byte is refused here.
  let content := blocks.flatMap Block.content
  if blocks.contains .hollow || header.size ≠ some content.length then none else some content

/--
The content of a frame that is streamed through buffers.

A stated size has to be right, which is found out at a last block that is not bare. Buffers that
could hold content of the stated size hold all content, and are not filled a second time.
-/
def streamed? (header : Header) (buffers : Buffers) (blocks : List Block) : Option Bytes :=
  let content := blocks.flatMap Block.content
  -- Buffers for all of the content hold no more than that.
  let overflows := header.size.any (· ≤ buffers.content) && buffers.content < content.length
  let differs := header.size.any (· ≠ content.length) && !blocks.getLast?.any Block.isBare
  if windowLimit < header.window || blocks.any (header.blockLimit < ·.room) || overflows
      || differs then none
  else some content

end Header

/-- Reads a frame after its first four bytes, within `fuel` blocks. -/
def frame? (fuel : Nat) (held : Reserve) (place : Place) :
    Option ((Bytes × Reserve) × Place) := do
  let (header, next) ← header? place
  let (blocks, next) ← blocks? fuel next
  -- The four bytes in front belong to the frame, though they were read before.
  if header.isWhole (place.position - magic.length) next.position then
    return ((← header.whole? blocks, held), next)
  else
    let held := held.fit header.buffers
    return ((← header.streamed? held.buffers blocks, held), next)

/-- Passes over a frame after its first four bytes; it is streamed as one without a window. -/
def passOver? (held : Reserve) (place : Place) : Option (Reserve × Place) := do
  let (size, place) ← place.number? 4
  let (_, place) ← place.take? size
  return (held.fit (Header.buffers ⟨0, size⟩), place)

/-- Whether four bytes begin a frame to be passed over: one of sixteen values for the first. -/
def isPassedOver : Bytes → Bool
  | [first, second, third, fourth] =>
    first.toNat / 16 = 5 && second = 0x2a && third = 0x4d && fourth = 0x18
  | _ => false

/-- Reads frames up to the end, within `fuel` frames, none of more than `most` blocks. -/
def frames? (most : Nat) : (fuel : Nat) → Reserve → Place → Option Bytes
  | 0, _, _ => none
  | fuel + 1, held, place => do
    if place.rest.isEmpty then return []
    let (start, place) ← place.take? 4
    -- A frame that is passed over adds nothing to the content.
    if isPassedOver start then
      let (held, place) ← passOver? held place
      frames? most fuel held place
    else if start = magic then
      let ((content, held), place) ← frame? most held place
      let others ← frames? most fuel held place
      return content ++ others
    else none

/-- The content of frames without compressed blocks. -/
def content? : Unframer := fun bytes =>
  -- Every frame and every block takes at least a byte.
  let fuel := bytes.length + 1
  frames? fuel fuel .empty ⟨0, bytes⟩

/-- Plain blocks with all content, within `fuel` blocks; an empty one if there is no content. -/
def plainBlocks : (fuel : Nat) → Bytes → Bytes
  | 0, _ => []
  | fuel + 1, bytes =>
    -- What fits into one block is the last one.
    if bytes.length ≤ blockLimit then Bytes.ofNat 3 (8 * bytes.length + 1) ++ bytes
    else
      Bytes.ofNat 3 (8 * blockLimit) ++ bytes.take blockLimit
        ++ plainBlocks fuel (bytes.drop blockLimit)

/-- A frame of plain blocks that states its size, with a window of one block. -/
def pack (bytes : Bytes) : Bytes :=
  magic ++ [0xc0, 0x38] ++ Bytes.ofNat 8 bytes.length ++ plainBlocks (bytes.length + 1) bytes

end HeapAtlas.Zstd
