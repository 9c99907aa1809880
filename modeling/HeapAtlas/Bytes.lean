/-! Byte sequences: little-endian numbers, slices and UTF-8 text. -/

namespace HeapAtlas

/-- A sequence of bytes. -/
abbrev Bytes := List UInt8

namespace Bytes

/-- The lowest `width` bytes of a number, the lowest first. -/
def ofNat : (width value : Nat) → Bytes
  | 0, _ => []
  | width + 1, value => UInt8.ofNat value :: ofNat width (value / 256)

/-- The number that bytes write, the lowest first. -/
def toNat : Bytes → Nat
  | [] => 0
  | byte :: rest => byte.toNat + 256 * toNat rest

/-- Bytes that are zero. -/
def zeros (count : Nat) : Bytes := List.replicate count 0

/-- The `count` bytes from an offset on, fewer at the end. -/
def slice (bytes : Bytes) (offset count : Nat) : Bytes := (bytes.drop offset).take count

/-- The 64-bit word at an offset. -/
def word64 (bytes : Bytes) (offset : Nat) : UInt64 := UInt64.ofNat (toNat (slice bytes offset 8))

/-- The 32-bit word at an offset. -/
def word32 (bytes : Bytes) (offset : Nat) : UInt32 := UInt32.ofNat (toNat (slice bytes offset 4))

/-- The byte at an offset. -/
def byteAt (bytes : Bytes) (offset : Nat) : UInt8 := bytes.getD offset 0

/-- The bytes of a text in UTF-8. -/
def ofText (text : String) : Bytes := text.toUTF8.data.toList

/-- The text that bytes write in UTF-8, if they do. -/
def text? (bytes : Bytes) : Option String := String.fromUTF8? ⟨bytes.toArray⟩

/-- A number takes as many bytes as it is wide. -/
@[simp] theorem length_ofNat (width value : Nat) : (ofNat width value).length = width := by
  -- Every step writes one byte.
  induction width generalizing value with
  | zero => rfl
  | succ width ih => simp [ofNat, ih]

/-- A text has as many bytes as it says. -/
theorem length_ofText (text : String) : (ofText text).length = text.utf8ByteSize := by
  unfold ofText
  simp

/-- A text is read back from its bytes. -/
theorem text?_ofText (text : String) : text? (ofText text) = some text := by
  -- The bytes of a text are valid by its type, so the check passes and gives the text again.
  simp only [text?, ofText, Array.toArray_toList, String.fromUTF8?]
  exact dif_pos text.isValidUTF8

end Bytes

end HeapAtlas
