import HeapAtlas.Bytes
import HeapAtlas.Capped

/-!
Bytes that stand in Zstandard frames or are plain, which the first four tell.

What takes the content out of frames is not told here. Whoever needs it is given it, and relies on
no more than that it gives back what was put into them.
-/

namespace HeapAtlas.Zstd

/-- The bytes that a frame begins with. -/
def magic : Bytes := [0x28, 0xb5, 0x2f, 0xfd]

/-- Whether bytes stand in a frame, which their first four show, or are plain. -/
inductive Packing where
  | plain | zstd
  deriving DecidableEq, Repr

/-- The name of a packing. -/
def Packing.name : Packing → String
  | plain => "none" | zstd => "zstd"

/-- Tells the packing from the first bytes. -/
def sniff (bytes : Bytes) : Packing := if magic.isPrefixOf bytes then .zstd else .plain

/-- Takes the content out of bytes that are nothing but frames, one behind the other. -/
abbrev Unframer := Bytes → Option Bytes

/-- The plain bytes: frames are taken off by `unframe`, and other bytes stay as they are. -/
def plain? (unframe : Unframer) (bytes : Bytes) : Option Bytes :=
  match sniff bytes with
  | .plain => some bytes
  -- Bytes that only begin like a frame are refused here, and not taken for plain ones.
  | .zstd => unframe bytes

/-- What `pack` puts into frames is told from plain bytes, and `unframe` gives it back. -/
structure Lossless (pack : Bytes → Bytes) (unframe : Unframer) : Prop where
  sniff_pack : ∀ bytes : Bytes, bytes.length < wordMax → sniff (pack bytes) = .zstd
  unframe_pack : ∀ bytes : Bytes, bytes.length < wordMax → unframe (pack bytes) = some bytes

/-- Plain bytes need nothing that takes frames off. -/
theorem plain?_of_plain {bytes : Bytes} (plain : sniff bytes = .plain) (unframe : Unframer) :
    plain? unframe bytes = some bytes := by
  rw [plain?, plain]

/-- Bytes that were put into frames come out of them again. -/
theorem Lossless.plain?_pack {pack : Bytes → Bytes} {unframe : Unframer}
    (lossless : Lossless pack unframe) {bytes : Bytes} (short : bytes.length < wordMax) :
    plain? unframe (pack bytes) = some bytes := by
  rw [plain?, lossless.sniff_pack bytes short]
  exact lossless.unframe_pack bytes short

end HeapAtlas.Zstd
