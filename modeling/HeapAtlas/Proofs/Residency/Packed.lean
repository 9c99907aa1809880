import HeapAtlas.Proofs.Residency.EarlyCheck
import HeapAtlas.Zstd.Frame

/-! A snapshot that was put into frames is loaded as it would be without them. -/

namespace HeapAtlas

namespace Zstd

/-- The bytes in front are taken, and the place moves behind them. -/
theorem Place.take?_append (position : Nat) (front rest : Bytes) :
    Place.take? ⟨position, front ++ rest⟩ front.length =
      some (front, ⟨position + front.length, rest⟩) := by
  simp [Place.take?]

/-- A number that fits into its bytes is read from them. -/
theorem Place.number?_append (position : Nat) {width value : Nat} (fits : value < 256 ^ width)
    (rest : Bytes) : Place.number? ⟨position, Bytes.ofNat width value ++ rest⟩ width =
      some (value, ⟨position + width, rest⟩) := by
  have taken := Place.take?_append position (Bytes.ofNat width value) rest
  rw [Bytes.length_ofNat] at taken
  rw [number?, taken, Option.map_some]
  -- Bytes that are wide enough lose nothing of the number.
  simp only [Bytes.toNat_ofNat, Nat.mod_eq_of_lt fits]

/-- A block that is written plainly is read as what was written. -/
theorem block?_stored (position : Nat) (isLast : Bool) {content : Bytes}
    (small : content.length ≤ blockLimit) (rest : Bytes) :
    block? ⟨position, Bytes.ofNat 3 (8 * content.length + isLast.toNat) ++ (content ++ rest)⟩ =
      some ((isLast, .stored content), ⟨position + 3 + content.length, rest⟩) := by
  have limit : blockLimit = 131072 := rfl
  have bit : isLast.toNat ≤ 1 := Bool.toNat_le isLast
  have fits : 8 * content.length + isLast.toNat < 256 ^ 3 := by omega
  -- The kind of a stored block is zero, and its size stands above kind and flag.
  have descriptor := Place.number?_append position fits (content ++ rest)
  have kind : (8 * content.length + isLast.toNat) / 2 % 4 = 0 := by omega
  have size : (8 * content.length + isLast.toNat) / 8 = content.length := by omega
  have last : decide ((8 * content.length + isLast.toNat) % 2 = 1) = isLast := by
    cases isLast <;> simp <;> omega
  simp only [block?, descriptor, kind, size, last, Option.bind_eq_bind, Option.bind_some]
  rw [Place.take?_append, Option.map_some]

/-- A block that a frame of plain blocks may hold. -/
def Block.IsPlain (block : Block) : Prop := block ≠ .hollow ∧ block.room ≤ Zstd.blockLimit

/-- A block of few bytes is plain. -/
theorem Block.isPlain_stored {content : Bytes} (small : content.length ≤ Zstd.blockLimit) :
    (Block.stored content).IsPlain := ⟨nofun, small⟩

/-- Plain blocks take no fewer bytes than they hold. -/
theorem length_le_plainBlocks (fuel : Nat) (bytes : Bytes) (enough : bytes.length < fuel) :
    bytes.length ≤ (plainBlocks fuel bytes).length := by
  -- The induction is on the blocks to come; every one but the last is full.
  induction fuel generalizing bytes with
  | zero => omega
  | succ fuel ih =>
    rw [plainBlocks]
    split
    next => simp
    next long =>
      have limit : blockLimit = 131072 := rfl
      have others := ih (bytes.drop blockLimit) (by rw [List.length_drop]; omega)
      rw [List.length_drop] at others
      rw [List.length_append, List.length_append, List.length_take]
      omega

/-- Plain blocks are read as blocks with the bytes that were put into them. -/
theorem blocks?_plainBlocks (room fuel position : Nat) (bytes : Bytes)
    (enough : bytes.length < fuel) (within : fuel ≤ room) :
    ∃ blocks stop, blocks? room ⟨position, plainBlocks fuel bytes⟩ = some (blocks, ⟨stop, []⟩) ∧
      (∀ block ∈ blocks, block.IsPlain) ∧ blocks.flatMap Block.content = bytes := by
  -- The induction is on the blocks to come; the reader has room for at least as many.
  induction fuel generalizing room position bytes with
  | zero => omega
  | succ fuel ih =>
    obtain ⟨room, rfl⟩ : ∃ less, room = less + 1 := ⟨room - 1, by omega⟩
    rw [plainBlocks]
    split
    next small =>
      have read := block?_stored position true small []
      rw [List.append_nil, Bool.toNat_true] at read
      refine ⟨[.stored bytes], position + 3 + bytes.length, ?_, ?_, by simp [Block.content]⟩
      · simp only [blocks?, read, Option.bind_eq_bind, Option.bind_some, if_true]
        rfl
      · simpa using Block.isPlain_stored small
    next long =>
      have limit : blockLimit = 131072 := rfl
      have full : (bytes.take blockLimit).length = blockLimit := by
        rw [List.length_take]
        omega
      have read := block?_stored position false (Nat.le_of_eq full)
        (plainBlocks fuel (bytes.drop blockLimit))
      rw [full, Bool.toNat_false, Nat.add_zero, ← List.append_assoc] at read
      obtain ⟨others, stop, rest, plain, content⟩ := ih room (position + 3 + blockLimit)
        (bytes.drop blockLimit) (by rw [List.length_drop]; omega) (by omega)
      refine ⟨.stored (bytes.take blockLimit) :: others, stop, ?_, ?_, ?_⟩
      · simp only [blocks?, read, rest, Option.bind_eq_bind, Option.bind_some]
        rfl
      · exact List.forall_mem_cons.mpr ⟨Block.isPlain_stored (Nat.le_of_eq full), plain⟩
      · rw [List.flatMap_cons, content]
        exact List.take_append_drop ..

/-- The header that is written in front of plain blocks tells a window and the content's size. -/
theorem header?_pack (position : Nat) {size : Nat} (short : size < wordMax) (rest : Bytes) :
    ∃ place, header? ⟨position, [0xc0, 0x38] ++ (Bytes.ofNat 8 size ++ rest)⟩ =
      some (⟨blockLimit, some size⟩, place) ∧ place.rest = rest := by
  have word : size < 256 ^ 8 := Nat.lt_of_lt_of_le short (by decide)
  -- The first two bytes tell that there is a window, no dictionary, and a size of eight bytes.
  have first (tail : Bytes) : Place.number? ⟨position, 0xc0 :: tail⟩ 1 =
      some (192, ⟨position + 1, tail⟩) := rfl
  have second (tail : Bytes) : Place.number? ⟨position + 1, 0x38 :: tail⟩ 1 =
      some (56, ⟨position + 2, tail⟩) := rfl
  have window : window? 56 = some blockLimit := by decide
  have dictionary (place : Place) : noDictionary? 0 place = some place := rfl
  have stated := Place.number?_append (position + 2) word rest
  refine ⟨⟨position + 2 + 8, rest⟩, ?_, rfl⟩
  simp [header?, first, second, window, dictionary, contentSize?, stated, Nat.ne_of_lt short]

/-- A header that states the size of plain blocks accepts them, streamed through any buffers. -/
theorem Header.streamed?_plain {blocks : List Block} {bytes : Bytes} (buffers : Buffers)
    (plain : ∀ block ∈ blocks, block.IsPlain) (content : blocks.flatMap Block.content = bytes) :
    Header.streamed? ⟨Zstd.blockLimit, some bytes.length⟩ buffers blocks = some bytes := by
  have window : ¬ windowLimit < Zstd.blockLimit := by decide
  have rooms : blocks.any (Zstd.blockLimit < ·.room) = false := by
    rw [List.any_eq_false]
    intro block member
    simpa using (plain block member).2
  have fits : (decide (bytes.length ≤ buffers.content) && decide (buffers.content < bytes.length))
      = false := by
    simp
  -- Plain blocks need no more room than the header allows.
  simp [streamed?, content, window, rooms, Header.blockLimit, fits]

/-- A header that states the size of plain blocks accepts them when they are read whole. -/
theorem Header.whole?_plain {blocks : List Block} {bytes : Bytes}
    (plain : ∀ block ∈ blocks, block.IsPlain) (content : blocks.flatMap Block.content = bytes) :
    Header.whole? ⟨Zstd.blockLimit, some bytes.length⟩ blocks = some bytes := by
  have solid : .hollow ∉ blocks := fun member => (plain .hollow member).1 rfl
  simp [whole?, content, solid]

/-- A frame of plain blocks is read up to its end, whatever buffers are at hand. -/
theorem frame?_pack (room : Nat) (held : Reserve) (position : Nat) {bytes : Bytes}
    (short : bytes.length < wordMax) (enough : bytes.length < room) :
    ∃ later place, frame? room held ⟨position, [0xc0, 0x38] ++ (Bytes.ofNat 8 bytes.length ++
      plainBlocks (bytes.length + 1) bytes)⟩ = some ((bytes, later), place) ∧ place.rest = [] := by
  obtain ⟨⟨middle, rest⟩, header, rfl⟩ := header?_pack position short
    (plainBlocks (bytes.length + 1) bytes)
  obtain ⟨blocks, stop, read, plain, content⟩ := blocks?_plainBlocks room (bytes.length + 1) middle
    bytes (Nat.lt_succ_self _) enough
  simp only [frame?, header, read, Option.bind_eq_bind, Option.bind_some,
    Header.whole?_plain plain content, Header.streamed?_plain _ plain content]
  -- Whether the frame is read at once or in a stream, its blocks give the same bytes.
  split
  · exact ⟨_, _, rfl, rfl⟩
  · exact ⟨_, _, rfl, rfl⟩

/-- One frame of plain blocks is all that is read where there is room for a second one. -/
theorem frames?_pack {most : Nat} (room : Nat) {bytes : Bytes} (short : bytes.length < wordMax)
    (enough : bytes.length < most) :
    frames? most (room + 2) .empty ⟨0, pack bytes⟩ = some bytes := by
  obtain ⟨later, ⟨stop, _⟩, read, rfl⟩ := frame?_pack most .empty 4 short enough
  have start := Place.take?_append 0 magic ([0xc0, 0x38] ++ (Bytes.ofNat 8 bytes.length ++
    plainBlocks (bytes.length + 1) bytes))
  have present (rest : Bytes) : (magic ++ rest).isEmpty = false := rfl
  have passed : isPassedOver magic = false := by decide
  have four : magic.length = 4 := rfl
  rw [four, Nat.zero_add] at start
  -- The second room finds that nothing is left.
  simp only [frames?, pack, List.append_assoc, present, start, passed, read, if_true,
    Option.bind_eq_bind, Option.bind_some, List.isEmpty_nil, Bool.false_eq_true, if_false]
  exact congrArg some (List.append_nil bytes)

/-- What is put into plain blocks is told from plain bytes, and is given back. -/
theorem lossless_content : Lossless pack content? := by
  constructor
  · intro bytes _
    rw [sniff, pack, List.append_assoc, List.append_assoc, if_pos (by simp)]
  · intro bytes short
    -- Each byte takes at least one in the frame, so the length of the frame is room enough.
    have within : bytes.length + 4 ≤ (pack bytes).length := by
      have blocks := length_le_plainBlocks (bytes.length + 1) bytes (Nat.lt_succ_self _)
      simp only [pack, List.length_append, magic, List.length_cons]
      omega
    obtain ⟨room, more⟩ : ∃ room, (pack bytes).length = room + 1 :=
      ⟨(pack bytes).length - 1, by omega⟩
    rw [content?, more]
    exact frames?_pack room short (by omega)

end Zstd

/-- No snapshot begins like a frame. -/
theorem Snapshot.sniff_of_decode {bytes : Bytes} {graph : HeapGraph}
    (accepted : decode bytes = .ok graph) : Zstd.sniff bytes = .plain := by
  obtain ⟨_, _, stores, _⟩ := decode_eq_ok_iff.mp accepted
  have begins := (stores_iff.mp stores).1.magic_eq
  have differs : ¬ Zstd.magic.isPrefixOf bytes := by
    rw [List.isPrefixOf_iff_prefix, List.prefix_iff_eq_take]
    intro same
    -- The first four of eight bytes are told by the eight.
    have four : bytes.take 4 = (bytes.take 8).take 4 := by rw [List.take_take]; rfl
    rw [begins] at four
    exact absurd (same.trans four) (by decide)
  rw [Zstd.sniff, if_neg differs]

namespace SnapshotCache

variable {σ τ : Type} [SnapshotSource σ] [SnapshotSource τ] {one : σ} {other : τ} {key : String}
  {options : AnalysisOptions} {unframe : Zstd.Unframer}

/-- A load gives what the analysis of the fetched snapshot gives, wherever it was fetched. -/
theorem load_of_fetch {first second : StoredSnapshot}
    (fetched : (SnapshotSource.fetch one key).1 = .ok first)
    (fetchedToo : (SnapshotSource.fetch other key).1 = .ok second)
    (same : first.analyse unframe key options = second.analyse unframe key options)
    (analyses : Array HeapAnalysis) :
    (load unframe options key (one, analyses)).1 =
        (load unframe options key (other, analyses)).1 ∧
      (load unframe options key (one, analyses)).2.2 =
        (load unframe options key (other, analyses)).2.2 := by
  -- A load reads the source only to analyse what it has fetched.
  have answer :
      Except.bind (SnapshotSource.fetch one key).1
          (fun stored => stored.analyse unframe key options) =
        Except.bind (SnapshotSource.fetch other key).1
          fun stored => stored.analyse unframe key options := by
    rw [fetched, fetchedToo]
    exact same
  simp only [load, answer]
  split <;> exact ⟨rfl, rfl⟩

/--
A snapshot is loaded alike whether it is stored as it is or was put into frames.

All that is asked of the frames is that they give back what was put into them.
-/
theorem load_pack {pack : Bytes → Bytes} (lossless : Zstd.Lossless pack unframe) {bytes : Bytes}
    {graph : HeapGraph} (accepted : Snapshot.decode bytes = .ok graph)
    (short : bytes.length < wordMax) {layout : Option Bytes}
    (packed : (SnapshotSource.fetch one key).1 = .ok ⟨pack bytes, layout⟩)
    (bare : (SnapshotSource.fetch other key).1 = .ok ⟨bytes, layout⟩)
    (analyses : Array HeapAnalysis) :
    (load unframe options key (one, analyses)).1 =
        (load unframe options key (other, analyses)).1 ∧
      (load unframe options key (one, analyses)).2.2 =
        (load unframe options key (other, analyses)).2.2 := by
  -- Both snapshots are the same bytes once they are unpacked.
  refine load_of_fetch packed bare ?_ analyses
  rw [StoredSnapshot.analyse, StoredSnapshot.analyse, lossless.plain?_pack short,
    Zstd.plain?_of_plain (Snapshot.sniff_of_decode accepted)]

end SnapshotCache

end HeapAtlas
