import HeapAtlas.Proofs.Snapshot.Columns
import HeapAtlas.Proofs.Snapshot.Rows

/-! Tables are read back from the bytes of the snapshot that is written of them. -/

namespace HeapAtlas.Snapshot

/-- A block of bytes stands at an offset. -/
def Lies (bytes : Bytes) (offset : Nat) (block : Bytes) : Prop :=
  ∃ front rest, bytes = front ++ (block ++ rest) ∧ front.length = offset

variable {bytes block : Bytes} {offset : Nat}

/-- What lies at an offset is read from there. -/
theorem Lies.slice_eq (lies : Lies bytes offset block) {length : Nat}
    (upto : length ≤ block.length) : Bytes.slice bytes offset length = block.take length := by
  obtain ⟨front, rest, rfl, rfl⟩ := lies
  -- Everything before the offset is dropped, and the block comes next.
  unfold Bytes.slice
  rw [List.drop_left, List.take_append_of_le_length upto]

/-- What lies at an offset ends no later than the bytes. -/
theorem Lies.end_le (lies : Lies bytes offset block) : offset + block.length ≤ bytes.length := by
  obtain ⟨front, rest, rfl, rfl⟩ := lies
  simp only [List.length_append]
  omega

/-- A part is read from where it lies. -/
theorem Lies.readBytes (lies : Lies bytes offset block) (small : bytes.length < 2 ^ 64)
    (part : Part) {length : Nat} (upto : length ≤ block.length) :
    readBytes bytes part (UInt64.ofNat offset) length = .ok (block.take length) := by
  have ends := lies.end_le
  -- The block ends with the bytes at the latest, so its offset is a word.
  have word : (UInt64.ofNat offset).toNat = offset := toNat_ofNat64 (by omega)
  unfold Snapshot.readBytes
  rw [word, if_neg (by omega), lies.slice_eq upto]

/-- A table is read from where its rows lie. -/
theorem Lies.readTable {α : Type} [Row α] [LawfulRow α] {rows : List α}
    (lies : Lies bytes offset (putRows rows)) (small : bytes.length < 2 ^ 64)
    (aligned : offset % 8 = 0) (fit : ∀ row ∈ rows, LawfulRow.Fits row) (part : Part) :
    readTable α bytes part ⟨UInt64.ofNat offset, UInt64.ofNat rows.length⟩ = .ok rows := by
  have ends := lies.end_le
  have width : 0 < Row.width α := LawfulRow.width_pos
  -- Every row takes at least a byte, so that the number of rows is a word as well.
  have fewer : rows.length ≤ (putRows rows).length := by
    rw [length_putRows]
    exact Nat.le_mul_of_pos_right _ width
  have place : (UInt64.ofNat offset).toNat = offset := toNat_ofNat64 (by omega)
  have count : (UInt64.ofNat rows.length).toNat = rows.length :=
    toNat_ofNat64 (by omega)
  -- The whole of the rows' bytes is read, and from these the rows are taken.
  have whole : Snapshot.readBytes bytes part (UInt64.ofNat offset) (rows.length * Row.width α)
      = .ok (putRows rows) := by
    have upto : rows.length * Row.width α ≤ (putRows rows).length :=
      Nat.le_of_eq (length_putRows rows).symm
    rw [lies.readBytes small part upto, ← length_putRows, List.take_length]
  have taken : takeRows rows.length (putRows rows) = rows := by
    have back := takeRows_putRows fit []
    rwa [List.append_nil] at back
  unfold Snapshot.readTable
  simp only [place, count, aligned, ne_eq, not_true_eq_false, if_false, whole]
  show Except.ok (takeRows rows.length (putRows rows)) = _
  rw [taken]

/-- Where a place says that a block lies, with its number of rows. -/
def Section.Places (bytes : Bytes) (place : Section) (block : Nat × Bytes) : Prop :=
  ∃ offset, offset % 8 = 0 ∧ Lies bytes offset block.2 ∧
    place = ⟨UInt64.ofNat offset, UInt64.ofNat block.1⟩

/-- Blocks that lie end to end are where their places say. -/
theorem lies_of_placed {blocks : List (Nat × Bytes)} (front rest : Bytes) {offset : Nat}
    (begins : front.length = offset) (aligned : offset % 8 = 0)
    (even : ∀ block ∈ blocks, block.2.length % 8 = 0)
    (whole : bytes = front ++ (blocks.flatMap (·.2) ++ rest)) :
    List.Forall₂ (Section.Places bytes) (placed offset blocks) blocks := by
  -- With each block, what stands in front of the next one grows by it.
  induction blocks generalizing front offset with
  | nil => exact .nil
  | cons block others ih =>
    obtain ⟨count, block⟩ := block
    rw [List.flatMap_cons, List.append_assoc] at whole
    -- The block lies where the cursor stands, and the others behind it.
    refine .cons ⟨offset, aligned, ⟨front, _, whole, begins⟩, rfl⟩
      (ih (front ++ block) ?_ ?_ ?_ ?_)
    · rw [List.length_append, begins]
    · have size : block.length % 8 = 0 := even (count, block) List.mem_cons_self
      omega
    · exact fun other member => even other (List.mem_cons_of_mem _ member)
    · rw [whole, List.append_assoc]

/-- A header takes the bytes that are set aside for it. -/
theorem Header.length_put {header : Header} (digest : header.digest.length = 32) :
    header.put.length = headerSize := by
  -- The parts are 8, 32, 8, 8 and 72 bytes long.
  unfold Header.put
  simp [magic, Bytes.zeros, digest, headerSize]

/-- A snapshot is as long as the header and what follows it. -/
theorem Tables.length_put (tables : Tables) :
    tables.put.length = headerSize + tables.body.length := by
  -- A digest always has its 32 bytes, whatever it is the digest of.
  unfold Tables.put
  rw [List.length_append, Header.length_put (Blake3.length_digest _)]

/-- A header is read back when it speaks of the bytes that it begins. -/
theorem Header.read_put {header : Header} {body : Bytes} (digest : header.digest.length = 32)
    (size : header.fileSize.toNat = headerSize + body.length) :
    Header.read (header.put ++ body) = .ok header := by
  have length : (header.put ++ body).length = headerSize + body.length := by
    rw [List.length_append, Header.length_put digest]
  obtain ⟨sum, directoryOffset, fileSize⟩ := header
  dsimp only at digest size
  -- The parts of the header stand one after another, each at the end of the one before.
  have begins : (Header.mk sum directoryOffset fileSize).put ++ body = magic ++ (sum ++
      (Bytes.ofNat 8 directoryOffset.toNat ++ (Bytes.ofNat 8 fileSize.toNat ++
        (Bytes.zeros 72 ++ body)))) := by
    simp only [Header.put, List.append_assoc]
  have magicLength : magic.length = 8 := rfl
  have first : ((Header.mk sum directoryOffset fileSize).put ++ body).take 8 = magic := by
    rw [begins, List.take_left' magicLength]
  have sums : Bytes.slice ((Header.mk sum directoryOffset fileSize).put ++ body) 8 32 = sum := by
    rw [begins, Bytes.slice_skip (by decide), magicLength, Bytes.slice_zero digest]
  have place : Bytes.word64 ((Header.mk sum directoryOffset fileSize).put ++ body) 40
      = directoryOffset := by
    rw [begins]
    simp [magicLength, digest]
  have total : Bytes.word64 ((Header.mk sum directoryOffset fileSize).put ++ body) 48
      = fileSize := by
    rw [begins]
    simp [magicLength, digest]
  have spare : Bytes.slice ((Header.mk sum directoryOffset fileSize).put ++ body) 56 72
      = Bytes.zeros 72 := by
    have zeros : (Bytes.zeros 72).length = 72 := List.length_replicate
    rw [begins]
    simp [magicLength, digest, Bytes.slice_zero zeros]
  unfold Header.read
  rw [length, first, sums, place, total, spare, if_neg (by omega), if_neg (by simp),
    if_neg (by simp [size]), if_neg (by simp)]

/-- Padding fills bytes up to a multiple of eight. -/
theorem length_padded (bytes : Bytes) : (padded bytes).length % 8 = 0 := by
  unfold padded Bytes.zeros
  rw [List.length_append, List.length_replicate]
  omega

/-- Padding takes nothing away. -/
theorem length_le_padded (bytes : Bytes) : bytes.length ≤ (padded bytes).length := by
  unfold padded
  rw [List.length_append]
  exact Nat.le_add_right _ _

/-- Tables with rows that can be read back from their bytes. -/
structure Tables.Fit (tables : Tables) : Prop where
  classes : ∀ row ∈ tables.classes, LawfulRow.Fits row
  classFields : ∀ row ∈ tables.classFields, LawfulRow.Fits row
  edges : ∀ row ∈ tables.edges, LawfulRow.Fits row
  primitives : ∀ row ∈ tables.primitives, LawfulRow.Fits row
  roots : ∀ row ∈ tables.roots, LawfulRow.Fits row

/-- Every block begins at a multiple of eight, because every block is as long as one. -/
theorem Tables.length_blocks (tables : Tables) :
    ∀ block ∈ tables.blocks, block.2.length % 8 = 0 := by
  -- The width of every kind of row is a multiple of eight, and the names are padded.
  have rows {α : Type} [Row α] [LawfulRow α] (rows : List α) (even : Row.width α % 8 = 0) :
      (putRows rows).length % 8 = 0 := by
    rw [length_putRows, Nat.mul_mod, even, Nat.mul_zero, Nat.zero_mod]
  intro block member
  simp only [Tables.blocks, List.mem_cons, List.not_mem_nil, or_false] at member
  rcases member with rfl | rfl | rfl | rfl | rfl | rfl | rfl | rfl
  · exact rows _ rfl
  · exact length_padded _
  · exact rows _ rfl
  · exact rows _ rfl
  · exact rows _ rfl
  · exact rows _ rfl
  · exact rows _ rfl
  · exact rows _ rfl

/-- A table is read from its place. -/
theorem Section.Places.readTable {α : Type} [Row α] [LawfulRow α] {rows : List α} {place : Section}
    (places : place.Places bytes (rows.length, putRows rows)) (small : bytes.length < 2 ^ 64)
    (fit : ∀ row ∈ rows, LawfulRow.Fits row) (part : Part) :
    readTable α bytes part place = .ok rows := by
  obtain ⟨offset, aligned, lies, rfl⟩ := places
  exact lies.readTable small aligned fit part

/-- Bytes that were padded are read from their place without the padding. -/
theorem Section.Places.readBytes {text : Bytes} {place : Section}
    (places : place.Places bytes (text.length, padded text)) (small : bytes.length < 2 ^ 64)
    (part : Part) : readBytes bytes part place.offset place.count.toNat = .ok text := by
  obtain ⟨offset, _, lies, rfl⟩ := places
  -- The padding stands behind the bytes and is not taken.
  have lies : Lies bytes offset (padded text) := lies
  have upto := length_le_padded text
  have ends := lies.end_le
  have count : (UInt64.ofNat text.length).toNat = text.length := toNat_ofNat64 (by omega)
  show Snapshot.readBytes bytes part (UInt64.ofNat offset) (UInt64.ofNat text.length).toNat = _
  rw [count, lies.readBytes small part upto]
  unfold padded
  rw [List.take_left' rfl]

/-- The snapshot of tables whose rows fit stores these tables. -/
theorem stores_put {tables : Tables} (fit : tables.Fit) (small : tables.put.length < 2 ^ 64) :
    Stores tables.put tables := by
  obtain ⟨header, equal⟩ : ∃ header : Header, header = ⟨Blake3.digest tables.body,
    UInt64.ofNat headerSize, UInt64.ofNat (headerSize + tables.body.length)⟩ := ⟨_, rfl⟩
  -- Of the digest only its length matters, which is the same for all bytes.
  have digest : header.digest.length = 32 := by
    rw [equal]
    exact Blake3.length_digest _
  have whole : tables.put = header.put ++ tables.body := by rw [equal]; rfl
  have headed : header.put.length = headerSize := Header.length_put digest
  have total : header.fileSize.toNat = headerSize + tables.body.length := by
    rw [whole, List.length_append, headed] at small
    rw [equal]
    exact toNat_ofNat64 small
  -- The directory stands right behind the header, and the tables behind the directory.
  obtain ⟨directory, listed⟩ : ∃ directory : Directory, placed (2 * headerSize) tables.blocks =
    [directory.nameSpans, directory.nameBytes, directory.classes, directory.classFields,
      directory.objects, directory.edges, directory.primitives, directory.roots] :=
    ⟨⟨_, _, _, _, _, _, _, _⟩, rfl⟩
  have width : (Row.put directory).length = headerSize := LawfulRow.length_put directory
  have stands : tables.put
      = header.put ++ Row.put directory ++ (tables.blocks.flatMap (·.2) ++ []) := by
    rw [whole, Tables.body, listed, List.append_nil, List.append_assoc]
    rfl
  have begins : (header.put ++ Row.put directory).length = 2 * headerSize := by
    rw [List.length_append, headed, width, Nat.two_mul]
  -- The header says where the directory begins.
  have readDirectory : Directory.read tables.put header = .ok directory := by
    have lies : Lies tables.put headerSize (Row.put directory) :=
      ⟨header.put, _, by rw [stands, List.append_assoc], headed⟩
    have place : header.directoryOffset = UInt64.ofNat headerSize := by rw [equal]
    have back : Row.take (Row.put directory) = directory := by
      rw [← List.append_nil (Row.put directory)]
      exact LawfulRow.take_put directory [] trivial
    unfold Directory.read
    rw [place, lies.readBytes small _ (Nat.le_of_eq width.symm), ← width, List.take_length]
    exact congrArg Except.ok back
  -- The directory says where each block lies, and in this order they are read.
  have lies := lies_of_placed _ [] begins rfl tables.length_blocks stands
  rw [listed] at lies
  simp only [Tables.blocks, List.forall₂_cons] at lies
  obtain ⟨nameSpans, nameBytes, classes, classFields, objects, edges, primitives, roots, _⟩ := lies
  refine ⟨header, directory, ?_, ?_, readDirectory, ?_⟩
  · rw [whole]
    exact Header.read_put digest total
  · rw [whole, List.drop_left' headed, equal]
  · unfold Tables.read
    rw [nameSpans.readTable small (fun _ _ => trivial), nameBytes.readBytes small,
      classes.readTable small fit.classes, classFields.readTable small fit.classFields,
      objects.readTable small (fun _ _ => trivial), edges.readTable small fit.edges,
      primitives.readTable small fit.primitives, roots.readTable small fit.roots]
    rfl

end HeapAtlas.Snapshot
