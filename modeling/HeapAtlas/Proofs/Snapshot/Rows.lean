import Mathlib.Algebra.Order.Ring.Nat
import HeapAtlas.Snapshot.Layout

/-! Rows are read back from their bytes, whatever stands behind these. -/

namespace HeapAtlas

namespace Bytes

/-- A number is read back from its bytes when they are enough. -/
theorem toNat_ofNat (width value : Nat) : toNat (ofNat width value) = value % 256 ^ width := by
  induction width generalizing value with
  | zero => simp [ofNat, toNat, Nat.mod_one]
  | succ width ih =>
    -- The first byte is the remainder by 256, and the rest is the quotient's.
    simp only [ofNat, toNat, ih, UInt8.toNat_ofNat', Nat.pow_succ']
    exact Nat.mod_mul.symm

variable {head rest : Bytes} {offset count : Nat}

/-- Bytes in front of an offset are not looked at. -/
@[simp] theorem drop_skip (before : head.length ≤ offset) :
    (head ++ rest).drop offset = rest.drop (offset - head.length) := by
  -- Dropping up to the offset takes all of the first bytes away.
  rw [List.drop_append, List.drop_of_length_le before, List.nil_append]

/-- A slice behind the first bytes is one of the rest. -/
@[simp] theorem slice_skip (before : head.length ≤ offset) :
    slice (head ++ rest) offset count = slice rest (offset - head.length) count := by
  unfold slice
  rw [drop_skip before]

/-- A 64-bit word behind the first bytes is one of the rest. -/
@[simp] theorem word64_skip (before : head.length ≤ offset) :
    word64 (head ++ rest) offset = word64 rest (offset - head.length) := by
  unfold word64
  rw [slice_skip before]

/-- A 32-bit word behind the first bytes is one of the rest. -/
@[simp] theorem word32_skip (before : head.length ≤ offset) :
    word32 (head ++ rest) offset = word32 rest (offset - head.length) := by
  unfold word32
  rw [slice_skip before]

/-- A byte behind the first bytes is one of the rest. -/
@[simp] theorem byteAt_skip (before : head.length ≤ offset) :
    byteAt (head ++ rest) offset = byteAt rest (offset - head.length) := by
  unfold byteAt
  rw [List.getD_eq_getElem?_getD, List.getD_eq_getElem?_getD, List.getElem?_append_right before]

/-- The first byte stands at the first offset. -/
@[simp] theorem byteAt_zero {byte : UInt8} : byteAt (byte :: rest) 0 = byte := rfl

/-- A byte behind the first is one of the rest. -/
@[simp] theorem byteAt_succ {byte : UInt8} :
    byteAt (byte :: rest) (offset + 1) = byteAt rest offset := rfl

/-- A slice behind the first byte is one of the rest. -/
@[simp] theorem slice_succ {byte : UInt8} :
    slice (byte :: rest) (offset + 1) count = slice rest offset count := rfl

/-- The slice of the first bytes is these. -/
theorem slice_zero (length : head.length = count) : slice (head ++ rest) 0 count = head := by
  unfold slice
  rw [List.drop_zero, List.take_left' length]

/-- A number is read back from the bytes that it is written in. -/
theorem toNat_slice {width value : Nat} (fits : value < 256 ^ width) :
    toNat (slice (ofNat width value ++ rest) 0 width) = value := by
  -- The bytes of the number are cut out before they are read.
  rw [slice_zero (length_ofNat width value), toNat_ofNat, Nat.mod_eq_of_lt fits]

/-- A 64-bit word is read back from its bytes. -/
@[simp] theorem word64_put (word : UInt64) : word64 (ofNat 8 word.toNat ++ rest) 0 = word := by
  unfold word64
  rw [toNat_slice word.toNat_lt, UInt64.ofNat_toNat]

/-- A 32-bit word is read back from its bytes. -/
@[simp] theorem word32_put (word : UInt32) : word32 (ofNat 4 word.toNat ++ rest) 0 = word := by
  unfold word32
  rw [toNat_slice word.toNat_lt, UInt32.ofNat_toNat]

end Bytes

namespace Snapshot

/-- A number below the words' limit is the number of its 64-bit word. -/
theorem toNat_ofNat64 {value : Nat} (small : value < 2 ^ 64) : (UInt64.ofNat value).toNat = value :=
  UInt64.toNat_ofNat_of_lt' small

/-- A number below the limit of 32-bit words is the number of its word. -/
theorem toNat_ofNat32 {value : Nat} (small : value < 2 ^ 32) : (UInt32.ofNat value).toNat = value :=
  UInt32.toNat_ofNat_of_lt' small

/-- A kind of row with bytes of the right number, from which it is read back. -/
class LawfulRow (α : Type) [Row α] where
  Fits : α → Prop
  width_pos : 0 < Row.width α
  length_put : ∀ row : α, (Row.put row).length = Row.width α
  take_put : ∀ (row : α) (rest : Bytes), Fits row → Row.take (Row.put row ++ rest) = row

instance : LawfulRow Span where
  Fits _ := True
  width_pos := by decide
  length_put row := by simp [Row.put, Row.width]
  take_put row rest _ := by simp [Row.put, Row.take]

instance : LawfulRow Section where
  Fits _ := True
  width_pos := by decide
  length_put row := by simp [Row.put, Row.width]
  take_put row rest _ := by simp [Row.put, Row.take]

instance : LawfulRow StoredClass where
  Fits row := row.spare < 256 ^ 3
  width_pos := by decide
  length_put row := by simp [Row.put, Row.width]
  take_put row rest fits := by
    simp only [Row.put, Row.take, List.append_assoc]
    simp [Bytes.toNat_slice fits]

instance : LawfulRow StoredField where
  Fits row := row.spare < 256 ^ 4
  width_pos := by decide
  length_put row := by simp [Row.put, Row.width]
  take_put row rest fits := by
    simp only [Row.put, Row.take, List.append_assoc]
    simp [Bytes.toNat_slice fits]

instance : LawfulRow StoredObject where
  Fits _ := True
  width_pos := by decide
  length_put row := by simp [Row.put, Row.width]
  take_put row rest _ := by
    simp only [Row.put, Row.take, List.append_assoc]
    simp

instance : LawfulRow StoredEdge where
  Fits row := row.spare < 256 ^ 2
  width_pos := by decide
  length_put row := by simp [Row.put, Row.width]
  take_put row rest fits := by
    simp only [Row.put, Row.take, List.append_assoc]
    simp [Bytes.toNat_slice fits]

instance : LawfulRow StoredPrimitive where
  Fits row := row.spare < 256 ^ 3
  width_pos := by decide
  length_put row := by simp [Row.put, Row.width]
  take_put row rest fits := by
    simp only [Row.put, Row.take, List.append_assoc]
    simp [Bytes.toNat_slice fits]

instance : LawfulRow StoredRoot where
  Fits row := row.spare < 256 ^ 7
  width_pos := by decide
  length_put row := by simp [Row.put, Row.width]
  take_put row rest fits := by
    simp only [Row.put, Row.take, List.append_assoc]
    simp [Bytes.toNat_slice fits]

section Tables

variable {α : Type} [Row α] [LawfulRow α]

/-- A table takes the width of its rows for each of them. -/
@[simp] theorem length_putRows (rows : List α) :
    (putRows rows).length = rows.length * Row.width α := by
  unfold putRows
  -- Every row adds the same number of bytes.
  induction rows with
  | nil => simp
  | cons row rest ih =>
    rw [List.flatMap_cons, List.length_append, LawfulRow.length_put, ih, List.length_cons,
      Nat.succ_mul, Nat.add_comm]

/-- The rows of a table are read back from its bytes. -/
theorem takeRows_putRows {rows : List α} (fit : ∀ row ∈ rows, LawfulRow.Fits row) (rest : Bytes) :
    takeRows rows.length (putRows rows ++ rest) = rows := by
  -- The first row takes its width, and the others stand right behind it.
  induction rows with
  | nil => rfl
  | cons row others ih =>
    have split : putRows (row :: others) ++ rest = Row.put row ++ (putRows others ++ rest) := by
      rw [putRows, List.flatMap_cons, List.append_assoc]
      rfl
    -- Every row has the width of its kind, whatever is in it.
    have width : (Row.put row).length = Row.width α := LawfulRow.length_put row
    have first : Row.take ((Row.put row ++ (putRows others ++ rest)).take (Row.width α)) = row := by
      rw [List.take_left' width, ← List.append_nil (Row.put row)]
      exact LawfulRow.take_put row [] (fit row List.mem_cons_self)
    rw [split, List.length_cons, takeRows, first, List.drop_left' width,
      ih fun other member => fit other (List.mem_cons_of_mem _ member)]

end Tables

instance : LawfulRow Directory where
  Fits _ := True
  width_pos := by decide
  length_put row := by
    simp only [Row.put, length_putRows]
    rfl
  take_put row rest _ := by
    simp only [Row.put, Row.take, putRows, List.flatMap_cons, List.flatMap_nil, List.append_assoc]
    simp

end Snapshot

end HeapAtlas
