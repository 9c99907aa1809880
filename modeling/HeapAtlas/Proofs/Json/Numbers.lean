import Mathlib.Data.List.Forall2
import Mathlib.Data.List.Flatten
import HeapAtlas.Proofs.Json.Texts

/-! Whole numbers: what is written of a word is read as the word. -/

namespace HeapAtlas.JsonText

/-- The bytes that may stand behind a value. -/
def closers : Bytes := [ascii ' ', ascii '\n', ascii '\t', ascii '\r', ascii ',', ascii ']',
  ascii '\x7d']

/-- What follows a value: nothing, or a byte that belongs to no number. -/
def Ends (rest : Bytes) : Prop := ∀ byte ∈ rest.head?, byte ∈ closers

/-! ### Digits -/

/-- What may stand behind a number is no digit of it. -/
theorem isDigit_of_mem_closers {byte : UInt8} (among : byte ∈ closers) : isDigit byte = false := by
  have none_ : closers.all (fun byte => !isDigit byte) = true := by decide
  simpa using List.all_eq_true.mp none_ byte among

/-- The number that digits write. -/
def valueOf (start : Nat) (digits : List Nat) : Nat :=
  digits.foldl (fun value digit => value * 10 + digit) start

/-- One more digit at the end moves the others up by one place. -/
theorem valueOf_concat (start : Nat) (digits : List Nat) (last : Nat) :
    valueOf start (digits ++ [last]) = valueOf start digits * 10 + last := by
  rw [valueOf, List.foldl_append]
  rfl

/-- The digits that a number is written with: a zero in front stands alone. -/
structure IsDecimal (digits : List Nat) (value : Nat) : Prop where
  some_ : digits ≠ []
  small : ∀ digit ∈ digits, digit < 10
  value_eq : valueOf 0 digits = value
  lead : digits.head? = some 0 → digits = [0]

/-- One more digit stands behind those of a number that is not zero. -/
theorem IsDecimal.concat {digits : List Nat} {value last : Nat} (decimal : IsDecimal digits value)
    (positive : 0 < value) (small : last < 10) :
    IsDecimal (digits ++ [last]) (value * 10 + last) where
  some_ := by simp
  small := List.forall_mem_append.mpr ⟨decimal.small, List.forall_mem_singleton.mpr small⟩
  value_eq := by rw [valueOf_concat, decimal.value_eq]
  lead := by
    -- A zero in front would be alone in front of the new digit, and the number would be zero.
    intro zero
    rw [List.head?_append_of_ne_nil _ decimal.some_] at zero
    have value_eq := decimal.value_eq
    rw [decimal.lead zero] at value_eq
    exact absurd positive (value_eq ▸ Nat.lt_irrefl 0)

/-- A number is written with its digits. -/
theorem exists_isDecimal (n : Nat) :
    ∃ digits, IsDecimal digits n ∧ Nat.toDigits 10 n = digits.map Nat.digitChar := by
  induction n using Nat.strongRecOn with
  | ind n ih =>
    by_cases small : n < 10
    · refine ⟨[n], ⟨by simp, by simpa using small, by simp [valueOf], by simp⟩, ?_⟩
      rw [Nat.toDigits_of_lt_base small]
      rfl
    · -- The last digit stands behind those of what is left without it.
      have positive : 0 < n / 10 := by omega
      have last : n % 10 < 10 := Nat.mod_lt n (by decide)
      obtain ⟨digits, decimal, written⟩ := ih (n / 10) (by omega)
      have split := Nat.toDigits_append_toDigits (b := 10) (by decide) positive last
      rw [Nat.toDigits_of_lt_base last, Nat.div_add_mod, written] at split
      have decimal := decimal.concat positive last
      rw [Nat.div_add_mod'] at decimal
      exact ⟨digits ++ [n % 10], decimal, by rw [← split, List.map_append]; rfl⟩

/-- More digits do not make a number smaller. -/
theorem le_valueOf (start : Nat) (digits : List Nat) : start ≤ valueOf start digits := by
  induction digits generalizing start with
  | nil => exact Nat.le_refl start
  | cons digit digits ih => exact Nat.le_trans (by omega) (ih (start * 10 + digit))

/-- There is room for all digits of a word. -/
theorem extend_eq {start : Nat} {digits : List Nat} (within : valueOf start digits ≤ wordMax) :
    extend start digits = (valueOf start digits, digits.length) := by
  -- What is read so far is no more than the whole, so that no digit is without room.
  induction digits generalizing start with
  | nil => rfl
  | cons digit digits ih =>
    have room : ¬ wordMax < start * 10 + digit :=
      Nat.not_lt.mpr (Nat.le_trans (le_valueOf _ digits) within)
    rw [extend, if_neg room, ih within]
    rfl

/-- The byte of a digit. -/
def digitByte (digit : Nat) : UInt8 := ascii (Nat.digitChar digit)

/-- Digits are written as one byte each. -/
theorem ofChars_digits {digits : List Nat} (small : ∀ digit ∈ digits, digit < 10) :
    Bytes.ofChars (digits.map Nat.digitChar) = digits.map digitByte := by
  have one : ∀ digit < 10, String.utf8EncodeChar (Nat.digitChar digit) = [digitByte digit] := by
    decide
  rw [Bytes.ofChars, List.flatMap_map, List.map_eq_flatMap]
  exact List.flatMap_congr fun digit member => one digit (small digit member)

/-- A written digit is read back. -/
theorem digit?_digitByte : ∀ digit < 10, digit? (digitByte digit) = some digit := by decide

/-- The digits in front are those up to a byte that is none. -/
theorem takeDigits {digits : List Nat} (small : ∀ digit ∈ digits, digit < 10) {rest : Bytes}
    (ends : Ends rest) :
    digitsOf (digits.map digitByte ++ rest) = digits ∧
      afterDigits (digits.map digitByte ++ rest) = rest := by
  -- Dropping goes through the digits and stops at what follows.
  have isDigit_ : ∀ byte ∈ digits.map digitByte, isDigit byte = true := by
    intro byte member
    obtain ⟨digit, held, rfl⟩ := List.mem_map.mp member
    rw [isDigit, digit?_digitByte digit (small digit held)]
    rfl
  have stops : rest.takeWhile isDigit = [] ∧ rest.dropWhile isDigit = rest := by
    cases rest with
    | nil => exact ⟨rfl, rfl⟩
    | cons byte rest => simp [isDigit_of_mem_closers (ends byte rfl)]
  rw [digitsOf, afterDigits, List.takeWhile_append_of_pos isDigit_,
    List.dropWhile_append_of_pos isDigit_, stops.1, stops.2, List.append_nil, List.filterMap_map]
  have read : digits.filterMap (digit? ∘ digitByte) = digits.filterMap some :=
    List.filterMap_congr fun digit held => digit?_digitByte digit (small digit held)
  exact ⟨by rw [read, List.filterMap_some], rfl⟩

/-! ### Words -/

/-- The written digits of a number. -/
theorem toList_toString (n : Nat) : (toString (n : Int)).toList = Nat.toDigits 10 n :=
  String.toList_ofList

/-- The digits of a number that is no more than a word are read as the word. -/
theorem number_digits {digits : List Nat} {value : Nat} (decimal : IsDecimal digits value)
    (within : value ≤ wordMax) {rest : Bytes} (ends : Ends rest) :
    number false (digits.map digitByte ++ rest) = .ok (.word (UInt64.ofNat value), rest) := by
  obtain ⟨taken, left⟩ := takeDigits decimal.small ends
  obtain ⟨some_, small, value_eq, lead⟩ := decimal
  obtain ⟨digit, digits, rfl⟩ := List.exists_cons_of_ne_nil some_
  have known := digit?_digitByte digit (small digit List.mem_cons_self)
  have isDigit_ : isDigit (digitByte digit) = true := by rw [isDigit, known]; rfl
  have alone : ¬ (digitByte digit = ascii '0' ∧ 1 < (digit :: digits).length) := by
    rintro ⟨zero, long⟩
    have first : some digit = some 0 := by rw [← known, zero]; rfl
    rw [lead first] at long
    exact absurd long (by decide)
  have extended : extend 0 (digit :: digits) = (value, (digit :: digits).length) := by
    rw [extend_eq (value_eq ▸ within), value_eq]
  rw [List.map_cons, List.cons_append] at taken left ⊢
  -- All digits have room, so that the exponent is zero.
  have whole : wholeNumber false value 0 rest = .ok (.word (UInt64.ofNat value), rest) := by
    rw [wholeNumber, if_neg (by simp)]
  simp only [number, isDigit_, taken, left, if_neg alone, extended, Nat.sub_self, Bool.not_true,
    Bool.false_eq_true, if_false]
  cases rest with
  | nil => exact whole
  | cons byte rest =>
    -- What follows is no point and no exponent.
    have other {mark : UInt8} (apart : mark ∉ closers) : byte ≠ mark :=
      ne_of_mem_of_not_mem (ends byte rfl) apart
    have noExponent : ¬ (byte = ascii 'e' ∨ byte = ascii 'E') :=
      not_or.mpr ⟨other (by decide), other (by decide)⟩
    dsimp only
    rw [if_neg (other (by decide)), if_neg noExponent]
    exact whole

/-- A word is read back from its digits, of which there is a first one. -/
theorem number_written (word : UInt64) {rest : Bytes} (ends : Ends rest) :
    ∃ first others, Bytes.ofChars (Nat.toDigits 10 word.toNat) = first :: others ∧
      isDigit first = true ∧ number false (first :: others ++ rest) = .ok (.word word, rest) := by
  obtain ⟨digits, decimal, written⟩ := exists_isDecimal word.toNat
  have read := number_digits decimal (Nat.le_of_lt_succ word.toNat_lt) ends
  rw [UInt64.ofNat_toNat] at read
  rw [written, ofChars_digits decimal.small]
  -- Every number has a digit, and that tells the reader what it is at.
  obtain ⟨digit, digits, rfl⟩ := List.exists_cons_of_ne_nil decimal.some_
  refine ⟨digitByte digit, digits.map digitByte, rfl, ?_, read⟩
  rw [isDigit, digit?_digitByte digit (decimal.small digit List.mem_cons_self)]
  rfl

end HeapAtlas.JsonText
