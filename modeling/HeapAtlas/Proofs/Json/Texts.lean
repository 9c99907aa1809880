import HeapAtlas.Json.Lexer
import HeapAtlas.Json.Value

/-! Texts between marks: what is written with escapes is read back. -/

namespace HeapAtlas

/-- Characters in UTF-8. -/
def Bytes.ofChars (chars : List Char) : Bytes := chars.flatMap String.utf8EncodeChar

namespace Bytes

/-- No characters take no bytes. -/
@[simp] theorem ofChars_nil : ofChars [] = [] := rfl

/-- The bytes of the first character come first. -/
@[simp] theorem ofChars_cons (c : Char) (chars : List Char) :
    ofChars (c :: chars) = String.utf8EncodeChar c ++ ofChars chars := List.flatMap_cons

/-- The bytes of characters one behind the other. -/
@[simp] theorem ofChars_append (front back : List Char) :
    ofChars (front ++ back) = ofChars front ++ ofChars back := List.flatMap_append

/-- The bytes of a text are those of its characters. -/
theorem ofText_ofList (chars : List Char) : ofText (String.ofList chars) = ofChars chars := by
  rw [ofText, String.toUTF8_eq_toByteArray, String.toByteArray_ofList, List.utf8Encode,
    List.data_toByteArray, List.toList_toArray, ofChars]

end Bytes

namespace JsonText

/-- ASCII characters have one byte each. -/
theorem utf8EncodeChar_of_ascii {c : Char} (low : c.toNat < 128) :
    String.utf8EncodeChar c = [ascii c] := by
  rw [String.utf8EncodeChar]
  exact if_pos (Nat.le_of_lt_succ low)

/-- All bytes of other characters lie above ASCII. -/
theorem le_of_mem_utf8EncodeChar {c : Char} (high : 128 ≤ c.toNat) :
    ∀ byte ∈ String.utf8EncodeChar c, 128 ≤ byte.toNat := by
  -- Each byte has a mark in its high bits, which the digits below leave alone.
  have marked (digit mark : Nat) (low : 128 ≤ mark) (fits : digit + mark < 256) :
      128 ≤ (UInt8.ofNat (digit + mark)).toNat := by
    rw [UInt8.toNat_ofNat_of_lt' fits]
    omega
  have notLow : ¬ c.val.toNat ≤ 127 := Nat.not_le.mpr high
  simp only [String.utf8EncodeChar, if_neg notLow]
  split
  · simp only [List.forall_mem_cons]
    exact ⟨marked _ _ (by omega) (by omega), marked _ _ (by omega) (by omega), nofun⟩
  split
  · simp only [List.forall_mem_cons]
    exact ⟨marked _ _ (by omega) (by omega), marked _ _ (by omega) (by omega),
      marked _ _ (by omega) (by omega), nofun⟩
  · simp only [List.forall_mem_cons]
    exact ⟨marked _ _ (by omega) (by omega), marked _ _ (by omega) (by omega),
      marked _ _ (by omega) (by omega), marked _ _ (by omega) (by omega), nofun⟩

/-! ### Written texts -/

/-- The bytes that stand for themselves between quotation marks. -/
def IsPlain (byte : UInt8) : Prop := byte ≠ ascii '"' ∧ byte ≠ ascii '\\' ∧ ¬ byte < 0x20

/-- A character of a byte is itself in UTF-8. -/
theorem utf8_toNat (c : Char) : utf8 c.toNat = String.utf8EncodeChar c := by
  rw [utf8, Char.ofNat_toNat, String.singleton_eq_ofList, Bytes.ofText_ofList]
  simp

/-- Four hexadecimal digits, of which the first two are zero, are read back. -/
theorem hexWord_written {high low : Nat} (highDigit : high < 16) (lowDigit : low < 16)
    (rest : Bytes) :
    hexWord (Bytes.ofChars ['0', '0', JsonValue.hexDigit high, JsonValue.hexDigit low] ++ rest) =
      .ok (high * 16 + low, rest) := by
  -- There are sixteen digits, each of which is tried.
  have digit : ∀ d < 16, String.utf8EncodeChar (JsonValue.hexDigit d) =
      [ascii (JsonValue.hexDigit d)] ∧ hexDigit? (ascii (JsonValue.hexDigit d)) = some d := by
    decide
  have zero : String.utf8EncodeChar '0' = [ascii '0'] ∧ hexDigit? (ascii '0') = some 0 :=
    digit 0 (by decide)
  obtain ⟨highWritten, highRead⟩ := digit high highDigit
  obtain ⟨lowWritten, lowRead⟩ := digit low lowDigit
  simp [hexWord, zero, highWritten, highRead, lowWritten, lowRead]

/-- A control character is read back from its escape by number. -/
theorem escape_control {c : Char} (control : c.toNat < 0x20) (rest : Bytes) :
    escape (Bytes.ofChars ['u', '0', '0', JsonValue.hexDigit (c.toNat / 16),
      JsonValue.hexDigit (c.toNat % 16)] ++ rest) = .ok (String.utf8EncodeChar c, rest) := by
  have word := hexWord_written (show c.toNat / 16 < 16 by omega) (show c.toNat % 16 < 16 by omega)
    rest
  rw [Nat.div_add_mod'] at word
  -- Its number is no half of a larger code point.
  have notLow : isLowHalf c.toNat = false := by
    simp only [isLowHalf, Bool.and_eq_false_iff, decide_eq_false_iff_not]
    omega
  have notHigh : isHighHalf c.toNat = false := by
    simp only [isHighHalf, Bool.and_eq_false_iff, decide_eq_false_iff_not]
    omega
  show unicodeEscape (Bytes.ofChars ['0', '0', JsonValue.hexDigit (c.toNat / 16),
    JsonValue.hexDigit (c.toNat % 16)] ++ rest) = _
  rw [unicodeEscape, word]
  simp [bind, Except.bind, notLow, notHigh, utf8_toNat, pure, Except.pure]

/-- The characters with an escape of one letter. -/
def lettered : List Char := ['"', '\\', '\x08', '\x0c', '\n', '\r', '\t']

/-- A character with a letter is read back from its escape. -/
theorem exists_escape_of_lettered {c : Char} (letter : c ∈ lettered) :
    ∃ letters, JsonValue.escape c = '\\' :: letters ∧ ∀ rest,
      escape (Bytes.ofChars letters ++ rest) = .ok (String.utf8EncodeChar c, rest) := by
  simp only [lettered, List.mem_cons, List.not_mem_nil, or_false] at letter
  rcases letter with rfl | rfl | rfl | rfl | rfl | rfl | rfl <;> exact ⟨_, rfl, fun _ => rfl⟩

/-- Other characters are written as they are, unless they are control characters. -/
theorem escape_of_not_lettered {c : Char} (none_ : c ∉ lettered) :
    JsonValue.escape c = if c.toNat < 0x20 then ['\\', 'u', '0', '0',
      JsonValue.hexDigit (c.toNat / 16), JsonValue.hexDigit (c.toNat % 16)] else [c] := by
  simp only [lettered, List.mem_cons, List.not_mem_nil, or_false, not_or] at none_
  obtain ⟨mark, backslash, back, form, line, carriage, tab⟩ := none_
  rw [JsonValue.escape, if_neg mark, if_neg backslash, if_neg back, if_neg form, if_neg line,
    if_neg carriage, if_neg tab]

/-- The bytes of other characters stand for themselves. -/
theorem isPlain_of_mem {c : Char} (none_ : c ∉ lettered) (printed : ¬ c.toNat < 0x20) :
    ∀ byte ∈ String.utf8EncodeChar c, IsPlain byte := by
  intro byte member
  by_cases low : c.toNat < 128
  · rw [utf8EncodeChar_of_ascii low, List.mem_singleton] at member
    subst member
    have back : (ascii c).toNat = c.toNat :=
      UInt8.toNat_ofNat_of_lt' (Nat.lt_trans low (by decide))
    -- A byte below 128 is the character's own code, which is none of the escaped ones.
    have other {mark : Char} (letter : mark ∈ lettered) (code : (ascii mark).toNat = mark.toNat) :
        ascii c ≠ ascii mark := by
      intro same
      have codes : c.toNat = mark.toNat := by rw [← back, same, code]
      exact none_ (Char.toNat_inj.mp codes ▸ letter)
    refine ⟨other (by decide) rfl, other (by decide) rfl, fun below => printed ?_⟩
    rwa [UInt8.lt_iff_toNat_lt, back] at below
  · have high := le_of_mem_utf8EncodeChar (Nat.le_of_not_lt low) byte member
    refine ⟨?_, ?_, fun below => ?_⟩
    · rintro rfl
      exact absurd high (by decide)
    · rintro rfl
      exact absurd high (by decide)
    · exact absurd (Nat.le_trans high (Nat.le_of_lt (UInt8.lt_iff_toNat_lt.mp below))) (by decide)

/-- How a character is written tells the reader which character it was. -/
theorem escape_cases (c : Char) :
    (∃ letters, JsonValue.escape c = '\\' :: letters ∧ ∀ rest,
      escape (Bytes.ofChars letters ++ rest) = .ok (String.utf8EncodeChar c, rest)) ∨
    JsonValue.escape c = [c] ∧ ∀ byte ∈ String.utf8EncodeChar c, IsPlain byte := by
  -- A character has a letter of its own, is written by its code, or stands for itself.
  by_cases letter : c ∈ lettered
  · exact .inl (exists_escape_of_lettered letter)
  · have written := escape_of_not_lettered letter
    by_cases control : c.toNat < 0x20
    · rw [if_pos control] at written
      exact .inl ⟨_, written, escape_control control⟩
    · rw [if_neg control] at written
      exact .inr ⟨written, isPlain_of_mem letter control⟩

/-- Bytes that stand for themselves are kept as they are. -/
theorem textBytes_plain {front : Bytes} (plain : ∀ byte ∈ front, IsPlain byte)
    {bound rest others after : Bytes} (room : front.length ≤ bound.length)
    (later : textBytes (bound.drop front.length) rest = .ok (others, after)) :
    textBytes bound (front ++ rest) = .ok (front ++ others, after) := by
  -- Each byte takes one step of the reader and one byte of the bound.
  induction front generalizing bound with
  | nil => exact later
  | cons byte front ih =>
    obtain ⟨⟨noMark, noBackslash, noControl⟩, plain⟩ := List.forall_mem_cons.mp plain
    obtain ⟨_, bound, rfl⟩ := List.exists_cons_of_length_pos (Nat.lt_of_lt_of_le (by simp) room)
    have behind := ih plain (by simpa using room) (by simpa using later)
    rw [List.cons_append, textBytes, if_neg noMark, if_neg noBackslash, if_neg noControl, behind]
    rfl

/-- A text is read up to the mark behind it, whatever its characters are. -/
theorem textBytes_written (chars : List Char) (bound rest : Bytes)
    (room : (Bytes.ofChars (chars.flatMap JsonValue.escape)).length < bound.length) :
    textBytes bound (Bytes.ofChars (chars.flatMap JsonValue.escape) ++ ascii '"' :: rest) =
      .ok (Bytes.ofChars chars, rest) := by
  -- The induction is on the characters, of which each has an escape or stands for itself.
  induction chars generalizing bound with
  | nil =>
    obtain ⟨_, bound, rfl⟩ := List.exists_cons_of_length_pos room
    rw [List.flatMap_nil, Bytes.ofChars_nil, List.nil_append, textBytes, if_pos rfl]
  | cons c chars ih =>
    rw [List.flatMap_cons, Bytes.ofChars_append, List.length_append] at room
    rw [List.flatMap_cons, Bytes.ofChars_append, List.append_assoc, Bytes.ofChars_cons]
    rcases escape_cases c with ⟨letters, written, read⟩ | ⟨written, plain⟩
    · -- The escape takes one step, whatever it stands for.
      rw [written, Bytes.ofChars_cons, List.length_append] at room
      obtain ⟨_, bound, rfl⟩ := List.exists_cons_of_length_pos (Nat.zero_lt_of_lt room)
      have one : String.utf8EncodeChar '\\' = [ascii '\\'] := rfl
      rw [one, List.length_singleton, List.length_cons] at room
      rw [written, Bytes.ofChars_cons, one, List.append_assoc, List.singleton_append, textBytes,
        if_neg (by decide), if_pos rfl, read]
      simp only [bind, Except.bind, ih bound (by omega)]
      rfl
    · rw [written, Bytes.ofChars_cons, Bytes.ofChars_nil, List.append_nil] at room ⊢
      refine textBytes_plain plain (by omega) (ih _ ?_)
      rw [List.length_drop]
      omega

/-- A text is read back from how it is written, behind its opening mark. -/
theorem textAfterMark_written (text : String) (rest : Bytes) :
    textAfterMark (Bytes.ofChars (text.toList.flatMap JsonValue.escape) ++ ascii '"' :: rest) =
      .ok (text, rest) := by
  -- The whole of what is left is bound enough.
  have content := textBytes_written text.toList
    (Bytes.ofChars (text.toList.flatMap JsonValue.escape) ++ ascii '"' :: rest) rest
    (by rw [List.length_append, List.length_cons]; omega)
  have back : Bytes.text? (Bytes.ofChars text.toList) = some text := by
    rw [← Bytes.ofText_ofList, String.ofList_toList, Bytes.text?_ofText]
  rw [textAfterMark, content]
  simp only [bind, Except.bind, back]
  rfl

/-- A written text begins with its opening mark. -/
theorem ofChars_writeText (text : String) :
    Bytes.ofChars (JsonValue.writeText text) =
      ascii '"' :: (Bytes.ofChars (text.toList.flatMap JsonValue.escape) ++ [ascii '"']) := by
  rw [JsonValue.writeText, List.cons_append, Bytes.ofChars_cons, Bytes.ofChars_append]
  rfl

end JsonText

end HeapAtlas
