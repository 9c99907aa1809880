import Mathlib.Data.List.Forall2
import Mathlib.Data.Nat.Digits.Defs
import HeapAtlas.Ident
import HeapAtlas.Proofs.Lists
import HeapAtlas.Proofs.Text.Trimmed

/-! Written identifiers: which texts name a word, and that what is shown is read back. -/

namespace HeapAtlas.Ident

/-- The decimal digits, each in the place of its value. -/
def decimalAlphabets : List (List Char) := ["0123456789".toList]

/-- The hexadecimal digits in either case, each in the place of its value. -/
def hexAlphabets : List (List Char) := ["0123456789abcdef".toList, "0123456789ABCDEF".toList]

/-- A character is the digit of a value in one of some alphabets. -/
def StandsFor (alphabets : List (List Char)) (c : Char) (value : Nat) : Prop :=
  ∃ alphabet ∈ alphabets, alphabet[value]? = some c

instance (alphabets : List (List Char)) (c : Char) (value : Nat) :
    Decidable (StandsFor alphabets c value) :=
  inferInstanceAs (Decidable (∃ alphabet ∈ alphabets, alphabet[value]? = some c))

/-- Some digits make up a value, each weighed by the place that it has from the right. -/
def Numeral (base : Nat) (alphabets : List (List Char)) (text : List Char) (value : Nat) : Prop :=
  ∃ digits, List.Forall₂ (StandsFor alphabets) text digits ∧
    value = Nat.ofDigits base digits.reverse

/-- A text writes a value: one or more hexadecimal digits after `0x` or `0X`, or one or more decimal
digits, with any number of zeros in front. -/
inductive Writes : List Char → Nat → Prop where
  | decimal {text : List Char} {value : Nat} (some_ : text ≠ [])
      (numeral : Numeral 10 decimalAlphabets text value) : Writes text value
  | hex {text : List Char} {value : Nat} (mark : Char) (marked : mark = 'x' ∨ mark = 'X')
      (some_ : text ≠ []) (numeral : Numeral 16 hexAlphabets text value) :
      Writes ('0' :: mark :: text) value

/-! ### Digits -/

/-- A reader that knows the digits of some alphabets and no other ASCII character, and none beyond,
reads a character just as the value of the digit that it is. -/
theorem digit?_eq_some_iff {digit? : Char → Option Nat} {alphabets : List (List Char)}
    (known : ∀ alphabet ∈ alphabets, ∀ digit ∈ alphabet.zipIdx, digit? digit.1 = some digit.2)
    (ascii : ∀ c, (digit? c).isSome → c.toNat < 128)
    (only : ∀ code < 128, ∀ value ∈ digit? (Char.ofNat code),
      StandsFor alphabets (Char.ofNat code) value) {c : Char} {value : Nat} :
    digit? c = some value ↔ StandsFor alphabets c value := by
  constructor
  · intro read
    -- Only characters of one byte are read as digits, and all of these were tried.
    have stands := only c.toNat (ascii c (by rw [read]; rfl)) value
    rw [Char.ofNat_toNat] at stands
    exact stands read
  · rintro ⟨alphabet, among, held⟩
    exact known alphabet among (c, value) (List.mk_mem_zipIdx_iff_getElem?.mpr held)

/-- The reader of decimal digits knows those and nothing else. -/
theorem decimalDigit?_eq_some_iff {c : Char} {value : Nat} :
    decimalDigit? c = some value ↔ StandsFor decimalAlphabets c value := by
  refine digit?_eq_some_iff (by decide) (fun c read => ?_) (by decide +kernel)
  rw [decimalDigit?, Option.isSome_ite] at read
  exact Nat.lt_of_le_of_lt (show c.toNat ≤ '9'.toNat from read.2) (by decide)

/-- The reader of hexadecimal digits knows those, in either case, and nothing else. -/
theorem hexDigit?_eq_some_iff {c : Char} {value : Nat} :
    hexDigit? c = some value ↔ StandsFor hexAlphabets c value := by
  refine digit?_eq_some_iff (by decide) (fun c read => ?_) (by decide +kernel)
  -- The last digit of each of the three ranges is an ASCII character.
  have below (last : Char) (le : c ≤ last) (ascii : last.toNat < 128) : c.toNat < 128 :=
    Nat.lt_of_le_of_lt (show c.toNat ≤ last.toNat from le) ascii
  rw [hexDigit?] at read
  split at read
  · exact below '9' (by simp_all) (by decide)
  split at read
  · exact below 'f' (by simp_all) (by decide)
  split at read
  · exact below 'F' (by simp_all) (by decide)
  · cases read

/-! ### Numerals -/

section Numerals

variable {base : Nat} {alphabets : List (List Char)} {digit? : Char → Option Nat}

/-- A digit in front of a numeral counts with the power of the base for the digits behind it. -/
theorem numeral_cons_iff {c : Char} {rest : List Char} {value : Nat} :
    Numeral base alphabets (c :: rest) value ↔ ∃ first others, StandsFor alphabets c first ∧
      Numeral base alphabets rest others ∧ value = others + base ^ rest.length * first := by
  constructor
  · -- The first digit counts as many places as there are digits behind it.
    rintro ⟨digits, stand, rfl⟩
    cases stand with
    | @cons _ first _ digits here behind =>
      refine ⟨first, Nat.ofDigits base digits.reverse, here, ⟨digits, behind, rfl⟩, ?_⟩
      rw [Nat.ofDigits_reverse_cons, behind.length_eq]
  · rintro ⟨first, others, here, ⟨digits, behind, rfl⟩, rfl⟩
    refine ⟨first :: digits, .cons here behind, ?_⟩
    rw [Nat.ofDigits_reverse_cons, behind.length_eq]

/-- A digit behind a numeral moves its value up by one place. -/
theorem Numeral.concat {text : List Char} {value last : Nat} {c : Char}
    (numeral : Numeral base alphabets text value) (stands : StandsFor alphabets c last) :
    Numeral base alphabets (text ++ [c]) (value * base + last) := by
  obtain ⟨digits, stand, rfl⟩ := numeral
  refine ⟨digits ++ [last], List.rel_append stand (.cons stands .nil), ?_⟩
  -- Values are told from the last digit on, which is now the one behind.
  rw [List.reverse_append, List.reverse_singleton, List.singleton_append, Nat.ofDigits_cons,
    Nat.add_comm, Nat.mul_comm]

/-- Digits that continue a word are read as the numeral that they are behind it, unless the whole is
no word any more. -/
theorem digitsFrom?_eq_some_iff (positive : 0 < base)
    (reads : ∀ c value, digit? c = some value ↔ StandsFor alphabets c value) {text : List Char}
    {start value : Nat} (word : start < 2 ^ 64) :
    digitsFrom? base digit? start text = some value ↔ value < 2 ^ 64 ∧
      ∃ others, Numeral base alphabets text others ∧
        value = others + base ^ text.length * start := by
  -- The induction is on the digits, each of which moves what was read before up by one place.
  induction text generalizing start value with
  | nil =>
    simp only [digitsFrom?, Option.some.injEq, Numeral]
    constructor
    · rintro rfl
      exact ⟨word, 0, ⟨[], .nil, rfl⟩, by simp⟩
    · rintro ⟨_, others, ⟨digits, stand, rfl⟩, rfl⟩
      cases stand
      simp
  | cons c rest ih =>
    rw [digitsFrom?, Option.bind_eq_some_iff]
    have weighed (first others : Nat) : others + base ^ rest.length * (start * base + first) =
        others + base ^ rest.length * first + base ^ (rest.length + 1) * start := by ring
    constructor
    · rintro ⟨first, read, further⟩
      split at further
      · rename_i small
        obtain ⟨bound, others, numeral, rfl⟩ := (ih (by simpa using small)).mp further
        refine ⟨bound, _, numeral_cons_iff.mpr ⟨first, others, (reads c first).mp read, numeral,
          rfl⟩, weighed first others⟩
      · cases further
    · rintro ⟨bound, others, numeral, rfl⟩
      obtain ⟨first, behind, stands, further, rfl⟩ := numeral_cons_iff.mp numeral
      rw [List.length_cons, ← weighed] at bound ⊢
      -- What was read so far is no larger than the whole.
      have small : start * base + first < 2 ^ 64 := by
        have power : 0 < base ^ rest.length := Nat.pow_pos positive
        have grows := Nat.le_mul_of_pos_left (start * base + first) power
        omega
      refine ⟨first, (reads c first).mpr stands, ?_⟩
      rw [if_pos (by simpa using small)]
      exact (ih small).mpr ⟨bound, behind, further, rfl⟩

/-- One or more digits are read as the numeral that they are, if it is a word. -/
theorem digits?_eq_some_iff (positive : 0 < base)
    (reads : ∀ c value, digit? c = some value ↔ StandsFor alphabets c value) {text : List Char}
    {value : Nat} :
    digits? base digit? text = some value ↔
      text ≠ [] ∧ Numeral base alphabets text value ∧ value < 2 ^ 64 := by
  -- No digit at all is a numeral of value zero, but is not read as one.
  cases text with
  | nil => simp [digits?]
  | cons c rest =>
    rw [digits?, digitsFrom?_eq_some_iff positive reads (by decide)]
    simp [and_comm]

end Numerals

/-- A marker of hexadecimal digits is no decimal digit. -/
theorem not_numeral_marked {mark : Char} (marked : mark = 'x' ∨ mark = 'X') {text : List Char}
    {value : Nat} : ¬ Numeral 10 decimalAlphabets ('0' :: mark :: text) value := by
  intro numeral
  obtain ⟨_, _, _, behind, _⟩ := numeral_cons_iff.mp numeral
  -- The marker would have to stand for a digit, and the reader of digits refuses it.
  obtain ⟨first, _, stands, _, _⟩ := numeral_cons_iff.mp behind
  have read := decimalDigit?_eq_some_iff.mpr stands
  rcases marked with rfl | rfl <;> cases read

/-- The word that a text writes is the one that is read from it. -/
theorem number?_eq_some_iff {text : List Char} {value : Nat} :
    number? text = some value ↔ Writes text value ∧ value < 2 ^ 64 := by
  have hex {digits : List Char} : digits? 16 hexDigit? digits = some value ↔
      digits ≠ [] ∧ Numeral 16 hexAlphabets digits value ∧ value < 2 ^ 64 :=
    digits?_eq_some_iff (by decide) fun _ _ => hexDigit?_eq_some_iff
  have decimal {digits : List Char} : digits? 10 decimalDigit? digits = some value ↔
      digits ≠ [] ∧ Numeral 10 decimalAlphabets digits value ∧ value < 2 ^ 64 :=
    digits?_eq_some_iff (by decide) fun _ _ => decimalDigit?_eq_some_iff
  constructor
  · intro read
    unfold number? at read
    split at read
    · obtain ⟨some_, numeral, word⟩ := hex.mp read
      exact ⟨.hex 'x' (.inl rfl) some_ numeral, word⟩
    · obtain ⟨some_, numeral, word⟩ := hex.mp read
      exact ⟨.hex 'X' (.inr rfl) some_ numeral, word⟩
    · obtain ⟨some_, numeral, word⟩ := decimal.mp read
      exact ⟨.decimal some_ numeral, word⟩
  · -- A decimal numeral has no mark, so it is not taken for a hexadecimal one.
    rintro ⟨writes, word⟩
    cases writes with
    | decimal some_ numeral =>
      unfold number?
      split
      · exact absurd numeral (not_numeral_marked (.inl rfl))
      · exact absurd numeral (not_numeral_marked (.inr rfl))
      · exact decimal.mpr ⟨some_, numeral, word⟩
    | hex mark marked some_ numeral =>
      rcases marked with rfl | rfl <;> exact hex.mpr ⟨some_, numeral, word⟩

/-! ### Shown identifiers -/

/-- What is printed in hexadecimal is a numeral of the number. -/
theorem numeral_toDigits (n : Nat) : Numeral 16 hexAlphabets (Nat.toDigits 16 n) n := by
  have digit : ∀ d < 16, StandsFor hexAlphabets (Nat.digitChar d) d := by decide
  induction n using Nat.strong_induction_on with
  | _ n ih =>
    by_cases small : n < 16
    · rw [Nat.toDigits_of_lt_base small]
      exact ⟨[n], .cons (digit n small) .nil, by simp⟩
    · -- The last digit stands behind those of what is left without it.
      have last : n % 16 < 16 := Nat.mod_lt n (by decide)
      have split := Nat.toDigits_append_toDigits (b := 16) (by decide) (show 0 < n / 16 by omega)
        last
      rw [Nat.toDigits_of_lt_base last, Nat.div_add_mod] at split
      have numeral := (ih (n / 16) (by omega)).concat (digit (n % 16) last)
      rw [split, Nat.div_add_mod'] at numeral
      exact numeral

/-- No digit is a blank, so that there is nothing to trim from what is shown. -/
theorem not_isBlank_of_mem_toDigits {n : Nat} {c : Char} (digit : c ∈ Nat.toDigits 16 n) :
    Text.isBlank c = false := by
  -- The alphabets are few, so all their characters are looked at.
  have alphabets : hexAlphabets.all (·.all fun c => !Text.isBlank c) = true := by decide
  obtain ⟨digits, stand, -⟩ := numeral_toDigits n
  obtain ⟨value, -, alphabet, among, held⟩ := exists_mem_of_forall₂ stand digit
  have letters := List.all_eq_true.mp alphabets alphabet among
  simpa using List.all_eq_true.mp letters c (List.mem_of_getElem? held)

/-- What is shown of a word writes the word. -/
theorem writes_render (word : UInt64) : Writes (render word).toList word.toNat := by
  rw [render, String.toList_ofList]
  exact .hex 'x' (.inl rfl) Nat.toDigits_ne_nil (numeral_toDigits word.toNat)

/-- Trimming takes the blanks around a shown word away and leaves what is shown. -/
theorem trimmed_render (word : UInt64) {before after : String}
    (blankBefore : ∀ c ∈ before.toList, Text.isBlank c = true)
    (blankAfter : ∀ c ∈ after.toList, Text.isBlank c = true) :
    Text.Trimmed (before ++ render word ++ after).toList (render word).toList := by
  -- What is rendered are two marks and digits, none of which is blank.
  have visible : ∀ c ∈ (render word).toList, Text.isBlank c = false := by
    intro c member
    simp only [render, String.toList_ofList, List.mem_cons] at member
    rcases member with rfl | rfl | digit
    · rfl
    · rfl
    · exact not_isBlank_of_mem_toDigits digit
  exact ⟨⟨before.toList, after.toList, by simp, blankBefore, blankAfter⟩,
    fun c first => visible c (List.mem_of_mem_head? first),
    fun c last => visible c (List.mem_of_mem_getLast? last)⟩

/-! ### Reading -/

/-- A word is read from a text exactly when the text, trimmed, writes it. -/
theorem parse_eq_ok_iff {text : String} {word : UInt64} :
    parse text = .ok word ↔ Writes (Text.trimBlank text.toList) word.toNat := by
  have written : number? (Text.trimBlank text.toList) = some word.toNat ↔
      Writes (Text.trimBlank text.toList) word.toNat :=
    number?_eq_some_iff.trans (and_iff_left word.toNat_lt)
  rw [← written, parse]
  -- What is left after trimming decides: nothing is no number, and anything else is read as one.
  cases trimmed : Text.trimBlank text.toList with
  | nil => simp [number?, digits?]
  | cons first rest =>
    simp only [List.isEmpty_cons, Bool.false_eq_true, if_false]
    cases read : number? (first :: rest) with
    | none => simp
    | some value =>
      have bound : value < 2 ^ 64 := (number?_eq_some_iff.mp read).2
      simp only [Except.ok.injEq, Option.some.injEq]
      constructor
      · rintro rfl
        exact (UInt64.toNat_ofNat_of_lt bound).symm
      · rintro rfl
        exact UInt64.ofNat_toNat

/-- A text names nothing when only blanks are in it. -/
theorem parse_eq_empty_iff {text : String} :
    parse text = .error .empty ↔ Text.trimBlank text.toList = [] := by
  rw [parse]
  cases Text.trimBlank text.toList with
  | nil => simp
  | cons first rest => cases number? (first :: rest) <;> simp

/-- Any other text is malformed, and told as it is without the blanks. -/
theorem parse_eq_malformed_iff {text shown : String} :
    parse text = .error (.malformed shown) ↔ Text.trimBlank text.toList ≠ [] ∧
      (∀ value < 2 ^ 64, ¬ Writes (Text.trimBlank text.toList) value) ∧
      shown = String.ofList (Text.trimBlank text.toList) := by
  rw [parse]
  cases trimmed : Text.trimBlank text.toList with
  | nil => simp
  | cons first rest =>
    simp only [List.isEmpty_cons, Bool.false_eq_true, if_false]
    -- A text is malformed when no number is read from it, that is, when none is written there.
    cases read : number? (first :: rest) with
    | none =>
      have nothing (value : Nat) (word : value < 2 ^ 64) : ¬ Writes (first :: rest) value := by
        intro writes
        rw [number?_eq_some_iff.mpr ⟨writes, word⟩] at read
        cases read
      simpa [eq_comm] using fun _ => nothing
    | some value =>
      obtain ⟨writes, word⟩ := number?_eq_some_iff.mp read
      simpa using fun nothing => absurd writes (nothing value word)

/--
A text without its blanks names the word that it writes, is empty, or is malformed and told as it
is; and an identifier is read back from what is shown of it, with any blanks around.
-/
theorem parse_grammar :
    (∀ text : String, let trimmed := Text.trimBlank text.toList
      Text.Trimmed text.toList trimmed ∧
      (parse text = .error .empty ↔ trimmed = []) ∧
      (∀ word, parse text = .ok word ↔ Writes trimmed word.toNat) ∧
      ∀ shown, parse text = .error (.malformed shown) ↔
        trimmed ≠ [] ∧ (∀ value < 2 ^ 64, ¬ Writes trimmed value) ∧
          shown = String.ofList trimmed) ∧
    ∀ before after : String, (∀ c ∈ before.toList, Text.isBlank c = true) →
      (∀ c ∈ after.toList, Text.isBlank c = true) →
      (∀ id : ObjectId, ObjectId.parse (before ++ id.render ++ after) = .ok id) ∧
        ∀ id : ClassId, ClassId.parse (before ++ id.render ++ after) = .ok id := by
  refine ⟨fun text => ⟨Text.trimBlank_eq_iff.mp rfl, parse_eq_empty_iff,
    fun _ => parse_eq_ok_iff, fun _ => parse_eq_malformed_iff⟩, ?_⟩
  intro before after blankBefore blankAfter
  -- Blanks around a rendered word are trimmed, and the word is read back.
  have again (word : UInt64) : parse (before ++ render word ++ after) = .ok word := by
    rw [parse_eq_ok_iff,
      Text.trimBlank_eq_iff.mpr (trimmed_render word blankBefore blankAfter)]
    exact writes_render word
  refine ⟨fun id => ?_, fun id => ?_⟩
  · rw [ObjectId.parse, ObjectId.render, again]
    rfl
  · rw [ClassId.parse, ClassId.render, again]
    rfl

/-- The largest word is read between a tab and an ideographic space, and one more is malformed. -/
theorem parse_grammar_at_limit :
    ObjectId.parse ("\t" ++ ObjectId.render ⟨18446744073709551615⟩ ++ "\u3000") =
        .ok ⟨18446744073709551615⟩ ∧
      Writes "0018446744073709551615".toList 18446744073709551615 ∧
      parse " 0018446744073709551615" = .ok 18446744073709551615 ∧
      ∀ value < 2 ^ 64, ¬ Writes "18446744073709551616".toList value := by
  have shown := (parse_grammar.2 "\t" "\u3000" (List.all_eq_true.mp (by decide))
    (List.all_eq_true.mp (by decide))).1 ⟨18446744073709551615⟩
  -- The greatest word is still read, also behind zeros, and the next number is not.
  have least := parse_grammar.1 " 0018446744073709551615"
  have beyond := parse_grammar.1 "18446744073709551616"
  have read : parse " 0018446744073709551615" = .ok 18446744073709551615 := by decide +kernel
  have refused : parse "18446744073709551616" = .error (.malformed "18446744073709551616") := by
    decide +kernel
  exact ⟨shown, (least.2.2.1 _).mp read, read, ((beyond.2.2.2 _).mp refused).2.1⟩

end HeapAtlas.Ident
