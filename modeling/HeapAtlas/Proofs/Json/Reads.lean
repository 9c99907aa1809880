import Mathlib.Data.List.TakeWhile
import HeapAtlas.Json.Codec
import HeapAtlas.Proofs.Json.Grammar

/-! What codecs read from the texts of a value: words, texts and lists. -/

namespace HeapAtlas.JsonText

/-! ### Gaps -/

/-- A blank may stand behind any value. -/
theorem mem_closers_of_isBlank {byte : UInt8} (blank : isBlank byte = true) : byte ∈ closers := by
  simp only [isBlank, Bool.or_eq_true, decide_eq_true_eq] at blank
  rcases blank with ((rfl | rfl) | rfl) | rfl <;> decide

/-- A value can begin here: this is no blank, and no bracket that closes a list. -/
def Starts (first : UInt8) : Prop := isBlank first = false ∧ first ≠ ascii ']'

instance (first : UInt8) : Decidable (Starts first) :=
  inferInstanceAs (Decidable (isBlank first = false ∧ first ≠ ascii ']'))

/-- A digit begins a number that is not negative. -/
theorem starts_of_isDigit {byte : UInt8} (digit : isDigit byte = true) :
    Starts byte ∧ byte ≠ ascii '-' := by
  -- None of the bytes that are excluded is a digit.
  have apart {other : UInt8} (none_ : isDigit other = false) : byte ≠ other := by
    rintro rfl
    rw [none_] at digit
    cases digit
  refine ⟨⟨Bool.eq_false_iff.mpr fun blank => ?_, apart rfl⟩, apart rfl⟩
  exact apart (isDigit_of_mem_closers (mem_closers_of_isBlank blank)) rfl

/-- A gap is skipped up to the first byte that is none. -/
theorem skipBlanks_gap {gap : Bytes} (blank : Gap gap) {first : UInt8}
    (visible : isBlank first = false) (rest : Bytes) :
    skipBlanks (gap ++ first :: rest) = first :: rest := by
  have stops : ¬ isBlank first = true := Bool.eq_false_iff.mp visible
  rw [skipBlanks, List.dropWhile_append_of_pos blank, List.dropWhile_cons_of_neg stops]

/-- Behind a blank or a closing byte no number goes on. -/
theorem Gap.ends {gap : Bytes} (blank : Gap gap) {closing : UInt8} (closes : closing ∈ closers)
    (rest : Bytes) : Ends (gap ++ closing :: rest) := by
  cases gap with
  | nil => simpa [Ends] using closes
  | cons byte gap => simpa [Ends] using mem_closers_of_isBlank (blank byte List.mem_cons_self)

/-- What stands behind an item belongs to no number. -/
theorem Listed.ends {α : Type} {Spelled : α → Bytes → Prop} {closing : UInt8} {items : List α}
    {text : Bytes} (listed : Listed Spelled closing false items text)
    (closes : closing ∈ closers) (rest : Bytes) : Ends (text ++ rest) := by
  -- That is the closing byte or a comma, with or without blanks in front.
  cases listed with
  | nil blank =>
    rw [List.append_assoc, List.singleton_append]
    exact blank.ends closes rest
  | cons leads _ _ =>
    cases leads with
    | next blankBefore _ =>
      rw [List.append_assoc, List.append_assoc, List.cons_append]
      exact blankBefore.ends (by decide) _

/-! ### Readers -/

/-- A reader gives a result for every text of a value, after blanks and whatever stands behind. -/
structure Reads {α : Type} (reader : Reader α) (value : JsonValue) (result : α) : Prop where
  starts {text : Bytes} (spelled : Spells value text) :
    ∃ first others, text = first :: others ∧ Starts first
  reads {gap text rest : Bytes} (blank : Gap gap) (spelled : Spells value text) (ends : Ends rest) :
    reader (gap ++ (text ++ rest)) = .ok (result, rest)

open JsonCodec

/-- A word is read from its digits. -/
theorem reads_word (word : UInt64) : Reads JsonCodec.word.read (.ofNat word.toNat) word := by
  constructor
  · intro text spelled
    cases spelled with
    | integer =>
      obtain ⟨first, others, digits, digit, -⟩ := number_written word (show Ends [] from nofun)
      rw [toList_toString]
      exact ⟨first, others, digits, (starts_of_isDigit digit).1⟩
  · intro gap text rest blank spelled ends
    cases spelled with
    | integer =>
      obtain ⟨first, others, digits, digit, read⟩ := number_written word ends
      -- The first digit is neither a blank nor a sign.
      obtain ⟨⟨visible, -⟩, positive⟩ := starts_of_isDigit digit
      rw [toList_toString, digits, List.cons_append, JsonCodec.word]
      dsimp only
      rw [skipBlanks_gap blank visible]
      dsimp only
      rw [if_neg positive, if_pos digit, ← List.cons_append, read]

/-- A text is read from between its marks. -/
theorem reads_text (value : String) : Reads JsonCodec.text.read (.text value) value := by
  constructor
  · intro text spelled
    cases spelled with
    | text => exact ⟨_, _, ofChars_writeText value, by decide⟩
  · intro gap text rest blank spelled ends
    cases spelled with
    | text =>
      rw [ofChars_writeText, List.cons_append, JsonCodec.text]
      dsimp only
      -- Behind the gap stands the quote with which the text begins.
      rw [skipBlanks_gap blank rfl]
      dsimp only
      rw [if_pos rfl, List.append_assoc, List.singleton_append, textAfterMark_written]

/-! ### Lists -/

/-- At the end of a list there is no next item. -/
theorem nextItem?_closed {gap : Bytes} (blank : Gap gap) (isFirst : Bool) (rest : Bytes) :
    nextItem? isFirst (gap ++ ascii ']' :: rest) = .ok none := by
  rw [nextItem?, skipBlanks_gap blank rfl]
  exact if_pos rfl

/-- What leads to an item is skipped: a gap before the first one, and a comma before the others. -/
theorem nextItem?_lead {isFirst : Bool} {lead : Bytes} (leads : Lead isFirst lead) {first : UInt8}
    (starts : Starts first) (rest : Bytes) :
    nextItem? isFirst (lead ++ first :: rest) = .ok (some (first :: rest)) := by
  cases leads with
  | first blank =>
    rw [nextItem?, skipBlanks_gap blank starts.1]
    exact if_neg starts.2
  -- Before a later item there is a comma, with gaps on both sides.
  | next blankBefore blankAfter =>
    rw [List.append_assoc, List.cons_append, nextItem?, skipBlanks_gap blankBefore rfl]
    dsimp only
    rw [if_neg (by decide), if_neg (by decide), if_pos rfl, skipBlanks_gap blankAfter starts.1]
    exact if_neg starts.2

/-- Items are read one after another, as long as there is room. -/
theorem readItems_cons {α : Type} {item : Reader α} {isFirst : Bool} {bytes start behind : Bytes}
    (next : nextItem? isFirst bytes = .ok (some start)) {result : α}
    (read : item start = .ok (result, behind)) {bound : Bytes} (room : 0 < bound.length)
    {results : List α} {after : Bytes}
    (later : readItems item bound.tail false behind = .ok (results, after)) :
    readItems item bound isFirst bytes = .ok (result :: results, after) := by
  -- An item takes one unit of the bound, however long it is.
  obtain ⟨_, bound, rfl⟩ := List.exists_cons_of_length_pos room
  rw [readItems, next]
  simp only [bind, Except.bind, read]
  rw [show readItems item bound false behind = _ from later]
  rfl

/-- A list ends with its bracket, behind a gap. -/
theorem endList_gap {gap : Bytes} (blank : Gap gap) (rest : Bytes) :
    endList (gap ++ ascii ']' :: rest) = .ok rest := by
  rw [endList, skipBlanks_gap blank rfl, expect, if_pos rfl]

/-- The items of a list are read up to its bracket, each as its reader gives it. -/
theorem readItems_listed {α : Type} {item : Reader α} {isFirst : Bool} {values : List JsonValue}
    {text : Bytes} (listed : Listed Spells (ascii ']') isFirst values text) {results : List α}
    (each : List.Forall₂ (Reads item) values results) (bound : Bytes)
    (room : text.length ≤ bound.length) (rest : Bytes) :
    ∃ gap, Gap gap ∧
      readItems item bound isFirst (text ++ rest) = .ok (results, gap ++ ascii ']' :: rest) := by
  -- Every item takes a byte at least, so that the bound lasts up to the bracket.
  induction listed generalizing results bound with
  | nil blank =>
    cases each
    rw [List.length_append, List.length_singleton] at room
    obtain ⟨_, bound, rfl⟩ := List.exists_cons_of_length_pos (Nat.zero_lt_of_lt room)
    refine ⟨_, blank, ?_⟩
    rw [List.append_assoc, List.singleton_append, readItems, nextItem?_closed blank]
    rfl
  | cons leads spelled others ih =>
    cases each with
    | cons reads each =>
      have read := reads.reads gap_nil spelled (others.ends (by decide) rest)
      obtain ⟨first, more, rfl, starts⟩ := reads.starts spelled
      simp only [List.length_append, List.length_cons] at room
      obtain ⟨gap, blank, later⟩ := ih each bound.tail (by rw [List.length_tail]; omega)
      refine ⟨gap, blank, ?_⟩
      rw [List.append_assoc, List.append_assoc]
      exact readItems_cons (nextItem?_lead leads starts _) read (by omega) later

/-- A list is read as the results of its items. -/
theorem reads_list {α : Type} {item : JsonCodec α} {values : List JsonValue} {results : List α}
    (each : List.Forall₂ (Reads item.read) values results) :
    Reads (JsonCodec.list item).read (.array values) results := by
  constructor
  · intro text spelled
    cases spelled with
    | array => exact ⟨_, _, rfl, by decide⟩
  · intro gap text rest blank spelled ends
    cases spelled with
    | @array _ inner listed =>
      -- There are at least as many bytes left as items, so that the room suffices.
      obtain ⟨gap', blank', read⟩ := readItems_listed listed each (inner ++ rest)
        (by rw [List.length_append]; omega) rest
      rw [List.cons_append, JsonCodec.list]
      dsimp only
      rw [skipBlanks_gap blank rfl]
      dsimp only
      rw [if_pos rfl, read]
      simp only [bind, Except.bind, endList_gap blank']
      rfl

/-! ### Whole texts -/

/-- A whole text is read as the value in it, with blanks around. -/
theorem parse_whole {α : Type} {codec : JsonCodec α} {value : JsonValue} {result : α}
    (reads : Reads codec.read value result) {bytes : Bytes} (whole : Whole value bytes) :
    codec.parse bytes = .ok result := by
  obtain ⟨before, text, after, blankBefore, spelled, blankAfter, rfl⟩ := whole
  -- Behind the value there are blanks only, which belong to no number.
  have ends : Ends after := fun byte first =>
    mem_closers_of_isBlank (blankAfter byte (List.mem_of_mem_head? first))
  have nothing : skipBlanks after = [] := List.dropWhile_eq_nil_iff.mpr blankAfter
  rw [JsonCodec.parse, reads.reads blankBefore spelled ends]
  simp only [bind, Except.bind, nothing]
  rfl

/-- There is no whole text without bytes. -/
theorem Whole.ne_nil {α : Type} {reader : Reader α} {value : JsonValue} {result : α}
    (reads : Reads reader value result) {bytes : Bytes} (whole : Whole value bytes) :
    bytes ≠ [] := by
  obtain ⟨before, text, after, -, spelled, -, rfl⟩ := whole
  obtain ⟨first, others, rfl, -⟩ := reads.starts spelled
  simp

end HeapAtlas.JsonText
