import HeapAtlas.Bytes
import HeapAtlas.Capped

/-! The pieces of a JSON text: blanks, texts, numbers and values that are passed over. -/

namespace HeapAtlas.JsonText

/-- Why a text gives no value; the first violation from the left decides. -/
inductive Fault where
  /-- It is no JSON. -/
  | notJson
  /-- It is JSON of another shape. -/
  | wrongShape
  /-- It ends too early. -/
  | endsEarly
  deriving DecidableEq, Repr

/-- Reads something from the front of a text and gives the rest. -/
abbrev Reader (α : Type) := Bytes → Except Fault (α × Bytes)

/-- The byte of an ASCII character. -/
def ascii (c : Char) : UInt8 := UInt8.ofNat c.toNat

/-- Whether a byte is a blank between the pieces of a text. -/
def isBlank (byte : UInt8) : Bool :=
  byte = ascii ' ' || byte = ascii '\n' || byte = ascii '\t' || byte = ascii '\r'

/-- The text after blanks. -/
def skipBlanks (bytes : Bytes) : Bytes := bytes.dropWhile isBlank

/-- The value of a decimal digit. -/
def digit? (byte : UInt8) : Option Nat :=
  if ascii '0' ≤ byte ∧ byte ≤ ascii '9' then some (byte.toNat - (ascii '0').toNat) else none

/-- Whether a byte is a decimal digit. -/
def isDigit (byte : UInt8) : Bool := (digit? byte).isSome

/-- The value of a hexadecimal digit of either case. -/
def hexDigit? (byte : UInt8) : Option Nat :=
  if ascii '0' ≤ byte ∧ byte ≤ ascii '9' then some (byte.toNat - (ascii '0').toNat)
  else if ascii 'a' ≤ byte ∧ byte ≤ ascii 'f' then some (byte.toNat - (ascii 'a').toNat + 10)
  else if ascii 'A' ≤ byte ∧ byte ≤ ascii 'F' then some (byte.toNat - (ascii 'A').toNat + 10)
  else none

/-! Texts -/

/-- The bytes of a code point in UTF-8. -/
def utf8 (code : Nat) : Bytes := Bytes.ofText (String.singleton (Char.ofNat code))

/-- The number of four hexadecimal digits. -/
def hexWord : Reader Nat
  | a :: b :: c :: d :: rest =>
    match hexDigit? a, hexDigit? b, hexDigit? c, hexDigit? d with
    | some a, some b, some c, some d => .ok (((a * 16 + b) * 16 + c) * 16 + d, rest)
    | _, _, _, _ => .error .notJson
  | _ => .error .endsEarly

/-- Takes one given byte. -/
def expect (byte : UInt8) : Bytes → Except Fault Bytes
  | [] => .error .endsEarly
  | first :: rest => if first = byte then .ok rest else .error .notJson

/-- Whether a unit is the first half of a code point written as two. -/
def isHighHalf (unit : Nat) : Bool := 0xd800 ≤ unit && unit ≤ 0xdbff

/-- Whether a unit is the second half of a code point written as two. -/
def isLowHalf (unit : Nat) : Bool := 0xdc00 ≤ unit && unit ≤ 0xdfff

/-- What an escape by number stands for, read after its letter; halves have to come in pairs. -/
def unicodeEscape : Reader Bytes := fun bytes => do
  let (unit, rest) ← hexWord bytes
  -- A second half without a first one stands for nothing.
  if isLowHalf unit then throw .notJson
  if !isHighHalf unit then return (utf8 unit, rest)
  -- A first half has to be followed by an escape for the second.
  let rest ← expect (ascii '\\') rest
  let rest ← expect (ascii 'u') rest
  let (low, rest) ← hexWord rest
  if !isLowHalf low then throw .notJson
  return (utf8 (0x10000 + (unit - 0xd800) * 0x400 + (low - 0xdc00)), rest)

/-- What an escape of one letter stands for. -/
def letterEscape? (letter : UInt8) : Option UInt8 :=
  if letter = ascii '"' ∨ letter = ascii '\\' ∨ letter = ascii '/' then some letter
  else if letter = ascii 'b' then some 8
  else if letter = ascii 'f' then some 12
  else if letter = ascii 'n' then some 10
  else if letter = ascii 'r' then some 13
  else if letter = ascii 't' then some 9
  else none

/-- What an escape stands for, read after its backslash. -/
def escape : Reader Bytes
  | [] => .error .endsEarly
  | letter :: rest =>
    -- Only this letter is followed by digits.
    if letter = ascii 'u' then unicodeEscape rest
    else
      match letterEscape? letter with
      | some byte => .ok ([byte], rest)
      | none => .error .notJson

/--
The bytes that a text stands for, read after its opening mark.

There are at most as many characters as `bound` has bytes.
-/
def textBytes : (bound : Bytes) → Reader Bytes
  | [], _ => .error .endsEarly
  | _ :: _, [] => .error .endsEarly
  | _ :: bound, byte :: rest =>
    if byte = ascii '"' then .ok ([], rest)
    else if byte = ascii '\\' then do
      let (first, rest) ← escape rest
      let (others, rest) ← textBytes bound rest
      return (first ++ others, rest)
    -- Control characters have to be written as escapes.
    else if byte < 0x20 then .error .notJson
    else do
      let (others, rest) ← textBytes bound rest
      return (byte :: others, rest)

/-- A text, read after its opening mark, whose bytes have to be UTF-8. -/
def textAfterMark : Reader String := fun bytes => do
  let (content, rest) ← textBytes bytes bytes
  -- Only the whole text shows whether its bytes are UTF-8.
  match Bytes.text? content with
  | some text => return (text, rest)
  | none => throw .notJson

/-! Numbers -/

/-- A number as far as a reader of whole numbers tells them apart. -/
inductive Number where
  /-- A whole number that is a 64-bit word. -/
  | word (value : UInt64)
  /-- Negative, broken or too large. -/
  | other
  deriving DecidableEq, Repr

/-- A natural number rounded to 53 binary digits, a tie to the even neighbour. -/
def round53 (value : Nat) : Nat :=
  -- The unit is what the last of 53 binary digits counts.
  let unit := 1 <<< (value.log2 + 1 - 53)
  let quotient := value / unit
  let twice := 2 * (value % unit)
  let up := unit < twice ∨ (unit = twice ∧ quotient % 2 = 1)
  (if up then quotient + 1 else quotient) * unit

/-- The least value that rounds past the largest double, a half unit above it. -/
def doubleLimit : Nat := (1 <<< 1024) - (1 <<< 970)

/--
Whether a number with this significand and decimal exponent has a double.

The significand and the power of ten are rounded before they are multiplied.
-/
def hasDouble (significand : Nat) (exponent : Int) : Bool :=
  -- Small numbers round to zero at the worst, which is a double.
  if exponent < 0 ∨ significand = 0 then true
  else if 308 < exponent then false
  else round53 significand * round53 (Nat.pow 10 exponent.toNat) < doubleLimit

/-- A number that is no word, provided that it has a double. -/
def otherNumber (significand : Nat) (exponent : Int) : Reader Number := fun rest =>
  if hasDouble significand exponent then .ok (.other, rest) else .error .notJson

/-- The decimal digits in front. -/
def digitsOf (bytes : Bytes) : List Nat := (bytes.takeWhile isDigit).filterMap digit?

/-- What follows the decimal digits in front. -/
def afterDigits (bytes : Bytes) : Bytes := bytes.dropWhile isDigit

/-- Appends digits to a significand while it stays a word; gives how many there was room for. -/
def extend (significand : Nat) : List Nat → Nat × Nat
  | [] => (significand, 0)
  | digit :: digits =>
    -- The first digit without room ends the significand.
    if wordMax < significand * 10 + digit then (significand, 0)
    else
      let (significand, count) := extend (significand * 10 + digit) digits
      (significand, count + 1)

/-- The largest decimal exponent that is told from larger ones. -/
def exponentLimit : Nat := (1 <<< 31) - 1

/-- The exponent that digits write; all above the limit are one. -/
def exponentOf (digits : List Nat) : Nat :=
  digits.foldl (fun value digit => min (exponentLimit + 1) (value * 10 + digit)) 0

/-- The sign of an exponent, and the rest. -/
def exponentSign : Bytes → Bool × Bytes
  | [] => (true, [])
  | byte :: rest =>
    if byte = ascii '+' then (true, rest)
    else if byte = ascii '-' then (false, rest)
    else (true, byte :: rest)

/-- The exponent of a number, read after its letter. -/
def exponentPart (significand : Nat) (shift : Int) : Reader Number := fun bytes =>
  let (positive, bytes) := exponentSign bytes
  match bytes with
  | [] => .error .endsEarly
  | first :: _ =>
    if !isDigit first then .error .notJson
    else
      let exponent := exponentOf (digitsOf bytes)
      -- Such an exponent decides by itself, unless the significand is zero.
      if exponentLimit < exponent then
        if significand ≠ 0 ∧ positive then .error .notJson else .ok (.other, afterDigits bytes)
      else
        otherNumber significand (if positive then shift + exponent else shift - exponent)
          (afterDigits bytes)

/-- The digits of a number after the point. -/
def fractionPart (significand : Nat) (shift : Nat) : Reader Number
  | [] => .error .endsEarly
  | first :: rest =>
    if !isDigit first then .error .notJson
    else
      let bytes := first :: rest
      let (significand, count) := extend significand (digitsOf bytes)
      -- Digits behind the point count less by a power of ten each.
      let shift : Int := shift - count
      match afterDigits bytes with
      | [] => otherNumber significand shift []
      | byte :: rest =>
        if byte = ascii 'e' ∨ byte = ascii 'E' then exponentPart significand shift rest
        else otherNumber significand shift (byte :: rest)

/-- What a whole number is when nothing that breaks it follows. -/
def wholeNumber (negative : Bool) (significand shift : Nat) : Reader Number := fun rest =>
  -- Digits without room in the significand make the number too large for a word.
  if negative ∨ shift ≠ 0 then otherNumber significand shift rest
  else .ok (.word (UInt64.ofNat significand), rest)

/-- A number without its sign: no zero in front of other digits. -/
def number (negative : Bool) : Reader Number
  | [] => .error .endsEarly
  | first :: rest =>
    if !isDigit first then .error .notJson
    else
      let bytes := first :: rest
      let digits := digitsOf bytes
      -- A zero in front stands alone.
      if first = ascii '0' ∧ 1 < digits.length then .error .notJson
      else
        let (significand, count) := extend 0 digits
        let shift := digits.length - count
        match afterDigits bytes with
        | [] => wholeNumber negative significand shift []
        | byte :: rest =>
          if byte = ascii '.' then fractionPart significand shift rest
          else if byte = ascii 'e' ∨ byte = ascii 'E' then exponentPart significand shift rest
          else wholeNumber negative significand shift (byte :: rest)

/-! Values that are passed over -/

/-- The letters of a word such as `null` that follow its first one. -/
def letters : List Char → Bytes → Except Fault Bytes
  | [], bytes => .ok bytes
  | _ :: _, [] => .error .endsEarly
  | letter :: rest, byte :: bytes =>
    if byte = ascii letter then letters rest bytes else .error .notJson

/-- Passes over a text after its opening mark: at most as many characters as `bound` has bytes. -/
def skipText : (bound : Bytes) → Bytes → Except Fault Bytes
  | [], _ => .error .endsEarly
  | _ :: _, [] => .error .endsEarly
  -- Every turn takes a byte at least, so the bound is not what ends a text.
  | _ :: bound, byte :: rest =>
    if byte = ascii '"' then .ok rest
    else if byte = ascii '\\' then
      match rest with
      | [] => .error .endsEarly
      | letter :: rest =>
        if letter = ascii 'u' then do
          let (_, rest) ← hexWord rest
          skipText bound rest
        else if (letterEscape? letter).isSome then skipText bound rest
        else .error .notJson
    else if byte < 0x20 then .error .notJson
    else skipText bound rest

/-- Passes over an exponent after its letter. -/
def skipExponent (bytes : Bytes) : Except Fault Bytes :=
  -- How large the exponent is does not matter when it is passed over.
  let (_, bytes) := exponentSign bytes
  if (bytes.head?.map isDigit).getD false then .ok (afterDigits bytes) else .error .notJson

/-- Passes over the digits after the point. -/
def skipFraction (bytes : Bytes) : Except Fault Bytes :=
  if (bytes.head?.map isDigit).getD false then
    match afterDigits bytes with
    | [] => .ok []
    | byte :: rest =>
      if byte = ascii 'e' ∨ byte = ascii 'E' then skipExponent rest else .ok (byte :: rest)
  else .error .notJson

/-- Passes over a number without its sign, however large it is. -/
def skipNumber : Bytes → Except Fault Bytes
  | [] => .error .notJson
  | first :: rest =>
    if !isDigit first then .error .notJson
    -- No digit may follow a leading zero.
    else if first = ascii '0' ∧ (rest.head?.map isDigit).getD false then .error .notJson
    else
      match afterDigits (first :: rest) with
      | [] => .ok []
      | byte :: rest =>
        if byte = ascii '.' then skipFraction rest
        else if byte = ascii 'e' ∨ byte = ascii 'E' then skipExponent rest
        else .ok (byte :: rest)

/-- A bracket that is open. -/
inductive Bracket where
  | list | object
  deriving DecidableEq, Repr

/-- The byte that closes a bracket. -/
def Bracket.closing : Bracket → UInt8
  | list => ascii ']' | object => ascii '\x7d'

/-- Passes over a name and its colon, where a member of an object is due. -/
def skipName (bytes : Bytes) : Except Fault Bytes :=
  match skipBlanks bytes with
  | [] => .error .endsEarly
  | mark :: rest =>
    if mark ≠ ascii '"' then .error .notJson
    else do
      let rest ← skipText rest rest
      expect (ascii ':') (skipBlanks rest)

/-- A member's name first, where the innermost bracket is an object's. -/
def skipToValue : Bracket → Bytes → Except Fault Bytes
  | .list, bytes => .ok bytes
  | .object, bytes => skipName bytes

/-- Passes over a value that is no list and no object. -/
def skipScalar (first : UInt8) (rest : Bytes) : Except Fault Bytes :=
  if first = ascii 'n' then letters ['u', 'l', 'l'] rest
  else if first = ascii 't' then letters ['r', 'u', 'e'] rest
  else if first = ascii 'f' then letters ['a', 'l', 's', 'e'] rest
  else if first = ascii '-' then skipNumber rest
  else if isDigit first then skipNumber (first :: rest)
  else if first = ascii '"' then skipText rest rest
  else .error .notJson

/-- What is still to be passed over: what may come next in the open brackets, innermost first. -/
structure Remainder where
  opened : List Bracket
  /-- Whether a value came last; if not, a bracket was opened, after which no comma may stand. -/
  afterValue : Bool
  rest : Bytes
  deriving DecidableEq, Repr

/-- Passes over a value, or over its opening bracket. -/
def enterValue (opened : List Bracket) (bytes : Bytes) : Except Fault Remainder :=
  match skipBlanks bytes with
  | [] => .error .endsEarly
  | first :: rest =>
    if first = ascii '[' then .ok ⟨.list :: opened, false, rest⟩
    else if first = ascii '\x7b' then .ok ⟨.object :: opened, false, rest⟩
    -- A value without brackets is over at once.
    else (skipScalar first rest).map fun rest => ⟨opened, true, rest⟩

/-- Passes over the next item or member, or over the closing bracket. -/
def Remainder.next (bracket : Bracket) (opened : List Bracket) (afterValue : Bool)
    (bytes : Bytes) : Except Fault Remainder :=
  match skipBlanks bytes with
  | [] => .error .endsEarly
  | first :: rest =>
    -- A comma only stands between a value and the next one.
    if afterValue ∧ first = ascii ',' then do
      enterValue (bracket :: opened) (← skipToValue bracket rest)
    else if first = bracket.closing then .ok ⟨opened, true, rest⟩
    else if afterValue then .error .notJson
    else do
      enterValue (bracket :: opened) (← skipToValue bracket (first :: rest))

/--
Passes over all that is open; texts and numbers in it may be out of range.

Every item and every closing bracket takes a byte, so `bound` needs as many as are left.
-/
def closeAll : (bound : Bytes) → Remainder → Except Fault Bytes
  | _, ⟨[], _, rest⟩ => .ok rest
  | [], _ => .error .endsEarly
  | _ :: bound, ⟨bracket :: opened, afterValue, rest⟩ => do
    closeAll bound (← Remainder.next bracket opened afterValue rest)

/-- Passes over a value. -/
def skipValue (bytes : Bytes) : Except Fault Bytes := do
  -- What the value opens is kept in a list, so that depth has no limit.
  let remainder ← enterValue [] bytes
  closeAll remainder.rest remainder

/-- The fault of a value that is not what is due; a text or number is read before it is refused. -/
def refuse (bytes : Bytes) : Fault :=
  let faultOf {α : Type} (result : Except Fault α) : Fault :=
    match result with
    | .error fault => fault
    | .ok _ => .wrongShape
  match bytes with
  | [] => .notJson
  | first :: rest =>
    -- The first byte tells the kind of the value, which is read for its own faults first.
    if first = ascii 'n' then faultOf (letters ['u', 'l', 'l'] rest)
    else if first = ascii 't' then faultOf (letters ['r', 'u', 'e'] rest)
    else if first = ascii 'f' then faultOf (letters ['a', 'l', 's', 'e'] rest)
    else if first = ascii '-' then faultOf (number true rest)
    else if isDigit first then faultOf (number false bytes)
    else if first = ascii '"' then faultOf (textAfterMark rest)
    else if first = ascii '[' ∨ first = ascii '\x7b' then .wrongShape
    else .notJson

end HeapAtlas.JsonText
