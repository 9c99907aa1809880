import HeapAtlas.Text.Blank
import HeapAtlas.Text.Quoted

/-! Identifiers of objects and classes: 64-bit words, their written form and how a text is read. -/

namespace HeapAtlas

/-- Stable identifier of an object of the heap. -/
structure ObjectId where
  /-- The word that the capture assigned. -/
  raw : UInt64
  deriving DecidableEq, Repr, Inhabited, Hashable

/-- Stable identifier of a class. -/
structure ClassId where
  /-- The word that the capture assigned. -/
  raw : UInt64
  deriving DecidableEq, Repr, Inhabited, Hashable

/-- Position of an object or a class in ascending identifier order. -/
abbrev Slot := Nat

/-- Objects are ordered by their identifiers. -/
instance : Ord ObjectId := ⟨fun a b => compare a.raw b.raw⟩

/-- Classes are ordered by their identifiers. -/
instance : Ord ClassId := ⟨fun a b => compare a.raw b.raw⟩

/-- The order of object identifiers is transitive and oriented, as that of their words. -/
instance : Std.TransOrd ObjectId where
  eq_swap := (inferInstance : Std.TransOrd UInt64).eq_swap
  isLE_trans := (inferInstance : Std.TransOrd UInt64).isLE_trans

/-- The order of class identifiers is transitive and oriented, as that of their words. -/
instance : Std.TransOrd ClassId where
  eq_swap := (inferInstance : Std.TransOrd UInt64).eq_swap
  isLE_trans := (inferInstance : Std.TransOrd UInt64).isLE_trans

/-- Why a text names no identifier. -/
inductive IdentError where
  /-- Nothing but blanks. -/
  | empty
  /-- The trimmed text is neither a hexadecimal nor a decimal word. -/
  | malformed (text : String)
  deriving DecidableEq, Repr

/-- The wording of an identifier error. -/
def IdentError.message : IdentError → String
  | .empty => "identifier is empty"
  | .malformed text => "malformed identifier " ++ Text.quoted text

namespace Ident

/-- Value of an ASCII decimal digit. -/
def decimalDigit? (c : Char) : Option Nat :=
  if '0' ≤ c ∧ c ≤ '9' then some (c.toNat - '0'.toNat) else none

/-- Value of an ASCII hexadecimal digit of either case. -/
def hexDigit? (c : Char) : Option Nat :=
  if '0' ≤ c ∧ c ≤ '9' then some (c.toNat - '0'.toNat)
  else if 'a' ≤ c ∧ c ≤ 'f' then some (c.toNat - 'a'.toNat + 10)
  else if 'A' ≤ c ∧ c ≤ 'F' then some (c.toNat - 'A'.toNat + 10)
  else none

/-- The word that digits continue from `start`, if every character is a digit and it is a word. -/
def digitsFrom? (base : Nat) (digit? : Char → Option Nat) : Nat → List Char → Option Nat
  | start, [] => some start
  | start, c :: rest =>
    (digit? c).bind fun value =>
      if start * base + value < 1 <<< 64 then digitsFrom? base digit? (start * base + value) rest
      else none

/-- The word that one or more digits write. -/
def digits? (base : Nat) (digit? : Char → Option Nat) : List Char → Option Nat
  | [] => none
  | c :: rest => digitsFrom? base digit? 0 (c :: rest)

/-- The word that a trimmed text writes: hexadecimal after `0x` or `0X`, otherwise decimal. -/
def number? : List Char → Option Nat
  | '0' :: 'x' :: digits => digits? 16 hexDigit? digits
  | '0' :: 'X' :: digits => digits? 16 hexDigit? digits
  | digits => digits? 10 decimalDigit? digits

/-- Reads an identifier's word, ignoring blanks around it. -/
def parse (text : String) : Except IdentError UInt64 :=
  let trimmed := Text.trimBlank text.toList
  -- A malformed text is quoted without the blanks around it.
  if trimmed.isEmpty then .error .empty
  else
    match number? trimmed with
    | some value => .ok (UInt64.ofNat value)
    | none => .error (.malformed (String.ofList trimmed))

/-- An identifier is shown in lowercase hexadecimal after `0x`, without padding. -/
def render (word : UInt64) : String :=
  String.ofList ('0' :: 'x' :: Nat.toDigits 16 word.toNat)

end Ident

/-- Reads an object identifier. -/
def ObjectId.parse (text : String) : Except IdentError ObjectId :=
  (Ident.parse text).map ObjectId.mk

/-- The written form of an object identifier. -/
def ObjectId.render (id : ObjectId) : String := Ident.render id.raw

/-- Reads a class identifier. -/
def ClassId.parse (text : String) : Except IdentError ClassId :=
  (Ident.parse text).map ClassId.mk

/-- The written form of a class identifier. -/
def ClassId.render (id : ClassId) : String := Ident.render id.raw

end HeapAtlas
