import HeapAtlas.Bytes

/-! Bytes as text of two hexadecimal digits each. -/

namespace HeapAtlas.Hex

/-- The two lowercase digits of a byte. -/
def digits (byte : UInt8) : List Char :=
  [Nat.digitChar (byte.toNat / 16), Nat.digitChar (byte.toNat % 16)]

/-- The digits of bytes. -/
def encode (bytes : Bytes) : String := String.ofList (bytes.flatMap digits)

/-- The value of a lowercase digit. -/
def digit? (c : Char) : Option Nat :=
  if '0' ≤ c ∧ c ≤ '9' then some (c.toNat - '0'.toNat)
  else if 'a' ≤ c ∧ c ≤ 'f' then some (c.toNat - 'a'.toNat + 10)
  else none

/-- The bytes that characters write, if they are digits in pairs. -/
def decodeChars : List Char → Option Bytes
  | [] => some []
  | [_] => none
  | high :: low :: rest => do
    let high ← digit? high
    let low ← digit? low
    let others ← decodeChars rest
    return UInt8.ofNat (high * 16 + low) :: others

/-- The bytes that a text writes. -/
def decode? (text : String) : Option Bytes := decodeChars text.toList

end HeapAtlas.Hex
