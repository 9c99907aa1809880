import HeapAtlas.Bytes

/-! JSON values and their written form, on one line or indented. -/

namespace HeapAtlas

/-- A JSON value; an object keeps its members in order, and a real number only its text. -/
inductive JsonValue where
  | null
  | bool (value : Bool)
  | integer (value : Int)
  | real (text : String)
  | text (value : String)
  | array (items : List JsonValue)
  | object (members : List (String × JsonValue))
  deriving Inhabited

namespace JsonValue

/-- A natural number. -/
def ofNat (value : Nat) : JsonValue := .integer value

/-- A list of texts. -/
def ofTexts (texts : List String) : JsonValue := .array (texts.map .text)

/-- The value of an option, null for none. -/
def ofOption {α : Type} (toJson : α → JsonValue) : Option α → JsonValue
  | none => .null
  | some value => toJson value

/-- A member that is left out for none. -/
def member? {α : Type} (name : String) (toJson : α → JsonValue) :
    Option α → List (String × JsonValue)
  | none => []
  | some value => [(name, toJson value)]

/-- A hexadecimal digit in lowercase. -/
def hexDigit (value : Nat) : Char := Nat.digitChar value

/-- The characters that stand for one character between quotation marks. -/
def escape (c : Char) : List Char :=
  if c = '"' then ['\\', '"']
  else if c = '\\' then ['\\', '\\']
  else if c = '\x08' then ['\\', 'b']
  else if c = '\x0c' then ['\\', 'f']
  else if c = '\n' then ['\\', 'n']
  else if c = '\r' then ['\\', 'r']
  else if c = '\t' then ['\\', 't']
  else if c.toNat < 0x20 then
    ['\\', 'u', '0', '0', hexDigit (c.toNat / 16), hexDigit (c.toNat % 16)]
  else [c]

/-- A text between quotation marks. -/
def writeText (text : String) : List Char := '"' :: text.toList.flatMap escape ++ ['"']

/-- A new line, indented by two spaces for every level. -/
def newLine (level : Nat) : List Char := '\n' :: List.replicate (2 * level) ' '

mutual

/-- A value with every item and member on a line of its own. -/
def pretty (level : Nat) : JsonValue → List Char
  | .null => "null".toList
  | .bool value => (if value then "true" else "false").toList
  | .integer value => (toString value).toList
  | .real digits => digits.toList
  | .text value => writeText value
  | .array [] => ['[', ']']
  | .array (item :: items) =>
    '[' :: newLine (level + 1) ++ pretty (level + 1) item ++ prettyItems (level + 1) items
      ++ newLine level ++ [']']
  | .object [] => ['\x7b', '\x7d']
  | .object ((name, value) :: members) =>
    '\x7b' :: newLine (level + 1) ++ writeText name ++ [':', ' '] ++ pretty (level + 1) value
      ++ prettyMembers (level + 1) members ++ newLine level ++ ['\x7d']

/-- The items after the first. -/
def prettyItems (level : Nat) : List JsonValue → List Char
  | [] => []
  | item :: items => ',' :: newLine level ++ pretty level item ++ prettyItems level items

/-- The members after the first. -/
def prettyMembers (level : Nat) : List (String × JsonValue) → List Char
  | [] => []
  | (name, value) :: members =>
    ',' :: newLine level ++ writeText name ++ [':', ' '] ++ pretty level value
      ++ prettyMembers level members

end

/-- The indented form of a value. -/
def render (value : JsonValue) : String := String.ofList (pretty 0 value)

end JsonValue

end HeapAtlas
