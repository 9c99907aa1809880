import HeapAtlas.Json.Lexer
import HeapAtlas.Json.Value

/-!
Shapes that JSON can be read into, straight from a text or from a value at hand.

A record may also be given as the list of its fields in order; members that it does not know are
passed over.
-/

namespace HeapAtlas

open JsonText

/-- How values of a type are read: from the front of a text, and from a JSON value. -/
structure JsonCodec (α : Type) where
  read : Reader α
  ofValue? : JsonValue → Option α

namespace JsonCodec

/-- A 64-bit word. -/
def word : JsonCodec UInt64 where
  read bytes :=
    match skipBlanks bytes with
    | [] => .error .endsEarly
    | first :: rest =>
      if first = ascii '-' then
        -- A negative number is never a word, but it has to be a number.
        match number true rest with
        | .ok _ => .error .wrongShape
        | .error fault => .error fault
      else if isDigit first then
        match number false (first :: rest) with
        | .ok (.word value, rest) => .ok (value, rest)
        | .ok (.other, _) => .error .wrongShape
        | .error fault => .error fault
      else .error (refuse (first :: rest))
  ofValue?
    | .integer value =>
      if 0 ≤ value ∧ value ≤ wordMax then some (UInt64.ofNat value.toNat) else none
    | _ => none

/-- A text. -/
def text : JsonCodec String where
  read bytes :=
    match skipBlanks bytes with
    | [] => .error .endsEarly
    | first :: rest =>
      if first = ascii '"' then textAfterMark rest else .error (refuse (first :: rest))
  ofValue?
    | .text value => some value
    | _ => none

/-! Lists -/

/-- Where the next item of a list begins, or none where the list's closing bracket stands. -/
def nextItem? (isFirst : Bool) (bytes : Bytes) : Except Fault (Option Bytes) :=
  match skipBlanks bytes with
  | [] => .error .endsEarly
  | first :: rest =>
    if first = ascii ']' then .ok none
    else if isFirst then .ok (some (first :: rest))
    else if first = ascii ',' then
      -- After a comma another item is due.
      match skipBlanks rest with
      | [] => .error .endsEarly
      | first :: rest => if first = ascii ']' then .error .notJson else .ok (some (first :: rest))
    else .error .notJson

/-- The items of a list up to its closing bracket: at most as many as `bound` has bytes. -/
def readItems {α : Type} (item : Reader α) : (bound : Bytes) → (isFirst : Bool) → Reader (List α)
  | [], _, _ => .error .endsEarly
  | _ :: bound, isFirst, bytes => do
    -- Every item takes a byte at least, so the bound is not what ends a list.
    match ← nextItem? isFirst bytes with
    | none => return ([], bytes)
    | some bytes =>
      let (first, rest) ← item bytes
      let (others, rest) ← readItems item bound false rest
      return (first :: others, rest)

/-- Takes the closing bracket of a list. -/
def endList (bytes : Bytes) : Except Fault Bytes := expect (ascii ']') (skipBlanks bytes)

/-- The items of a list of values, if each has the right shape. -/
def itemsOf? {α : Type} (item : JsonValue → Option α) : List JsonValue → Option (List α)
  | [] => some []
  | value :: values => do
    let first ← item value
    let others ← itemsOf? item values
    return first :: others

/-- A list of items of one shape. -/
def list {α : Type} (item : JsonCodec α) : JsonCodec (List α) where
  read bytes :=
    match skipBlanks bytes with
    | [] => .error .endsEarly
    | first :: rest =>
      if first = ascii '[' then do
        let (items, rest) ← readItems item.read rest true rest
        return (items, ← endList rest)
      else .error (refuse (first :: rest))
  ofValue?
    | .array values => itemsOf? item.ofValue? values
    | _ => none

/-! Records -/

/-- A field of a record: its name, whether it must be given, and how it is set. -/
structure Field (σ : Type) where
  name : String
  required : Bool
  read : Reader (σ → σ)
  ofValue? : JsonValue → Option (σ → σ)

/-- A field of the shape of a codec. -/
def field {σ α : Type} (name : String) (required : Bool) (codec : JsonCodec α)
    (set : α → σ → σ) : Field σ where
  name := name
  required := required
  read bytes := (codec.read bytes).map fun (value, rest) => (set value, rest)
  ofValue? value := (codec.ofValue? value).map set

/-- Reads a record given as a list: fields in order, of which the last may be missing. -/
def readPositions {σ : Type} (isFirst : Bool) : List (Field σ) → σ → Reader σ
  | [], record, bytes => .ok (record, bytes)
  | field :: fields, record, bytes => do
    match ← nextItem? isFirst bytes with
    | none =>
      -- The list ended early, which only fields with a standard value allow.
      if field.required then throw .wrongShape
      readPositions isFirst fields record bytes
    | some bytes =>
      let (set, rest) ← field.read bytes
      readPositions false fields (set record) rest

/-- Where the name of the next member begins, or none where the closing brace stands. -/
def nextName? (isFirst : Bool) (bytes : Bytes) : Except Fault (Option Bytes) :=
  match skipBlanks bytes with
  | [] => .error .endsEarly
  | first :: rest =>
    if first = ascii '\x7d' then .ok none
    else if isFirst then if first = ascii '"' then .ok (some rest) else .error .notJson
    -- After a comma another member has to follow: a brace there is refused.
    else if first = ascii ',' then
      match skipBlanks rest with
      | [] => .error .endsEarly
      | first :: rest => if first = ascii '"' then .ok (some rest) else .error .notJson
    else .error .notJson

/--
Reads the members of an object up to its closing brace: at most as many as `bound` has bytes.

A field given twice is refused at its second name, and one that must be given but is not at the
closing brace.
-/
def readMembers {σ : Type} (fields : List (Field σ)) :
    (bound : Bytes) → (isFirst : Bool) → (seen : List String) → σ → Reader σ
  | [], _, _, _, _ => .error .endsEarly
  | _ :: bound, isFirst, seen, record, bytes => do
    match ← nextName? isFirst bytes with
    | none =>
      -- Only at the end is it known which fields were left out.
      if fields.any fun field => field.required && !seen.contains field.name then
        throw .wrongShape
      return (record, bytes)
    | some bytes =>
      let (name, rest) ← textAfterMark bytes
      match fields.find? (·.name = name) with
      | some field =>
        -- The second name is refused before its value is looked at.
        if seen.contains name then throw .wrongShape
        let rest ← expect (ascii ':') (skipBlanks rest)
        let (set, rest) ← field.read rest
        readMembers fields bound false (name :: seen) (set record) rest
      | none =>
        let rest ← expect (ascii ':') (skipBlanks rest)
        -- A member that no field knows may hold any value.
        let rest ← skipValue rest
        readMembers fields bound false seen record rest

/-- Takes the closing brace of an object. -/
def endObject (bytes : Bytes) : Except Fault Bytes := expect (ascii '\x7d') (skipBlanks bytes)

/-- Sets the fields of a record from a list of values in order. -/
def setPositions? {σ : Type} : List (Field σ) → List JsonValue → σ → Option σ
  | [], [], record => some record
  | [], _ :: _, _ => none
  | field :: fields, [], record =>
    -- A list may end early where only fields follow that can be left out.
    if field.required then none else setPositions? fields [] record
  | field :: fields, value :: values, record => do
    let set ← field.ofValue? value
    setPositions? fields values (set record)

/-- Sets the fields of a record from members, of which each name occurs once. -/
def setMembers? {σ : Type} (members : List (String × JsonValue)) :
    List (Field σ) → σ → Option σ
  | [], record => some record
  | field :: fields, record =>
    -- A value holds each name once, so the first is the only one.
    match members.lookup field.name with
    | none => if field.required then none else setMembers? members fields record
    | some value => do
      let set ← field.ofValue? value
      setMembers? members fields (set record)

/-- A record that is given by its fields, the ones left out as in `start`. -/
def record {σ : Type} (fields : List (Field σ)) (start : σ) : JsonCodec σ where
  read bytes :=
    match skipBlanks bytes with
    | [] => .error .endsEarly
    | first :: rest =>
      -- Brackets give the fields by position, braces by name.
      if first = ascii '[' then do
        let (record, rest) ← readPositions true fields start rest
        return (record, ← endList rest)
      else if first = ascii '\x7b' then do
        let (record, rest) ← readMembers fields rest true [] start rest
        return (record, ← endObject rest)
      else .error (refuse (first :: rest))
  ofValue?
    | .array values => setPositions? fields values start
    | .object members => setMembers? members fields start
    | _ => none

/-- Reads a whole text; nothing but blanks may follow the value. -/
def parse {α : Type} (codec : JsonCodec α) (bytes : Bytes) : Except Fault α := do
  let (value, rest) ← codec.read bytes
  -- Blanks are all that may stand behind the value.
  if (skipBlanks rest).isEmpty then return value else throw .notJson

end JsonCodec

end HeapAtlas
