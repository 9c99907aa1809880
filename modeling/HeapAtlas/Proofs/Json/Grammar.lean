import HeapAtlas.Proofs.Json.Numbers

/-!
The texts of a JSON value: blanks may stand between its pieces, and the members of an object in any
order. What the indented writer gives is one of them.
-/

namespace HeapAtlas.JsonText

/-- Blanks between the pieces of a text. -/
def Gap (bytes : Bytes) : Prop := ∀ byte ∈ bytes, isBlank byte = true

/-- What stands in front of an item: blanks, and a comma among them unless the item is first. -/
inductive Lead : Bool → Bytes → Prop where
  | first {gap : Bytes} (blank : Gap gap) : Lead true gap
  | next {before after : Bytes} (blankBefore : Gap before) (blankAfter : Gap after) :
      Lead false (before ++ ascii ',' :: after)

/-- Items, from the first or a later one on, up to the byte that closes them. -/
inductive Listed {α : Type} (Spelled : α → Bytes → Prop) (closing : UInt8) :
    Bool → List α → Bytes → Prop where
  | nil {isFirst : Bool} {gap : Bytes} (blank : Gap gap) :
      Listed Spelled closing isFirst [] (gap ++ [closing])
  | cons {isFirst : Bool} {lead text rest : Bytes} {item : α} {items : List α}
      (leads : Lead isFirst lead) (spelled : Spelled item text)
      (others : Listed Spelled closing false items rest) :
      Listed Spelled closing isFirst (item :: items) (lead ++ (text ++ rest))

/-- A member: its name, a colon and its value. -/
inductive Member (Spelled : JsonValue → Bytes → Prop) : String × JsonValue → Bytes → Prop where
  | mk {before after text : Bytes} {name : String} {value : JsonValue} (blankBefore : Gap before)
      (blankAfter : Gap after) (spelled : Spelled value text) :
      Member Spelled (name, value)
        (Bytes.ofChars (JsonValue.writeText name) ++ (before ++ ascii ':' :: (after ++ text)))

/-- The texts of a value. -/
inductive Spells : JsonValue → Bytes → Prop where
  | null : Spells .null (Bytes.ofChars "null".toList)
  | bool (value : Bool) :
      Spells (.bool value) (Bytes.ofChars (if value then "true" else "false").toList)
  | integer (value : Int) : Spells (.integer value) (Bytes.ofChars (toString value).toList)
  | real (digits : String) : Spells (.real digits) (Bytes.ofChars digits.toList)
  | text (value : String) : Spells (.text value) (Bytes.ofChars (JsonValue.writeText value))
  | array {items : List JsonValue} {inner : Bytes}
      (listed : Listed Spells (ascii ']') true items inner) :
      Spells (.array items) (ascii '[' :: inner)
  | object {members order : List (String × JsonValue)} {inner : Bytes} (same : order.Perm members)
      (listed : Listed (Member Spells) (ascii '\x7d') true order inner) :
      Spells (.object members) (ascii '\x7b' :: inner)

/-- The texts of a value with blanks around. -/
def Whole (value : JsonValue) (bytes : Bytes) : Prop :=
  ∃ before text after, Gap before ∧ Spells value text ∧ Gap after ∧
    bytes = before ++ (text ++ after)

/-! ### Indented texts -/

/-- A new line is a blank. -/
theorem gap_newLine (level : Nat) : Gap (Bytes.ofChars (JsonValue.newLine level)) := by
  -- The spaces of the indentation follow the line feed.
  have spaces (count : Nat) : Gap (Bytes.ofChars (List.replicate count ' ')) := by
    induction count with
    | zero => exact List.forall_mem_nil _
    | succ count ih => exact List.forall_mem_cons.mpr ⟨rfl, ih⟩
  exact List.forall_mem_cons.mpr ⟨rfl, spaces (2 * level)⟩

/-- The space behind a colon. -/
theorem gap_space : Gap [ascii ' '] := List.forall_mem_singleton.mpr rfl

/-- Nothing at all is a gap. -/
theorem gap_nil : Gap [] := List.forall_mem_nil _

section Indented

open JsonValue

mutual

/-- The indented form of a value is a text of it. -/
theorem spells_pretty (level : Nat) : (value : JsonValue) →
    Spells value (Bytes.ofChars (pretty level value))
  | .null => .null
  | .bool value => .bool value
  | .integer value => .integer value
  | .real digits => .real digits
  | .text value => .text value
  | .array [] => .array (.nil gap_nil)
  -- An item stands on a line of its own, one level deeper.
  | .array (item :: items) => by
    have first := spells_pretty (level + 1) item
    have others := listed_prettyItems (level + 1) level items
    simpa [pretty, utf8EncodeChar_of_ascii] using
      Spells.array (.cons (.first (gap_newLine (level + 1))) first others)
  | .object [] => .object (.refl _) (.nil gap_nil)
  | .object ((name, value) :: members) => by
    have first : Member Spells (name, value) _ :=
      .mk gap_nil gap_space (spells_pretty (level + 1) value)
    have others := listed_prettyMembers (level + 1) level members
    simpa [pretty, utf8EncodeChar_of_ascii] using
      Spells.object (.refl _) (.cons (.first (gap_newLine (level + 1))) first others)

/-- The items after the first, up to the closing bracket. -/
theorem listed_prettyItems (level outer : Nat) : (items : List JsonValue) →
    Listed Spells (ascii ']') false items
      (Bytes.ofChars (prettyItems level items ++ newLine outer ++ [']']))
  | [] => by
    simpa [prettyItems, utf8EncodeChar_of_ascii] using Listed.nil (gap_newLine outer)
  | item :: items => by
    -- In front of an item stand its comma and a line break, which is blank.
    have next := spells_pretty level item
    have others := listed_prettyItems level outer items
    simpa [prettyItems, utf8EncodeChar_of_ascii] using
      Listed.cons (.next gap_nil (gap_newLine level)) next others

/-- The members after the first, up to the closing brace. -/
theorem listed_prettyMembers (level outer : Nat) : (members : List (String × JsonValue)) →
    Listed (Member Spells) (ascii '\x7d') false members
      (Bytes.ofChars (prettyMembers level members ++ newLine outer ++ ['\x7d']))
  | [] => by
    simpa [prettyMembers, utf8EncodeChar_of_ascii] using Listed.nil (gap_newLine outer)
  | (name, value) :: members => by
    have next : Member Spells (name, value) _ :=
      .mk gap_nil gap_space (spells_pretty level value)
    have others := listed_prettyMembers level outer members
    simpa [prettyMembers, utf8EncodeChar_of_ascii] using
      Listed.cons (.next gap_nil (gap_newLine level)) next others

end

/-- The indented form of a value is a whole text of it. -/
theorem whole_render (value : JsonValue) : Whole value (Bytes.ofText (render value)) := by
  refine ⟨[], _, [], gap_nil, spells_pretty 0 value, gap_nil, ?_⟩
  rw [render, Bytes.ofText_ofList, List.append_nil, List.nil_append]

end Indented

end HeapAtlas.JsonText
