import HeapAtlas.Ident

/-! What a heap holds: classes, objects with their references and primitive fields, and roots. -/

namespace HeapAtlas

/-- Declared type of a field. -/
inductive FieldType where
  | object | boolean | char | float | double | byte | short | int | long
  deriving DecidableEq, Repr, Inhabited

namespace FieldType

/-- The byte that stands for a type; zero is left free for "no type recorded". -/
def tag : FieldType → UInt8
  | object => 1 | boolean => 2 | char => 3 | float => 4 | double => 5
  | byte => 6 | short => 7 | int => 8 | long => 9

/-- The type that a byte stands for. -/
def ofTag? : UInt8 → Option FieldType
  | 1 => some object | 2 => some boolean | 3 => some char | 4 => some float | 5 => some double
  | 6 => some byte | 7 => some short | 8 => some int | 9 => some long
  | _ => none

/-- The name of a type. -/
def name : FieldType → String
  | object => "object" | boolean => "boolean" | char => "char" | float => "float"
  | double => "double" | byte => "byte" | short => "short" | int => "int" | long => "long"

/-- The types in the order of their bytes. -/
def all : List FieldType := [object, boolean, char, float, double, byte, short, int, long]

/-- The type of a name. -/
def ofName? (text : String) : Option FieldType := all.find? fun type => type.name = text

/-- A type is read back from its byte. -/
@[simp] theorem ofTag?_tag (type : FieldType) : ofTag? type.tag = some type := by
  cases type <;> rfl

/-- The byte of an optional type, zero for none. -/
def tagOf : Option FieldType → UInt8
  | none => 0
  | some type => type.tag

/-- An optional type is read back from its byte. -/
@[simp] theorem ofTag?_tagOf (type : Option FieldType) : ofTag? (tagOf type) = type := by
  cases type with
  | none => rfl
  | some type => exact ofTag?_tag type

end FieldType

/-- Value of a field that is no reference; floating values are kept as their bit patterns. -/
inductive PrimitiveValue where
  | boolean (value : Bool)
  | char (unit : UInt16)
  | float (bits : UInt32)
  | double (bits : UInt64)
  | byte (value : Int8)
  | short (value : Int16)
  | int (value : Int32)
  | long (value : Int64)
  deriving DecidableEq, Repr, Inhabited

namespace PrimitiveValue

/-- The type that a value belongs to. -/
def fieldType : PrimitiveValue → FieldType
  | boolean _ => .boolean | char _ => .char | float _ => .float | double _ => .double
  | byte _ => .byte | short _ => .short | int _ => .int | long _ => .long

/-- The word that holds a value: its bits without a sign, filled up with zeros. -/
def bits : PrimitiveValue → UInt64
  -- Through the unsigned type of its own width, so no sign is carried into the high bits.
  | boolean value => if value then 1 else 0
  | char unit => unit.toUInt64
  | float bits => bits.toUInt64
  | double bits => bits
  | byte value => value.toUInt8.toUInt64
  | short value => value.toUInt16.toUInt64
  | int value => value.toUInt32.toUInt64
  | long value => value.toUInt64

/-- The value that a word holds under a type byte: its low bits, a boolean whether one is set. -/
def ofBits? (tag : UInt8) (bits : UInt64) : Option PrimitiveValue :=
  match FieldType.ofTag? tag with
  | some .boolean => some (boolean (bits != 0))
  | some .char => some (char bits.toUInt16)
  | some .float => some (float bits.toUInt32)
  | some .double => some (double bits)
  | some .byte => some (byte bits.toUInt8.toInt8)
  | some .short => some (short bits.toUInt16.toInt16)
  | some .int => some (int bits.toUInt32.toInt32)
  | some .long => some (long bits.toInt64)
  | some .object | none => none

/-- A value is read back from its type byte and its word. -/
@[simp] theorem ofBits?_bits (value : PrimitiveValue) :
    ofBits? value.fieldType.tag value.bits = some value := by
  cases value with
  | boolean value => cases value <;> rfl
  | _ => simp [ofBits?, fieldType, bits]

end PrimitiveValue

/-- How a reference is held. -/
inductive EdgeLabel where
  /-- By a named field. -/
  | field (name : String)
  /-- By a position of an array. -/
  | element (position : Nat)
  deriving DecidableEq, Repr, Inhabited

/-- A reference to an object, which the heap need not hold. -/
structure EdgeRecord where
  target : ObjectId
  label : EdgeLabel
  fieldType : Option FieldType
  deriving DecidableEq, Repr, Inhabited

/-- A reference held by a named field, recorded as a reference. -/
def EdgeRecord.ofField (name : String) (target : ObjectId) : EdgeRecord :=
  ⟨target, .field name, some .object⟩

/-- A reference held by a position of an array, with no type recorded. -/
def EdgeRecord.ofElement (position : Nat) (target : ObjectId) : EdgeRecord :=
  ⟨target, .element position, none⟩

/-- A named value that is no reference. -/
structure PrimitiveField where
  name : String
  value : PrimitiveValue
  deriving DecidableEq, Repr, Inhabited

/-- A class: its name, its superclass and the fields it declares, in layout order. -/
structure ClassInfo where
  name : String
  superclass : Option ClassId
  fields : List String
  deriving DecidableEq, Repr, Inhabited

/-- An object: its class, its own size in bytes, its references and its primitive fields. -/
structure ObjectRecord where
  classId : ClassId
  size : UInt64
  edges : List EdgeRecord
  primitives : List PrimitiveField
  deriving DecidableEq, Repr, Inhabited

/-- Why an object is a root of the heap. -/
inductive RootKind where
  | unknown | jniGlobal | jniLocal | javaFrame | nativeStack | stickyClass
  | threadBlock | monitorUsed | threadObject | systemClass | staticField | finalizing
  deriving DecidableEq, Repr, Inhabited

namespace RootKind

/-- The byte that stands for a kind of root. -/
def tag : RootKind → UInt8
  | unknown => 0 | jniGlobal => 1 | jniLocal => 2 | javaFrame => 3 | nativeStack => 4
  | stickyClass => 5 | threadBlock => 6 | monitorUsed => 7 | threadObject => 8
  | systemClass => 9 | staticField => 10 | finalizing => 11

/-- The kind of root that a byte stands for. -/
def ofTag? : UInt8 → Option RootKind
  | 0 => some unknown | 1 => some jniGlobal | 2 => some jniLocal | 3 => some javaFrame
  | 4 => some nativeStack | 5 => some stickyClass | 6 => some threadBlock
  | 7 => some monitorUsed | 8 => some threadObject | 9 => some systemClass
  | 10 => some staticField | 11 => some finalizing
  | _ => none

/-- The name of a kind of root. -/
def name : RootKind → String
  | unknown => "unknown" | jniGlobal => "jni_global" | jniLocal => "jni_local"
  | javaFrame => "java_frame" | nativeStack => "native_stack" | stickyClass => "sticky_class"
  | threadBlock => "thread_block" | monitorUsed => "monitor_used"
  | threadObject => "thread_object" | systemClass => "system_class"
  | staticField => "static_field" | finalizing => "finalizing"

/-- A kind of root is read back from its byte. -/
@[simp] theorem ofTag?_tag (kind : RootKind) : ofTag? kind.tag = some kind := by
  cases kind <;> rfl

/-- The kinds in the order of their bytes. -/
def all : List RootKind :=
  [unknown, jniGlobal, jniLocal, javaFrame, nativeStack, stickyClass, threadBlock, monitorUsed,
    threadObject, systemClass, staticField, finalizing]

/-- The kind of root of a name. -/
def ofName? (text : String) : Option RootKind := all.find? fun kind => kind.name = text

end RootKind

/-- An object that the heap keeps alive by itself. -/
structure GcRoot where
  object : ObjectId
  kind : RootKind
  deriving DecidableEq, Repr, Inhabited

end HeapAtlas
