import HeapAtlas.Category
import HeapAtlas.Text.Blank

/-! The category of a class by its name: primitives first, then business, runtime, framework. -/

namespace HeapAtlas.Categorize

/-- The names of primitive types. -/
def primitiveNames : List String :=
  ["boolean", "byte", "char", "short", "int", "long", "float", "double"]

/-- The letters that stand for primitive types in array descriptors. -/
def descriptorLetters : List Char := ['Z', 'B', 'C', 'S', 'I', 'J', 'F', 'D']

/-- What names of the runtime and its standard library begin with. -/
def runtimePrefixes : List String :=
  ["java.", "javax.", "jdk.", "sun.", "com.sun.", "kotlin.", "scala."]

/-- What names of known frameworks begin with. -/
def frameworkPrefixes : List String :=
  ["org.springframework.", "org.apache.", "org.hibernate.", "org.eclipse.", "org.slf4j.",
    "ch.qos.logback.", "io.netty.", "io.grpc.", "io.micrometer.", "io.opentelemetry.",
    "com.google.", "com.fasterxml.", "com.zaxxer.", "reactor.", "okhttp3."]

/-- Drops pairs of array brackets from the front of a reversed name. -/
def dropBrackets : List Char → List Char
  | ']' :: '[' :: rest => dropBrackets rest
  | name => name

/-- The characters of the type of an array's innermost elements, for any other name its own. -/
def elementChars (name : String) : List Char :=
  (dropBrackets (Text.trimBlank name.toList).reverse).reverse

/-- The type of an array's innermost elements. -/
def elementType (name : String) : String := String.ofList (elementChars name)

/-- Whether a name is an array descriptor: brackets and one letter for a primitive type. -/
def isDescriptor (name : List Char) : Bool :=
  match name.dropWhile (· = '[') with
  | [letter] => name.head? = some '[' && descriptorLetters.contains letter
  | _ => false

/-- Whether a class stands for a primitive type or an array of one. -/
def isPrimitive (name : String) : Bool :=
  primitiveNames.contains (elementType name) || isDescriptor name.toList

/-- Whether characters begin with one of the texts that are not empty. -/
def startsWithAny (name : List Char) (starts : List String) : Bool :=
  starts.any fun start => !start.isEmpty && start.toList.isPrefixOf name

/-- The category of a class under the given business prefixes. -/
def categorize (name : String) (business : List String) : Category :=
  let element := elementChars name
  -- The first rule that fires decides, so a business prefix wins over a runtime one.
  if isPrimitive name then .primitive
  else if startsWithAny element business then .business
  else if startsWithAny element runtimePrefixes then .runtime
  else if startsWithAny element frameworkPrefixes then .framework
  else .application

end HeapAtlas.Categorize
