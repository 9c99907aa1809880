/-! The coarse origin of a class, and which origins a ranking keeps. -/

namespace HeapAtlas

/-- The coarse origin of a class. -/
inductive Category where
  /-- Arrays and descriptors of primitive types. -/
  | primitive
  /-- The language's runtime and standard library. -/
  | runtime
  /-- Third-party frameworks. -/
  | framework
  /-- Whatever is not recognised. -/
  | application
  /-- Application classes under a configured business prefix. -/
  | business
  deriving DecidableEq, Repr, Inhabited

namespace Category

/-- The categories in order. -/
def all : List Category := [primitive, runtime, framework, application, business]

/-- The name of a category. -/
def name : Category → String
  | primitive => "primitive" | runtime => "runtime_internal" | framework => "framework_internal"
  | application => "application" | business => "business"

/-- The category of a name. -/
def ofName? (text : String) : Option Category := all.find? fun category => category.name = text

/-- The bit that stands for a category in a filter. -/
def bit : Category → UInt8
  | primitive => 1 | runtime => 2 | framework => 4 | application => 8 | business => 16

end Category

/-- A set of categories, one bit for each. -/
structure CategoryFilter where
  bits : UInt8
  deriving DecidableEq, Repr

namespace CategoryFilter

/-- Keeps exactly the given categories. -/
def only (categories : List Category) : CategoryFilter :=
  ⟨categories.foldl (fun bits category => bits ||| category.bit) 0⟩

/-- Keeps every category. -/
def everything : CategoryFilter := only Category.all

/-- Keeps application and business classes. -/
def ownCode : CategoryFilter := only [.application, .business]

instance : Inhabited CategoryFilter := ⟨ownCode⟩

/-- Whether a category is kept. -/
def allows (filter : CategoryFilter) (category : Category) : Bool :=
  filter.bits &&& category.bit != 0

end CategoryFilter

end HeapAtlas
