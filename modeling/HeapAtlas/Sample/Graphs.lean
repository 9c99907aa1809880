import HeapAtlas.Graph.Builder
import HeapAtlas.Sample.Generator

/-! Sample heaps: a diamond, chains, cycles and heaps drawn from a seed. -/

namespace HeapAtlas.Sample

/-- The one class of the small samples. -/
def nodeClass : ClassId := ⟨1⟩

/-- A builder that holds the one class of the small samples. -/
def nodeBuilder : HeapBuilder :=
  HeapBuilder.empty.insertClass nodeClass ⟨"com.example.Node", none, ["next", "other", "value"]⟩

/-- An object of the one class with named references. -/
def node (size : UInt64) (edges : List (String × UInt64)) : ObjectRecord :=
  ⟨nodeClass, size, edges.map fun (name, target) => .ofField name ⟨target⟩, []⟩

/-- A root with two children that share a grandchild. -/
def diamond : HeapBuilder :=
  (((nodeBuilder.insertObject ⟨0x100⟩ (node 16 [("next", 0x200), ("other", 0x400)])).insertObject
        ⟨0x200⟩ (node 24 [("next", 0x300)])).insertObject
      ⟨0x400⟩ (node 32 [("next", 0x300)])).insertObject
    ⟨0x300⟩ { node 40 [] with primitives := [⟨"value", .int 7⟩] }
  |>.addRoot ⟨0x100⟩ .jniGlobal

/-- Objects from 1 to `length` whose references `next` gives, the first of them a root. -/
def row (length : Nat) (next : Nat → List Nat) : HeapBuilder :=
  let objects := (List.range length).foldl (fun builder i =>
    let id := i + 1
    let targets := (next id).map fun target => ("next", UInt64.ofNat target)
    builder.insertObject ⟨UInt64.ofNat id⟩ (node (UInt64.ofNat (8 * id)) targets)) nodeBuilder
  if length = 0 then objects else objects.addRoot ⟨1⟩ .javaFrame

/-- Each object refers to the one after it. -/
def chain (length : Nat) : HeapBuilder :=
  row length fun id => if id < length then [id + 1] else []

/-- Each object refers to the one after it, the last one to the first. -/
def cycle (length : Nat) : HeapBuilder :=
  row length fun id => if id = length then [1] else [id + 1]

/-- How a drawn heap looks; of its references one in `danglingOneIn` dangles, none if zero. -/
structure Shape where
  objects : UInt64
  classes : UInt64
  maxOut : UInt64
  roots : UInt64
  danglingOneIn : UInt64
  deriving DecidableEq, Repr, Inhabited

namespace Shape

/-- The identifier of a drawn object; identifiers are ten apart. -/
def idOf (index : UInt64) : UInt64 := (index + 1) * 10

/-- At least one class is drawn. -/
def classCount (shape : Shape) : UInt64 := if shape.classes = 0 then 1 else shape.classes

/-- The class at an index, whose name tells even from odd. -/
def classAt (index : Nat) : ClassInfo :=
  let package := if index % 2 = 0 then "com.example.Type" else "java.util.Type"
  ⟨package ++ toString index, none, ["f", "n"]⟩

/-- Draws the target of a reference. -/
def target (shape : Shape) (generator : Generator) : ObjectId × Generator :=
  -- With no chance of dangling no number is drawn for it.
  let (dangles, generator) :=
    if 0 < shape.danglingOneIn then generator.chance 1 shape.danglingOneIn else (false, generator)
  if dangles then
    let (offset, generator) := generator.below 8
    (⟨idOf (shape.objects + offset) + 1⟩, generator)
  else
    let (index, generator) := generator.below shape.objects
    (⟨idOf index⟩, generator)

/-- Draws `count` references, all held by array positions or all by one field. -/
def edges (shape : Shape) (asArray : Bool) (count : Nat) (generator : Generator) :
    List EdgeRecord × Generator :=
  let (edges, generator) := (List.range count).foldl (fun (edges, generator) position =>
    let (target, generator) := shape.target generator
    let edge := if asArray then EdgeRecord.ofElement position target else .ofField "f" target
    (edge :: edges, generator)) ([], generator)
  (edges.reverse, generator)

/-- Draws an object. -/
def object (shape : Shape) (generator : Generator) : ObjectRecord × Generator :=
  -- The order of the draws decides what a seed stands for.
  let (classIndex, generator) := generator.below shape.classCount
  let (extra, generator) := generator.below 120
  let (count, generator) := generator.below (shape.maxOut + 1)
  let (asArray, generator) := generator.chance 1 4
  let (edges, generator) := shape.edges asArray count.toNat generator
  let (hasValue, generator) := generator.chance 1 3
  let (primitives, generator) :=
    if hasValue then
      let (value, generator) := generator.below 1000
      ([PrimitiveField.mk "n" (.int value.toUInt32.toInt32)], generator)
    else ([], generator)
  (⟨⟨classIndex + 1⟩, 8 + extra, edges, primitives⟩, generator)

/-- Draws a heap from a seed. -/
def draw (shape : Shape) (seed : UInt64) : HeapBuilder :=
  let classes := (List.range shape.classCount.toNat).foldl (fun builder index =>
    builder.insertClass ⟨UInt64.ofNat index + 1⟩ (classAt index)) HeapBuilder.empty
  let (builder, generator) := (List.range shape.objects.toNat).foldl
    (fun (builder, generator) index =>
      let (record, generator) := shape.object generator
      (builder.insertObject ⟨idOf (UInt64.ofNat index)⟩ record, generator))
    (classes, Generator.ofSeed seed)
  if shape.objects = 0 then builder
  else
    ((List.range shape.roots.toNat).foldl (fun (builder, generator) _ =>
      let (index, generator) := generator.below shape.objects
      (builder.addRoot ⟨idOf index⟩ .staticField, generator)) (builder, generator)).1

end Shape

end HeapAtlas.Sample
