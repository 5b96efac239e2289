import StackCode.Value

/-!
# Data of a running program

A datum is a constant, an array or an object. Arrays and objects are shared: the datum is an
address, and the heap holds what stands there.
-/

namespace StackCode

open Text

/-- A datum of a running program. Two are the same if they are equal constants, or the array or
object at one address. -/
inductive Datum where
  | scalar (v : Value)
  | array (address : Nat)
  | object (address : Nat)
  deriving DecidableEq, Repr, Inhabited

namespace Datum

/-- What a slot holds before it is written, and what a function gives that returns nothing. -/
def null : Datum := scalar .null

def typeName : Datum → Text
  | scalar v => v.kind.name
  | array _ => "array"
  | object _ => "object"

end Datum

/-- An object: its class and its fields, each name once. An object from outside the machine may have
no table of fields. It reads like an empty one, but nothing can be stored in it. -/
structure Object where
  className : Text
  fields : Option (List (Text × Datum)) := some []
  deriving DecidableEq, Repr, Inhabited

namespace Object

/-- The fields that were written, with their contents. -/
def entries (o : Object) : List (Text × Datum) := o.fields.getD []

/-- The content of a field; one that was never written is null. -/
def get (o : Object) (name : Text) : Datum := (o.entries.lookup name).getD .null

def write (name : Text) (d : Datum) : List (Text × Datum) → List (Text × Datum)
  | [] => [(name, d)]
  | (n, old) :: rest => if n = name then (name, d) :: rest else (n, old) :: write name d rest

/-- The object after a store, which needs a table. -/
def set (o : Object) (name : Text) (d : Datum) : Object :=
  { o with fields := o.fields.map (write name d) }

def hasTable (o : Object) : Bool := o.fields.isSome

end Object

/-- The arrays and objects of a running program, in the order of their making. -/
structure Heap where
  arrays : Array (Array Datum) := #[]
  objects : Array Object := #[]
  deriving DecidableEq, Repr, Inhabited

namespace Heap

def addArray (h : Heap) (elems : Array Datum) : Heap × Datum :=
  let ⟨arrays, objects⟩ := h
  let address := arrays.size
  (⟨arrays.push elems, objects⟩, .array address)

def addObject (h : Heap) (o : Object) : Heap × Datum :=
  let ⟨arrays, objects⟩ := h
  let address := objects.size
  (⟨arrays, objects.push o⟩, .object address)

/-- The text of a datum whose arrays and objects are nested at most `depth` deep, none if they go
deeper. The fields of an object are shown in the order of their names. -/
def textWithin (h : Heap) : (depth : Nat) → Datum → Option Text
  | _, .scalar v => some v.text
  | 0, _ => none
  | depth + 1, .array a => do
    let parts ← (h.arrays.getD a #[]).toList.mapM (h.textWithin depth)
    return "[" ++ join ", " parts ++ "]"
  | depth + 1, .object a => do
    let o := h.objects.getD a { className := [] }
    let fields := o.entries.mergeSort fun f g => !before g.1 f.1
    let parts ← fields.mapM fun (name, d) => do
      let t ← h.textWithin depth d
      return name ++ ": " ++ t
    return o.className ++ "\x7b" ++ join ", " parts ++ "\x7d"

/-- The text of a datum. One that contains itself has none; any other is nested at most as deep as
there are arrays and objects. -/
def text? (h : Heap) (d : Datum) : Option Text := h.textWithin (h.arrays.size + h.objects.size) d

end Heap

end StackCode
