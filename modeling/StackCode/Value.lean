import StackCode.Number.Literal
import StackCode.Number.Shortest
import StackCode.Text.Quoted

/-!
# Constants

The values that instructions carry as immediates and that a program keeps in its constant pool.
-/

namespace StackCode

open Text

/-- An immediate value. Two values are equal if they have the same kind and content; floating-point
numbers are compared by their bits. -/
inductive Value where
  | null
  | bool (b : Bool)
  | int (n : Int64)
  | float (x : Binary64)
  | str (s : Text)
  deriving DecidableEq, Repr, Hashable, Inhabited

namespace Value

inductive Kind where
  | null
  | bool
  | int
  | float
  | str
  deriving DecidableEq, Repr, Hashable

def Kind.name : Kind → Text
  | .null => "null"
  | .bool => "bool"
  | .int => "int"
  | .float => "float"
  | .str => "str"

def Kind.tag : Kind → UInt8
  | .null => 0
  | .bool => 1
  | .int => 2
  | .float => 3
  | .str => 4

def Kind.ofTag? (n : UInt8) : Option Kind :=
  match n.toNat with
  | 0 => some .null
  | 1 => some .bool
  | 2 => some .int
  | 3 => some .float
  | 4 => some .str
  | _ => none

def kindName (n : UInt8) : Text :=
  match Kind.ofTag? n with
  | some k => k.name
  | none => "ValueKind(" ++ Text.ofNat n.toNat ++ ")"

def kind : Value → Kind
  | null => .null
  | bool _ => .bool
  | int _ => .int
  | float _ => .float
  | str _ => .str

/-- What tells values apart: their kind, the 64 bits that truth values and numbers share, and the
content of a string. -/
structure Key where
  kind : Kind
  bits : UInt64 := 0
  content : Text := []
  deriving DecidableEq, Repr, Hashable

def key : Value → Key
  | null => { kind := .null }
  | bool b => { kind := .bool, bits := if b then 1 else 0 }
  | int n => { kind := .int, bits := n.toUInt64 }
  | float x => { kind := .float, bits := x.bits }
  | str s => { kind := .str, content := s }

def equal (v w : Value) : Bool := v.key == w.key

def boolText (b : Bool) : Text := if b then "true" else "false"

/-- A value as instructions spell it: its kind, then its content. -/
def text : Value → Text
  | null => "null"
  | bool b => "bool " ++ boolText b
  | int n => "int " ++ Text.ofInt n.toInt
  | float x => "float " ++ x.text
  | str s => "str " ++ quote s

/-- A value with its type, as diagnostics show it. -/
def diagnostic (v : Value) : Text :=
  "bytecode.Value\x7b" ++ v.text ++ "\x7d"

def readBool? (t : Text) : Option Bool :=
  if ["1", "t", "T", "TRUE", "true", "True"].any (fun s => Text.ofString s = t) then some true
  else if ["0", "f", "F", "FALSE", "false", "False"].any (fun s => Text.ofString s = t) then
    some false
  else none

inductive ReadError where
  | usage
  | badBool (t : Text)
  | badInt (t : Text)
  | badFloat (t : Text)
  | badStr (t : Text)
  | unknownKind (t : Text)
  deriving DecidableEq, Repr

def ReadError.message : ReadError → Text
  | usage => "usage: const <kind> <value>"
  | badBool t => "invalid bool " ++ quote t
  | badInt t => "invalid int " ++ quote t
  | badFloat t => "invalid float " ++ quote t
  | badStr t => "invalid string literal " ++ t
  | unknownKind t => "unknown constant kind " ++ quote t

/-- The value that the words of an instruction spell. -/
def read : List Text → Except ReadError Value
  | [w] => if w = "null" then .ok null else .error .usage
  | [k, w] =>
    if k = "bool" then (readBool? w).elim (.error (.badBool w)) (.ok ∘ bool)
    else if k = "int" then (Number.intLiteral? w).elim (.error (.badInt w)) (.ok ∘ int)
    else if k = "float" then (Binary64.literal? w).elim (.error (.badFloat w)) (.ok ∘ float)
    else if k = "str" then (unquote? w).elim (.error (.badStr w)) (.ok ∘ str)
    else .error (.unknownKind k)
  | _ => .error .usage

end Value

end StackCode
