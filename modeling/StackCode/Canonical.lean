import StackCode.Digest
import StackCode.Module.Basic
import StackCode.Text.Reader

/-!
# Canonical form

The bytes that stand for a module in its digest. They hold what emission depends on and nothing
else: variables are written as slots and labels as numbers, and the module's name and all types are
left out.
-/

namespace StackCode

open Text

namespace Canonical

def version : UInt8 := 0x01

def word (n : Nat) : Text := bigEndianBytes 2 n
def long (n : Nat) : Text := bigEndianBytes 4 n
def wide (n : UInt64) : Text := bigEndianBytes 8 n.toNat

def string (t : Text) : Text := long t.length ++ t

def value : Value → Text
  | .null => [0x01]
  | .bool b => [0x02, if b then 1 else 0]
  | .int n => 0x03 :: wide n.toUInt64
  | .float x => 0x04 :: wide x.bits
  | .str s => 0x05 :: string s

/-- A variable: the slot of its first declaration, or its name if it has none. -/
def slot (vars : List Text) (name : Text) : Text :=
  match vars.idxOf? name with
  | some i => word i
  | none => word 0xFFFF ++ 0x14 :: string name

/-- The number of a label, and the labels mentioned so far with this one. Labels are numbered in the
order of their first mention; `labels` holds the latest one first. -/
def label (labels : List Text) (name : Text) : Nat × List Text :=
  match labels.idxOf? name with
  | some i => (labels.length - 1 - i, labels)
  | none => (labels.length, name :: labels)

/-- A whole number of any size, in eight bytes. -/
def integer (n : Int) : Text := wide (UInt64.ofInt n)

/-- The form of an instruction, after the labels mentioned so far. -/
def instr (vars : List Text) (labels : List Text) : Instr → Text × List Text
  | .missing => ([0x53], labels)
  | .const v => (0x20 :: value v, labels)
  | .load name => (0x10 :: slot vars name, labels)
  | .store name => (0x11 :: slot vars name, labels)
  | .assign name inner =>
    let (t, labels) := instr vars labels inner
    (0x12 :: slot vars name ++ t, labels)
  | .declare name _ => (0x13 :: slot vars name, labels)
  | .binary op => ([0x21, op.code], labels)
  | .unary op => ([0x22, op.code], labels)
  | .call function argc => (0x23 :: string function ++ integer argc, labels)
  | .ret => ([0x24], labels)
  | .jump name => (label labels name).map (0x30 :: long ·) id
  | .jumpIf name => (label labels name).map (0x31 :: long ·) id
  | .label name => (label labels name).map (0x32 :: long ·) id
  | .newArray _ size => (0x40 :: integer size, labels)
  | .arrayLoad => ([0x41], labels)
  | .arrayStore => ([0x42], labels)
  | .newObject className => (0x43 :: string className, labels)
  | .getProp name => (0x44 :: string name, labels)
  | .setProp name => (0x45 :: string name, labels)

/-- The forms of the instructions of a body, in reverse. -/
def body (vars : List Text) (is : List Instr) : List Text :=
  (is.foldl (fun (done, labels) i =>
    let (t, labels) := instr vars labels i
    (t :: done, labels)) (([], []) : List Text × List Text)).1

def function : Option Function → Text
  | none => [0x51, 0x53]
  | some f =>
    -- counts of variables are cut to two bytes
    0x51 :: string f.name ++ word f.params.length ++ word f.locals.length ++
      long f.body.length ++ (body (f.vars.map Var.name) f.body).reverse.flatten

end Canonical

def Module.canonical (m : Module) : Text :=
  Canonical.version :: 0x50 :: Canonical.long m.functions.length ++
    (m.functions.map Canonical.function).flatten ++
    0x52 :: Canonical.long m.exports.length ++ (m.exports.map Canonical.string).flatten

def Module.digest (m : Module) : Text := Digest.sha256 m.canonical

/-- The key under which the compiled module is cached: a digest of its form and the way to compile
it. -/
def Module.buildKey (optimize : Bool) (m : Module) : Text :=
  toHex (Digest.sha256 (m.canonical ++ [if optimize then 1 else 0]))

end StackCode
