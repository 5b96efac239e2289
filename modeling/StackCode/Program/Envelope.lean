import StackCode.Program.Basic
import StackCode.Text.Quoted

/-!
# Envelopes

The self-describing forms of a program share their content: a mark, a version, and records for
functions and constants. A constant's record has a field for every kind of content, and its tag says
which one counts.
-/

namespace StackCode

open Text

namespace Program

/-- A constant as a record. -/
structure Tagged where
  kind : UInt8 := 0
  bool : Bool := false
  int : Int64 := 0
  bits : UInt64 := 0
  str : Text := []
  deriving Inhabited

structure Envelope where
  magic : Text := []
  version : UInt16 := 0
  functions : List Routine := []
  constants : List Tagged := []
  symbols : List Text := []
  deriving Inhabited

namespace Tagged

def ofValue : Value → Tagged
  | .null => {}
  | .bool b => { kind := 1, bool := b }
  | .int n => { kind := 2, int := n }
  | .float x => { kind := 3, bits := x.bits }
  | .str s => { kind := 4, str := s }

/-- The value that the tag picks. -/
def value? (c : Tagged) : Option Value :=
  (Value.Kind.ofTag? c.kind).map fun
    | .null => .null
    | .bool => .bool c.bool
    | .int => .int c.int
    | .float => .float ⟨c.bits⟩
    | .str => .str c.str

end Tagged

namespace Envelope

inductive OpenError where
  | badMagic (t : Text)
  | newerVersion (n : UInt16)
  | unknownKind (constant : Nat) (kind : UInt8)
  deriving DecidableEq, Repr

def OpenError.message : OpenError → Text
  | badMagic t => "invalid envelope magic " ++ quote t
  | newerVersion n =>
    "envelope version " ++ Text.ofNat n.toNat ++ " is newer than supported version " ++
      Text.ofNat Program.version.toNat
  | unknownKind constant kind =>
    "constant " ++ Text.ofNat constant ++ ": unknown kind " ++ Text.ofNat kind.toNat

def ofProgram (p : Program) : Envelope :=
  { magic := Program.magic
    version := Program.version
    functions := p.functions
    constants := p.constants.map Tagged.ofValue
    symbols := p.symbols }

/-- The values of constants from position `k` on, in reverse before `acc`. -/
def values (k : Nat) (acc : List Value) : List Tagged → Except OpenError (List Value)
  | [] => .ok acc.reverse
  | c :: cs =>
    match c.value? with
    | some v => values (k + 1) (v :: acc) cs
    | none => .error (.unknownKind k c.kind)

def «open» (e : Envelope) : Except OpenError Program :=
  if e.magic ≠ Program.magic then .error (.badMagic e.magic)
  else if Program.version < e.version then .error (.newerVersion e.version)
  else
    match values 0 [] e.constants with
    | .ok constants => .ok { functions := e.functions, constants, symbols := e.symbols }
    | .error err => .error err

end Envelope

end Program

end StackCode
