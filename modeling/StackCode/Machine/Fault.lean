import StackCode.Code.Basic
import StackCode.Machine.Datum

/-!
# Faults

What can stop a running program.
-/

namespace StackCode

open Text

namespace Fault

inductive Division where
  | intQuotient
  | intRemainder
  | floatQuotient
  | floatRemainder
  deriving DecidableEq, Repr

def Division.text : Division → Text
  | intQuotient => "integer division"
  | intRemainder => "integer modulo"
  | floatQuotient => "float division"
  | floatRemainder => "float modulo"

/-- Why a program stops. Types are given by their names. -/
inductive Cause where
  | unknownFunction (name : Text)
  | stackOverflow (limit : Int)
  | arity (arguments slots : Nat)
  | underflow (op : Opcode) (need present : Nat)
  | unknownOpcode (b : UInt8)
  | truncated (op : Opcode)
  /-- Found before the instruction runs, by one who watches the run. -/
  | unreadable (e : Code.Fault)
  | byZero (d : Division)
  | operands (op : Opcode) (left right : Text)
  | operand (op : Opcode) (type : Text)
  | condition (type : Text)
  | notArray (type : Text)
  | indexType (type : Text)
  | notObject (field type : Text)
  | index (i : Int)
  | loadIndex (i : Int) (length : Nat)
  | storeIndex (i : Int) (length : Nat)
  deriving DecidableEq, Repr

inductive Kind where
  | divisionByZero
  | typeMismatch
  | indexOutOfRange
  | stackUnderflow
  | stackOverflow
  | arityMismatch
  | unknownFunction
  | invalidOpcode
  deriving DecidableEq, Repr

namespace Kind

/-- All kinds in the order of their numbers, which start at one. -/
def all : List Kind :=
  [divisionByZero, typeMismatch, indexOutOfRange, stackUnderflow, stackOverflow, arityMismatch,
    unknownFunction, invalidOpcode]

def name : Kind → Text
  | divisionByZero => "DivisionByZero"
  | typeMismatch => "TypeMismatch"
  | indexOutOfRange => "IndexOutOfRange"
  | stackUnderflow => "StackUnderflow"
  | stackOverflow => "StackOverflow"
  | arityMismatch => "ArityMismatch"
  | unknownFunction => "UnknownFunction"
  | invalidOpcode => "InvalidOpcode"

def nameOfNumber (n : Int) : Text :=
  match if n < 1 then none else all[(n - 1).toNat]? with
  | some k => k.name
  | none => "FaultKind(" ++ Text.ofInt n ++ ")"

end Kind

namespace Cause

def kind : Cause → Kind
  | unknownFunction _ => .unknownFunction
  | stackOverflow _ => .stackOverflow
  | arity _ _ => .arityMismatch
  | underflow _ _ _ => .stackUnderflow
  | unknownOpcode _ | truncated _ | unreadable _ => .invalidOpcode
  | byZero _ => .divisionByZero
  | operands _ _ _ | operand _ _ | condition _ | notArray _ | indexType _ | notObject _ _ =>
    .typeMismatch
  | index _ | loadIndex _ _ | storeIndex _ _ => .indexOutOfRange

def message : Cause → Text
  | unknownFunction name => "no function named " ++ quote name
  | stackOverflow limit => "call depth exceeds " ++ Text.ofInt limit ++ " frames"
  | arity arguments slots =>
    Text.ofNat arguments ++ " arguments for " ++ Text.ofNat slots ++ " slots"
  | underflow op need present =>
    op.name ++ " needs " ++ Text.ofNat need ++ " operands, stack has " ++ Text.ofNat present
  | unknownOpcode b => "opcode 0x" ++ hexUpper 2 b.toNat
  | truncated op => "truncated " ++ op.name
  | unreadable e => e.message
  | byZero d => d.text ++ " by zero"
  | operands op left right => op.name ++ " on " ++ left ++ " and " ++ right
  | operand op type => op.name ++ " on " ++ type
  | condition type => "JUMP_IF on " ++ type ++ ", want bool"
  | notArray type => "indexing " ++ type
  | indexType type => "array index is " ++ type ++ ", want int"
  | notObject field type => "field " ++ field ++ " of " ++ type
  | index i => "index " ++ Text.ofInt i
  | loadIndex i length => "index " ++ Text.ofInt i ++ ", length " ++ Text.ofNat length
  | storeIndex i length => "store at " ++ Text.ofInt i ++ ", length " ++ Text.ofNat length

end Cause

end Fault

/-- A fault: the cause, the function it arose in, and the offset of the instruction. -/
structure Fault where
  cause : Fault.Cause
  function : Text := []
  offset : Nat := 0
  deriving DecidableEq, Repr

def Fault.message (f : Fault) : Text :=
  if f.function = [] then "vm: " ++ f.cause.kind.name ++ ": " ++ f.cause.message
  else
    "vm: " ++ f.cause.kind.name ++ " in " ++ f.function ++ " at " ++ hexUpper 4 f.offset ++ ": " ++
      f.cause.message

end StackCode
