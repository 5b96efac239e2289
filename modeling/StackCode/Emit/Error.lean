import StackCode.Code.Builder
import StackCode.Module.Basic
import StackCode.Pool

/-!
# Failures of emission
-/

namespace StackCode

open Text

namespace Emit

inductive ByteOperand where
  | argumentCount
  | arraySize
  deriving DecidableEq, Repr

def ByteOperand.text : ByteOperand → Text
  | argumentCount => "argument count"
  | arraySize => "array size"

inductive Cause where
  | tooManyFunctions (n : Nat)
  | noFunction (position : Nat)
  | duplicateFunction (name : Text)
  | unknownExport (name : Text)
  | tooManyVariables (n : Nat)
  | undefinedVariable (name : Text)
  | undefinedFunction (name : Text)
  | undefinedLabel (name : Text)
  | duplicateLabel (name : Text)
  | constantOverflow (v : Value)
  | operandOverflow (what : ByteOperand) (n : Int)
  | assignWithoutValue (name : Text)
  | assignOfOther (name : Text) (inner : Instr)
  | unknownBinary (op : BinOp)
  | unknownUnary (op : UnOp)
  | unsupported (i : Instr)
  | labelAtEnd (name : Text)
  | jumpTooFar (label : Text) (e : Code.PatchError)
  deriving DecidableEq, Repr

inductive Kind where
  | undefinedVariable
  | undefinedFunction
  | undefinedLabel
  | tooManyLocals
  | constantPoolOverflow
  | jumpOutOfRange
  | duplicateLabel
  | operandOverflow
  | invalidInstruction
  | duplicateFunction
  deriving DecidableEq, Repr

namespace Kind

/-- All kinds in the order of their numbers, which start at one. -/
def all : List Kind :=
  [undefinedVariable, undefinedFunction, undefinedLabel, tooManyLocals, constantPoolOverflow,
    jumpOutOfRange, duplicateLabel, operandOverflow, invalidInstruction, duplicateFunction]

def name : Kind → Text
  | undefinedVariable => "UndefinedVariable"
  | undefinedFunction => "UndefinedFunction"
  | undefinedLabel => "UndefinedLabel"
  | tooManyLocals => "TooManyLocals"
  | constantPoolOverflow => "ConstantPoolOverflow"
  | jumpOutOfRange => "JumpOutOfRange"
  | duplicateLabel => "DuplicateLabel"
  | operandOverflow => "OperandOverflow"
  | invalidInstruction => "InvalidInstruction"
  | duplicateFunction => "DuplicateFunction"

def nameOfNumber (n : Int) : Text :=
  match if n < 1 then none else all[(n - 1).toNat]? with
  | some k => k.name
  | none => "ErrorKind(" ++ Text.ofInt n ++ ")"

end Kind

namespace Cause

def kind : Cause → Kind
  | undefinedVariable _ => .undefinedVariable
  | undefinedFunction _ | unknownExport _ => .undefinedFunction
  | undefinedLabel _ => .undefinedLabel
  | tooManyVariables _ => .tooManyLocals
  | constantOverflow _ => .constantPoolOverflow
  | jumpTooFar _ _ => .jumpOutOfRange
  | duplicateLabel _ => .duplicateLabel
  | operandOverflow _ _ | tooManyFunctions _ => .operandOverflow
  | noFunction _ | assignWithoutValue _ | assignOfOther _ _ | unknownBinary _ | unknownUnary _
  | unsupported _ | labelAtEnd _ => .invalidInstruction
  | duplicateFunction _ => .duplicateFunction

/-- The variable, function or label at fault, empty if there is none. -/
def subject : Cause → Text
  | duplicateFunction name | unknownExport name | undefinedVariable name | undefinedFunction name
  | undefinedLabel name | duplicateLabel name | assignWithoutValue name | assignOfOther name _
  | labelAtEnd name | jumpTooFar name _ => name
  | _ => []

def message : Cause → Text
  | tooManyFunctions n =>
    "module has " ++ Text.ofNat n ++ " functions, CALL addresses at most 256"
  | noFunction i => "function " ++ Text.ofNat i ++ " is nil"
  | duplicateFunction name => "function " ++ quote name ++ " is defined more than once"
  | unknownExport name => "exported function " ++ quote name ++ " is not defined"
  | tooManyVariables n => Text.ofNat n ++ " parameters and locals, max 256"
  | undefinedVariable name => "undefined variable " ++ quote name
  | undefinedFunction name => "undefined function " ++ quote name
  | undefinedLabel name => "label " ++ quote name ++ " is not defined"
  | duplicateLabel name => "label " ++ quote name ++ " defined more than once"
  | constantOverflow v => "interning " ++ v.text ++ ": " ++ Pool.overflowMessage
  | operandOverflow what n => what.text ++ " " ++ Text.ofInt n ++ " does not fit in one byte"
  | assignWithoutValue name => "assign " ++ name ++ " has no value"
  | assignOfOther name inner =>
    "assign " ++ name ++ ": " ++ quote inner.text ++ " pushes " ++
      Text.ofInt inner.stackEffect.2 ++ " values, want 1"
  | unknownBinary op => "unknown binary operator " ++ op.name
  | unknownUnary op => "unknown unary operator " ++ op.name
  | unsupported i => "unsupported instruction " ++ i.text
  | labelAtEnd name =>
    "label " ++ quote name ++ " ends the function; a jump to it would leave the code"
  | jumpTooFar label e => "jump to " ++ quote label ++ ": " ++ e.message

end Cause

/-- A failed emission: the cause, and the function that was being emitted, if any. -/
structure Error where
  function : Text
  cause : Cause
  deriving DecidableEq, Repr

def Error.message (e : Error) : Text :=
  if e.function = [] then "emit: " ++ e.cause.kind.name ++ ": " ++ e.cause.message
  else "emit: " ++ e.cause.kind.name ++ " in " ++ e.function ++ ": " ++ e.cause.message

end Emit

end StackCode
