import StackCode.Emit.Error

/-!
# Lowering

Every instruction stands for a short sequence of pieces. A piece is one machine instruction whose
operand is still a name or a value, or a label.
-/

namespace StackCode

def BinOp.opcode? : BinOp → Option Opcode
  | add => some .add
  | sub => some .sub
  | mul => some .mul
  | div => some .div
  | mod => some .mod
  | eq => some .eq
  | ne => some .ne
  | lt => some .lt
  | le => some .le
  | gt => some .gt
  | ge => some .ge
  | and => some .and
  | or => some .or
  | undefined _ _ => none

def UnOp.opcode? : UnOp → Option Opcode
  | neg => some .neg
  | not => some .not
  | undefined _ _ => none

namespace Emit

/-- A part of a lowered body. -/
inductive Piece where
  | plain (op : Opcode)
  /-- An opcode whose operand is the slot of a variable. -/
  | slot (op : Opcode) (name : Text)
  /-- An opcode whose operand is the index of a constant. -/
  | constant (op : Opcode) (v : Value)
  | call (function : Text) (argc : Int)
  | newArray (size : Int)
  | jump (op : Opcode) (name : Text)
  | label (name : Text)
  /-- No code: the instruction cannot be lowered. -/
  | refused (cause : Cause)
  deriving DecidableEq, Repr

/-- The pieces of an instruction, in order. -/
def pieces : Instr → List Piece
  | .missing => [.refused (.unsupported .missing)]
  | .const v => [.constant .loadConst v]
  | .load name => [.slot .loadLocal name]
  | .store name => [.slot .storeLocal name]
  | .assign name inner =>
    if inner = .missing then [.refused (.assignWithoutValue name)]
    else if inner.stackEffect.2 ≠ 1 then [.refused (.assignOfOther name inner)]
    else pieces inner ++ [.slot .storeLocal name]
  | .declare _ _ => []
  | .binary op => [op.opcode?.elim (.refused (.unknownBinary op)) .plain]
  | .unary op => [op.opcode?.elim (.refused (.unknownUnary op)) .plain]
  | .call function argc => [.call function argc]
  | .ret => [.plain .ret]
  | .jump name => [.jump .jump name]
  | .jumpIf name => [.jump .jumpIf name]
  | .label name => [.label name]
  | .newArray _ size => [.newArray size]
  | .arrayLoad => [.plain .loadArray]
  | .arrayStore => [.plain .storeArray]
  | .newObject className => [.constant .newObject (.str className)]
  | .getProp name => [.constant .loadField (.str name)]
  | .setProp name => [.constant .storeField (.str name)]

end Emit

end StackCode
