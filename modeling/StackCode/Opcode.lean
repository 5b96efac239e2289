import StackCode.Text.Basic

/-!
# Opcodes

The operations of the stack machine, each one byte followed by at most two operand bytes.
-/

namespace StackCode

open Text

inductive Opcode where
  | nop
  | pop
  | loadConst
  | loadLocal
  | storeLocal
  | add
  | sub
  | mul
  | div
  | mod
  | neg
  | eq
  | ne
  | lt
  | le
  | gt
  | ge
  | not
  | and
  | or
  | jump
  | jumpIf
  | call
  | newArray
  | loadArray
  | storeArray
  | newObject
  | loadField
  | storeField
  | ret
  deriving DecidableEq, Repr

namespace Opcode

/-- Every opcode, in the order of their bytes. -/
def all : List Opcode := [
  nop, pop, loadConst, loadLocal, storeLocal, add, sub, mul, div, mod, neg, eq, ne, lt, le, gt,
  ge, not, and, or, jump, jumpIf, call, newArray, loadArray, storeArray, newObject, loadField,
  storeField, ret]

def byte : Opcode → UInt8
  | nop => 0x00
  | pop => 0x01
  | loadConst => 0x10
  | loadLocal => 0x20
  | storeLocal => 0x21
  | add => 0x50
  | sub => 0x51
  | mul => 0x52
  | div => 0x53
  | mod => 0x54
  | neg => 0x55
  | eq => 0x60
  | ne => 0x61
  | lt => 0x62
  | le => 0x63
  | gt => 0x64
  | ge => 0x65
  | not => 0x68
  | and => 0x69
  | or => 0x6A
  | jump => 0x80
  | jumpIf => 0x81
  | call => 0x90
  | newArray => 0xB0
  | loadArray => 0xB1
  | storeArray => 0xB2
  | newObject => 0xB8
  | loadField => 0xB9
  | storeField => 0xBA
  | ret => 0xF0

def ofByte? (b : UInt8) : Option Opcode :=
  match b.toNat with
  | 0x00 => some nop
  | 0x01 => some pop
  | 0x10 => some loadConst
  | 0x20 => some loadLocal
  | 0x21 => some storeLocal
  | 0x50 => some add
  | 0x51 => some sub
  | 0x52 => some mul
  | 0x53 => some div
  | 0x54 => some mod
  | 0x55 => some neg
  | 0x60 => some eq
  | 0x61 => some ne
  | 0x62 => some lt
  | 0x63 => some le
  | 0x64 => some gt
  | 0x65 => some ge
  | 0x68 => some not
  | 0x69 => some and
  | 0x6A => some or
  | 0x80 => some jump
  | 0x81 => some jumpIf
  | 0x90 => some call
  | 0xB0 => some newArray
  | 0xB1 => some loadArray
  | 0xB2 => some storeArray
  | 0xB8 => some newObject
  | 0xB9 => some loadField
  | 0xBA => some storeField
  | 0xF0 => some ret
  | _ => none

def name : Opcode → Text
  | nop => "NOP"
  | pop => "POP"
  | loadConst => "LOAD_CONST"
  | loadLocal => "LOAD_LOCAL"
  | storeLocal => "STORE_LOCAL"
  | add => "ADD"
  | sub => "SUB"
  | mul => "MUL"
  | div => "DIV"
  | mod => "MOD"
  | neg => "NEG"
  | eq => "EQ"
  | ne => "NE"
  | lt => "LT"
  | le => "LE"
  | gt => "GT"
  | ge => "GE"
  | not => "NOT"
  | and => "AND"
  | or => "OR"
  | jump => "JUMP"
  | jumpIf => "JUMP_IF"
  | call => "CALL"
  | newArray => "NEW_ARRAY"
  | loadArray => "LOAD_ARRAY"
  | storeArray => "STORE_ARRAY"
  | newObject => "NEW_OBJECT"
  | loadField => "LOAD_FIELD"
  | storeField => "STORE_FIELD"
  | ret => "RETURN"

/-- The name of a byte as an opcode, also of an undefined one. -/
def byteName (b : UInt8) : Text :=
  match ofByte? b with
  | some op => op.name
  | none => "UNKNOWN(0x" ++ hexUpper 2 b.toNat ++ ")"

def operandLength : Opcode → Nat
  | loadConst | jump | jumpIf | call | newObject | loadField | storeField => 2
  | loadLocal | storeLocal | newArray => 1
  | _ => 0

def length (op : Opcode) : Nat := 1 + op.operandLength

/-- The number of operands popped from the stack; a call pops as many as it says, which counts as
`-1` here. -/
def pops : Opcode → Int
  | nop | loadConst | loadLocal | jump | newArray | newObject => 0
  | pop | storeLocal | neg | not | jumpIf | loadField | ret => 1
  | add | sub | mul | div | mod | eq | ne | lt | le | gt | ge | and | or | loadArray
  | storeField => 2
  | storeArray => 3
  | call => -1

def pushes : Opcode → Int
  | nop | pop | storeLocal | jump | jumpIf | storeArray | storeField | ret => 0
  | _ => 1

def isJump : Opcode → Bool
  | jump | jumpIf => true
  | _ => false

def usesConstant : Opcode → Bool
  | loadConst | newObject | loadField | storeField => true
  | _ => false

end Opcode

end StackCode
