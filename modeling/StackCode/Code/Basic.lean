import StackCode.Opcode

/-!
# Code

The code of a function is a sequence of bytes. An instruction is an opcode and its operands;
operands of two bytes stand with the higher byte first, and a jump counts from the end of its
instruction.
-/

namespace StackCode

open Text

abbrev Code := Array UInt8

/-- A decoded instruction. Fields that its opcode does not use are zero. -/
structure Instruction where
  op : Opcode
  offset : Nat
  /-- The operand of one or two bytes; the function of a call. -/
  operand : Nat := 0
  argc : Nat := 0
  /-- The distance of a jump from the end of its instruction. -/
  jump : Int := 0
  target : Int := 0
  deriving DecidableEq, Repr

namespace Instruction

def length (i : Instruction) : Nat := i.op.length

end Instruction

namespace Code

inductive Fault where
  | outside (offset : Int) (size : Nat)
  | unknownOpcode (offset : Int) (b : UInt8)
  | truncated (offset : Int) (op : Opcode)
  deriving DecidableEq, Repr

def Fault.message : Fault → Text
  | outside offset size =>
    "offset " ++ Text.ofInt offset ++ " outside code of length " ++ Text.ofNat size
  | unknownOpcode offset b =>
    "offset " ++ Text.ofInt offset ++ ": unknown opcode 0x" ++ hexUpper 2 b.toNat
  | truncated offset op => "offset " ++ Text.ofInt offset ++ ": truncated " ++ op.name

/-- The byte at an offset, zero beyond the end. -/
def byteAt (code : Code) (i : Nat) : Nat := (code.getD i 0).toNat

/-- The two bytes at an offset, the higher one first. -/
def wordAt (code : Code) (i : Nat) : Nat := code.byteAt i * 256 + code.byteAt (i + 1)

def signedWord (n : Nat) : Int := if n < 0x8000 then n else (n : Int) - 0x10000

/-- The instruction of the given opcode whose operands stand after `offset`. -/
def instruction (code : Code) (offset : Nat) (op : Opcode) : Instruction :=
  if op.isJump then
    let jump := signedWord (code.wordAt (offset + 1))
    { op, offset, jump, target := (offset + op.length : Nat) + jump }
  else if op = .call then
    { op, offset, operand := code.byteAt (offset + 1), argc := code.byteAt (offset + 2) }
  else if op.operandLength = 2 then { op, offset, operand := code.wordAt (offset + 1) }
  else if op.operandLength = 1 then { op, offset, operand := code.byteAt (offset + 1) }
  else { op, offset }

def decodeAt (code : Code) (offset : Int) : Except Fault Instruction :=
  if offset < 0 ∨ code.size ≤ offset then .error (.outside offset code.size)
  else
    let i := offset.toNat
    let b := code.getD i 0
    match Opcode.ofByte? b with
    | none => .error (.unknownOpcode offset b)
    | some op =>
      if code.size < i + op.length then .error (.truncated offset op)
      else .ok (code.instruction i op)

/-- The instructions from an offset on, in reverse before those in `acc`, and why they end before
the code does. Each step takes at least one byte of the code. -/
def walkFrom (code : Code) : (fuel : Nat) → (offset : Nat) → (acc : List Instruction) →
    List Instruction × Option Fault
  | 0, _, acc => (acc.reverse, none)
  | fuel + 1, offset, acc =>
    if code.size ≤ offset then (acc.reverse, none)
    else match code.decodeAt offset with
      | .error e => (acc.reverse, some e)
      | .ok i => walkFrom code fuel (offset + i.length) (i :: acc)

/-- The instructions of the code one after the other, and why they end before the code does. -/
def walk (code : Code) : List Instruction × Option Fault := code.walkFrom code.size 0 []

end Code

end StackCode
