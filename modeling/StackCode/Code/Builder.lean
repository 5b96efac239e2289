import StackCode.Code.Basic

/-!
# Building code

Code is built from its start. A jump is written with a placeholder, which is patched when its target
is known.
-/

namespace StackCode

open Text

namespace Code

def emit (code : Code) (op : UInt8) : Code := code.push op

def emitByte (code : Code) (op operand : UInt8) : Code := (code.push op).push operand

def emitWord (code : Code) (op : UInt8) (operand : UInt16) : Code :=
  ((code.push op).push (operand >>> 8).toUInt8).push operand.toUInt8

def emitCall (code : Code) (function argc : UInt8) : Code :=
  ((code.push Opcode.call.byte).push function).push argc

/-- The code with a jump to nowhere yet. Its placeholder stands one byte after the opcode. -/
def emitJump (code : Code) (op : UInt8) : Code := ((code.push op).push 0xFF).push 0xFF

/-- Distances and offsets are told as numbers of 64 bits. -/
inductive PatchError where
  | outOfRange (distance offset : Int64)
  /-- There are no two bytes at the placeholder. -/
  | noPlaceholder
  deriving DecidableEq, Repr

/-- The reason in words; a missing placeholder has none. -/
def PatchError.message : PatchError → Text
  | outOfRange distance offset =>
    "jump offset out of range: " ++ Text.ofInt distance.toInt ++ " bytes from offset " ++
      Text.ofInt offset.toInt
  | noPlaceholder => []

/-- The code in which the jump with the given placeholder leads to the target. -/
def patchJump (code : Code) (placeholder target : Int) : Except PatchError Code :=
  let distance := target - (placeholder + 2)
  if distance < -32768 ∨ 32767 < distance then
    .error (.outOfRange (.ofInt distance) (.ofInt (placeholder - 1)))
  else if placeholder < 0 ∨ (code.size : Int) < placeholder + 2 then .error .noPlaceholder
  else
    let i := placeholder.toNat
    let word := UInt16.ofInt distance
    .ok ((code.setIfInBounds i (word >>> 8).toUInt8).setIfInBounds (i + 1) word.toUInt8)

end Code

end StackCode
