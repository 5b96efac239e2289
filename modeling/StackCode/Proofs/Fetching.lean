import StackCode.Machine.Step
import StackCode.Proofs.CodeReading

/-!
# Fetching instructions

The machine takes an instruction from the code in a way of its own. It gets the instruction that
reading the code gives, on every byte and every jump, and fails where reading fails and for the same
reason.
-/

namespace StackCode.Proofs

open State

lemma toNat_operandWord (code : Code) (start : Nat) :
    (operandWord code start).toNat = code.wordAt (start + 1) := by
  have hhigh := (code.getD (start + 1) 0).toNat_lt
  have hlow := (code.getD (start + 1 + 1) 0).toNat_lt
  have hshift : (code.getD (start + 1) 0).toNat <<< 8 % 2 ^ 16 =
      (code.getD (start + 1) 0).toNat <<< 8 := by
    rw [Nat.shiftLeft_eq]
    omega
  simp only [operandWord, operandByte, UInt16.toNat_or, UInt16.toNat_shiftLeft,
    UInt8.toNat_toUInt16, UInt16.reduceToNat, Nat.reduceMod, Nat.add_zero, hshift]
  rw [← Nat.shiftLeft_add_eq_or_of_lt hlow, Nat.shiftLeft_eq]
  rfl

lemma toInt_operandWord (code : Code) (start : Nat) :
    (operandWord code start).toInt16.toInt = Code.signedWord (code.wordAt (start + 1)) := by
  rw [← toNat_operandWord]
  generalize operandWord code start = w
  change w.toBitVec.toInt = _
  rw [BitVec.toInt_eq_toNat_cond, Code.signedWord, UInt16.toNat_toBitVec]
  split_ifs <;> omega

/-- Why the machine stops at an instruction that cannot be read. -/
def causeOf : Code.Fault → Fault.Cause
  | .unknownOpcode _ b => .unknownOpcode b
  | .truncated _ op => .truncated op
  | e => .unreadable e

/-- Fetching is reading. -/
lemma fetch_eq {code : Code} {start : Nat} (h : start < code.size) :
    fetch code start = (code.decodeAt start).mapError causeOf := by
  have hinside : ¬((start : Int) < 0 ∨ (code.size : Int) ≤ start) := by omega
  unfold fetch Code.decodeAt
  simp only [Int.toNat_natCast, if_neg hinside]
  cases hop : Opcode.ofByte? (code.getD start 0) with
  | none => rfl
  | some op =>
    dsimp only
    split_ifs with hlen
    · rfl
    · cases op <;> simp [Code.instruction, Opcode.isJump, Opcode.operandLength, Except.mapError,
        toNat_operandWord, toInt_operandWord, operandByte, Code.byteAt]

end StackCode.Proofs
