import Mathlib
import StackCode.Code.Builder

/-!
# Reading code

An instruction is read from its own bytes only, so what was read stays when code is added behind it
or when bytes elsewhere are patched. Reading code from its start on gives the instructions that
`Code.walk` lists, and an offset is a boundary if an instruction starts there or the code ends.
-/

namespace StackCode.Proofs

/-! ### One instruction -/

lemma ofByte?_byte (op : Opcode) : Opcode.ofByte? op.byte = some op := by
  cases op <;> rfl

lemma opcode_length_pos (op : Opcode) : 0 < op.length := by
  unfold Opcode.length
  omega

lemma operandLength_of_isJump {op : Opcode} (h : op.isJump) : op.operandLength = 2 := by
  cases op <;> simp_all [Opcode.isJump, Opcode.operandLength]

@[simp] lemma instruction_op (code : Code) (offset : Nat) (op : Opcode) :
    (code.instruction offset op).op = op := by
  unfold Code.instruction
  split_ifs <;> rfl

@[simp] lemma instruction_offset (code : Code) (offset : Nat) (op : Opcode) :
    (code.instruction offset op).offset = offset := by
  unfold Code.instruction
  split_ifs <;> rfl

/-- Exactly when an instruction can be read, and which one it is. -/
lemma decodeAt_eq_ok_iff {code : Code} {offset : Nat} {i : Instruction} :
    code.decodeAt offset = .ok i ↔
      ∃ op, Opcode.ofByte? (code.getD offset 0) = some op ∧ offset + op.length ≤ code.size ∧
        i = code.instruction offset op := by
  unfold Code.decodeAt
  simp only [Int.toNat_natCast]
  by_cases hout : (offset : Int) < 0 ∨ (code.size : Int) ≤ offset
  · rw [if_pos hout]
    constructor
    · intro h
      cases h
    · rintro ⟨op, -, hlen, -⟩
      have hpos := opcode_length_pos op
      omega
  · rw [if_neg hout]
    cases hop : Opcode.ofByte? (code.getD offset 0) with
    | none => simp
    | some op =>
      by_cases hlen : code.size < offset + op.length
      · simp only [if_pos hlen, Option.some.injEq]
        constructor
        · intro h
          cases h
        · rintro ⟨op', rfl, hle, -⟩
          omega
      · simp only [if_neg hlen, Option.some.injEq]
        constructor
        · intro h
          cases h
          exact ⟨op, rfl, by omega, rfl⟩
        · rintro ⟨op', rfl, -, rfl⟩
          rfl

lemma offset_of_decodeAt {code : Code} {offset : Nat} {i : Instruction}
    (h : code.decodeAt offset = .ok i) : i.offset = offset := by
  obtain ⟨op, -, -, rfl⟩ := decodeAt_eq_ok_iff.mp h
  exact instruction_offset code offset op

lemma target_of_decodeAt {code : Code} {offset : Nat} {i : Instruction}
    (h : code.decodeAt offset = .ok i) (hjump : i.op.isJump) :
    i.target = (offset + i.length : Nat) + i.jump := by
  obtain ⟨op, -, -, rfl⟩ := decodeAt_eq_ok_iff.mp h
  rw [instruction_op] at hjump
  simp [Code.instruction, hjump, Instruction.length]

lemma end_le_of_decodeAt {code : Code} {offset : Nat} {i : Instruction}
    (h : code.decodeAt offset = .ok i) : offset + i.length ≤ code.size := by
  obtain ⟨op, -, hlen, rfl⟩ := decodeAt_eq_ok_iff.mp h
  simpa [Instruction.length] using hlen

/-- The distance of a jump has sixteen bits. -/
lemma jump_bounds_of_decodeAt {code : Code} {offset : Nat} {i : Instruction}
    (h : code.decodeAt offset = .ok i) : -32768 ≤ i.jump ∧ i.jump ≤ 32767 := by
  obtain ⟨op, -, -, rfl⟩ := decodeAt_eq_ok_iff.mp h
  have hword : code.wordAt (offset + 1) < 65536 := by
    have hhigh := (code.getD (offset + 1) 0).toNat_lt
    have hlow := (code.getD (offset + 1 + 1) 0).toNat_lt
    unfold Code.wordAt Code.byteAt
    omega
  unfold Code.instruction
  split_ifs
  · simp only [Code.signedWord]
    split_ifs <;> omega
  all_goals simp

lemma instruction_length_pos (i : Instruction) : 0 < i.length := opcode_length_pos i.op

/-- The operands of an instruction are read from its own bytes. -/
lemma instruction_congr {code code' : Code} {offset : Nat} {op : Opcode}
    (h : ∀ k, k < op.length → code'.getD (offset + k) 0 = code.getD (offset + k) 0) :
    code'.instruction offset op = code.instruction offset op := by
  have hbyte : ∀ k, k < op.length → code'.byteAt (offset + k) = code.byteAt (offset + k) := by
    intro k hk
    unfold Code.byteAt
    rw [h k hk]
  cases op <;>
    simp only [Opcode.length, Opcode.operandLength] at hbyte <;>
    simp [Code.instruction, Code.wordAt, Opcode.isJump, Opcode.operandLength, Nat.add_assoc,
      hbyte]

/-- What was read stays as long as the bytes of the instruction stay. -/
lemma decodeAt_congr {code code' : Code} {offset : Nat} {i : Instruction}
    (hd : code.decodeAt offset = .ok i) (hsize : offset + i.length ≤ code'.size)
    (hb : ∀ k, k < i.length → code'.getD (offset + k) 0 = code.getD (offset + k) 0) :
    code'.decodeAt offset = .ok i := by
  obtain ⟨op, hop, -, rfl⟩ := decodeAt_eq_ok_iff.mp hd
  simp only [Instruction.length, instruction_op] at hsize hb
  have h0 := hb 0 (opcode_length_pos op)
  simp only [Nat.add_zero] at h0
  refine decodeAt_eq_ok_iff.mpr ⟨op, by rw [h0, hop], hsize, ?_⟩
  exact (instruction_congr hb).symm

lemma decodeAt_append {code : Code} {offset : Nat} {i : Instruction} (more : Array UInt8)
    (hd : code.decodeAt offset = .ok i) : Code.decodeAt (code ++ more) offset = .ok i := by
  have hend := end_le_of_decodeAt hd
  refine decodeAt_congr hd ?_ ?_
  · rw [Array.size_append]
    omega
  · intro k hk
    simp only [Array.getD_eq_getD_getElem?]
    rw [Array.getElem?_append_left (by omega)]

/-! ### Words -/

lemma word_toNat (w : UInt16) : (w >>> 8).toUInt8.toNat * 256 + w.toUInt8.toNat = w.toNat := by
  have hw := w.toNat_lt
  simp only [UInt16.toNat_toUInt8, UInt16.toNat_shiftRight, UInt16.reduceToNat, Nat.reduceMod,
    Nat.shiftRight_eq_div_pow]
  omega

lemma signedWord_ofInt {d : Int} (hlo : -32768 ≤ d) (hhi : d ≤ 32767) :
    Code.signedWord (UInt16.ofInt d).toNat = d := by
  have ht : (UInt16.ofInt d).toNat = (d % 65536).toNat := by
    unfold UInt16.ofInt
    rw [UInt16.toNat_ofNat']
    omega
  unfold Code.signedWord
  split_ifs <;> omega

/-! ### Adding and patching instructions -/

lemma getD_append_end (code more : Array UInt8) (k : Nat) :
    (code ++ more).getD (code.size + k) 0 = more.getD k 0 := by
  simp only [Array.getD_eq_getD_getElem?]
  rw [Array.getElem?_append_right (by omega), Nat.add_sub_cancel_left]

/-- The instruction that was added last can be read. -/
lemma decodeAt_end (code : Code) {op : Opcode} {operands : List UInt8}
    (h : operands.length = op.operandLength) :
    Code.decodeAt (code ++ (op.byte :: operands).toArray) code.size =
      .ok (Code.instruction (code ++ (op.byte :: operands).toArray) code.size op) := by
  refine decodeAt_eq_ok_iff.mpr ⟨op, ?_, ?_, rfl⟩
  · have h0 := getD_append_end code (op.byte :: operands).toArray 0
    rw [Nat.add_zero] at h0
    rw [h0]
    exact ofByte?_byte op
  · simp [Opcode.length, h, Nat.add_comm]

lemma emit_eq (code : Code) (op : UInt8) : code.emit op = code ++ [op].toArray := by
  simp [Code.emit]

lemma emitByte_eq (code : Code) (op b : UInt8) :
    code.emitByte op b = code ++ [op, b].toArray := by
  apply Array.toList_inj.mp
  simp [Code.emitByte]

lemma emitWord_eq (code : Code) (op : UInt8) (w : UInt16) :
    code.emitWord op w = code ++ [op, (w >>> 8).toUInt8, w.toUInt8].toArray := by
  apply Array.toList_inj.mp
  simp [Code.emitWord]

lemma emitCall_eq (code : Code) (function argc : UInt8) :
    code.emitCall function argc = code ++ [Opcode.call.byte, function, argc].toArray := by
  apply Array.toList_inj.mp
  simp [Code.emitCall]

lemma emitJump_eq (code : Code) (op : UInt8) :
    code.emitJump op = code ++ [op, 0xFF, 0xFF].toArray := by
  apply Array.toList_inj.mp
  simp [Code.emitJump]

lemma decodeAt_emit (code : Code) {op : Opcode} (h : op.operandLength = 0) :
    (code.emit op.byte).decodeAt code.size = .ok { op, offset := code.size } := by
  rw [emit_eq, decodeAt_end code (by simp [h])]
  cases op <;> simp_all [Code.instruction, Opcode.isJump, Opcode.operandLength]

lemma decodeAt_emitByte (code : Code) {op : Opcode} (b : UInt8) (h : op.operandLength = 1) :
    (code.emitByte op.byte b).decodeAt code.size =
      .ok { op, offset := code.size, operand := b.toNat } := by
  rw [emitByte_eq, decodeAt_end code (by simp [h])]
  have hb : Code.byteAt (code ++ [op.byte, b].toArray) (code.size + 1) = b.toNat := by
    unfold Code.byteAt
    rw [getD_append_end]
    rfl
  cases op <;> simp_all [Code.instruction, Opcode.isJump, Opcode.operandLength]

lemma decodeAt_emitWord (code : Code) {op : Opcode} (w : UInt16) (h : op.usesConstant) :
    (code.emitWord op.byte w).decodeAt code.size =
      .ok { op, offset := code.size, operand := w.toNat } := by
  have hlen : op.operandLength = 2 := by
    cases op <;> simp_all [Opcode.usesConstant, Opcode.operandLength]
  rw [emitWord_eq, decodeAt_end code (by simp [hlen])]
  have hw : Code.wordAt (code ++ [op.byte, (w >>> 8).toUInt8, w.toUInt8].toArray) (code.size + 1) =
      w.toNat := by
    unfold Code.wordAt Code.byteAt
    rw [Nat.add_assoc, getD_append_end, getD_append_end, ← word_toNat w]
    rfl
  cases op <;> simp_all [Code.instruction, Opcode.isJump, Opcode.operandLength, Opcode.usesConstant]

lemma decodeAt_emitCall (code : Code) (function argc : UInt8) :
    (code.emitCall function argc).decodeAt code.size =
      .ok { op := .call, offset := code.size, operand := function.toNat, argc := argc.toNat } := by
  rw [emitCall_eq, decodeAt_end code rfl]
  have hb : ∀ k, Code.byteAt (code ++ [Opcode.call.byte, function, argc].toArray) (code.size + k) =
      ([Opcode.call.byte, function, argc].toArray.getD k 0).toNat := by
    intro k
    unfold Code.byteAt
    rw [getD_append_end]
  simp only [Code.instruction, Opcode.isJump, hb]
  rfl

/-- A jump reads as one to somewhere until it is patched. -/
lemma decodeAt_emitJump (code : Code) {op : Opcode} (h : op.isJump) :
    ∃ t : Int, (code.emitJump op.byte).decodeAt code.size =
      .ok { op, offset := code.size, jump := t - (code.size + 3 : Nat), target := t } := by
  have hlen := operandLength_of_isJump h
  rw [emitJump_eq, decodeAt_end code (by simp [hlen])]
  refine ⟨(code.size + 3 : Nat) + Code.signedWord
    (Code.wordAt (code ++ [op.byte, 0xFF, 0xFF].toArray) (code.size + 1)), ?_⟩
  simp only [Code.instruction, h, if_true, Opcode.length, hlen]
  congr 2
  omega

/-- Exactly when a jump can be patched, and the bytes that are written. -/
lemma patchJump_eq_ok_iff {code code' : Code} {placeholder : Nat} {target : Int} :
    code.patchJump placeholder target = .ok code' ↔
      (-32768 ≤ target - (placeholder + 2 : Nat) ∧ target - (placeholder + 2 : Nat) ≤ 32767) ∧
      placeholder + 2 ≤ code.size ∧
      code' = (code.setIfInBounds placeholder
          (UInt16.ofInt (target - (placeholder + 2 : Nat)) >>> 8).toUInt8).setIfInBounds
        (placeholder + 1) (UInt16.ofInt (target - (placeholder + 2 : Nat))).toUInt8 := by
  unfold Code.patchJump
  have hcast : ((placeholder + 2 : Nat) : Int) = (placeholder : Int) + 2 := by omega
  simp only [Int.toNat_natCast, hcast]
  split_ifs with hfar hplace
  · constructor
    · intro h
      cases h
    · rintro ⟨hd, -, -⟩
      omega
  · constructor
    · intro h
      cases h
    · rintro ⟨-, hp, -⟩
      omega
  · constructor
    · intro h
      cases h
      exact ⟨by omega, by omega, rfl⟩
    · rintro ⟨-, -, rfl⟩
      rfl

lemma getD_setIfInBounds_ne (code : Array UInt8) {j k : Nat} (b : UInt8) (h : j ≠ k) :
    (code.setIfInBounds j b).getD k 0 = code.getD k 0 := by
  simp only [Array.getD_eq_getD_getElem?]
  rw [Array.getElem?_setIfInBounds_ne h]

lemma getD_setIfInBounds_self (code : Array UInt8) {k : Nat} (b : UInt8) (h : k < code.size) :
    (code.setIfInBounds k b).getD k 0 = b := by
  simp only [Array.getD_eq_getD_getElem?]
  rw [Array.getElem?_setIfInBounds_self_of_lt h]
  rfl

lemma size_of_patchJump {code code' : Code} {placeholder : Nat} {target : Int}
    (h : code.patchJump placeholder target = .ok code') : code'.size = code.size := by
  obtain ⟨-, -, rfl⟩ := patchJump_eq_ok_iff.mp h
  simp

lemma getD_of_patchJump {code code' : Code} {placeholder k : Nat} {target : Int}
    (h : code.patchJump placeholder target = .ok code') (h0 : k ≠ placeholder)
    (h1 : k ≠ placeholder + 1) : code'.getD k 0 = code.getD k 0 := by
  obtain ⟨-, -, rfl⟩ := patchJump_eq_ok_iff.mp h
  rw [getD_setIfInBounds_ne _ _ h1.symm, getD_setIfInBounds_ne _ _ h0.symm]

/-- Patching leaves an instruction as it is unless it holds the placeholder. -/
lemma decodeAt_patchJump_other {code code' : Code} {placeholder offset : Nat} {target : Int}
    {i : Instruction} (h : code.patchJump placeholder target = .ok code')
    (hd : code.decodeAt offset = .ok i)
    (hout : offset + i.length ≤ placeholder ∨ placeholder + 2 ≤ offset) :
    code'.decodeAt offset = .ok i := by
  refine decodeAt_congr hd ?_ ?_
  · rw [size_of_patchJump h]
    exact end_le_of_decodeAt hd
  · intro k hk
    exact getD_of_patchJump h (by omega) (by omega)

/-- A patched jump leads to its target. -/
lemma decodeAt_patchJump_self {code code' : Code} {offset : Nat} {target : Int} {i : Instruction}
    (h : code.patchJump (offset + 1 : Nat) target = .ok code') (hd : code.decodeAt offset = .ok i)
    (hj : i.op.isJump) :
    code'.decodeAt offset =
      .ok { op := i.op, offset, jump := target - (offset + 3 : Nat), target } := by
  obtain ⟨op, hop, hlen, rfl⟩ := decodeAt_eq_ok_iff.mp hd
  rw [instruction_op] at hj
  have hop2 := operandLength_of_isJump hj
  have hfirst : code'.getD offset 0 = code.getD offset 0 :=
    getD_of_patchJump h (by omega) (by omega)
  refine decodeAt_eq_ok_iff.mpr ⟨op, by rw [hfirst, hop], by rwa [size_of_patchJump h], ?_⟩
  obtain ⟨⟨hlo, hhi⟩, hroom, rfl⟩ := patchJump_eq_ok_iff.mp h
  have hword : Code.wordAt ((code.setIfInBounds (offset + 1)
      (UInt16.ofInt (target - (offset + 1 + 2 : Nat)) >>> 8).toUInt8).setIfInBounds
        (offset + 1 + 1) (UInt16.ofInt (target - (offset + 1 + 2 : Nat))).toUInt8) (offset + 1) =
      (UInt16.ofInt (target - (offset + 1 + 2 : Nat))).toNat := by
    unfold Code.wordAt Code.byteAt
    rw [getD_setIfInBounds_self _ _ (by simp; omega), getD_setIfInBounds_ne _ _ (by omega),
      getD_setIfInBounds_self _ _ (by omega), word_toNat]
  have hsigned := signedWord_ofInt hlo hhi
  simp only [Code.instruction, hj, if_true, hword, hsigned, Opcode.length, hop2]
  congr 1
  omega

/-! ### All instructions -/

/-- The code reads as these instructions from an offset to its end. -/
def Reads (code : Code) : Nat → List Instruction → Prop
  | offset, [] => code.size ≤ offset
  | offset, i :: is => code.decodeAt offset = .ok i ∧ Reads code (offset + i.length) is

lemma walkFrom_of_reads {code : Code} {is : List Instruction} {fuel offset : Nat}
    (h : Reads code offset is) (hfuel : code.size ≤ offset + fuel) (acc : List Instruction) :
    code.walkFrom fuel offset acc = (acc.reverse ++ is, none) := by
  induction is generalizing fuel offset acc with
  | nil =>
    have hend : code.size ≤ offset := h
    cases fuel with
    | zero => simp [Code.walkFrom]
    | succ fuel => simp [Code.walkFrom, hend]
  | cons i is ih =>
    obtain ⟨hi, his⟩ := h
    have hend := end_le_of_decodeAt hi
    have hpos := instruction_length_pos i
    cases fuel with
    | zero => omega
    | succ fuel =>
      rw [Code.walkFrom, if_neg (by omega), hi]
      have hrec := ih his (by omega : code.size ≤ offset + i.length + fuel) (i :: acc)
      simpa using hrec

lemma reads_of_walkFrom {code : Code} {fuel offset : Nat} {acc is : List Instruction}
    (h : code.walkFrom fuel offset acc = (is, none)) (hfuel : code.size ≤ offset + fuel) :
    ∃ js, is = acc.reverse ++ js ∧ Reads code offset js := by
  induction fuel generalizing offset acc with
  | zero =>
    simp only [Code.walkFrom, Prod.mk.injEq, and_true] at h
    exact ⟨[], by simp [h], hfuel⟩
  | succ fuel ih =>
    rw [Code.walkFrom] at h
    by_cases hend : code.size ≤ offset
    · simp only [hend, if_true, Prod.mk.injEq, and_true] at h
      exact ⟨[], by simp [h], hend⟩
    · rw [if_neg hend] at h
      cases hd : code.decodeAt offset with
      | error e => simp [hd] at h
      | ok i =>
        simp only [hd] at h
        have hpos := instruction_length_pos i
        obtain ⟨js, hjs, hr⟩ := ih h (by omega)
        exact ⟨i :: js, by simp [hjs], hd, hr⟩

/-- Walking lists the instructions that the code reads as. -/
theorem walk_eq_iff_reads {code : Code} {is : List Instruction} :
    code.walk = (is, none) ↔ Reads code 0 is := by
  constructor
  · intro h
    obtain ⟨js, rfl, hr⟩ := reads_of_walkFrom h (by omega)
    exact hr
  · intro h
    have hwalk := walkFrom_of_reads h (show code.size ≤ 0 + code.size by omega) []
    simpa [Code.walk] using hwalk

/-- The start of an instruction that walking lists, or the end of the code. -/
def Boundary (code : Code) (offset : Int) : Prop :=
  offset = code.size ∨ ∃ i ∈ code.walk.1, (i.offset : Int) = offset

/-- What stands at and after the start of an instruction, in code that reads to its end. -/
lemma Reads.decodeAt_of_mem {code : Code} {is : List Instruction} {offset : Nat} {i : Instruction}
    (h : Reads code offset is) (hi : i ∈ is) :
    code.decodeAt i.offset = .ok i ∧
      (i.offset + i.length = code.size ∨ ∃ j ∈ is, j.offset = i.offset + i.length) := by
  induction is generalizing offset with
  | nil => cases hi
  | cons j js ih =>
    obtain ⟨hj, hjs⟩ := h
    have hoff := offset_of_decodeAt hj
    cases hi with
    | head =>
      refine ⟨by rw [hoff]; exact hj, ?_⟩
      rw [hoff]
      cases js with
      | nil =>
        have hend : code.size ≤ offset + i.length := hjs
        have hle := end_le_of_decodeAt hj
        exact .inl (by omega)
      | cons k ks => exact .inr ⟨k, by simp, offset_of_decodeAt hjs.1⟩
    | tail _ hmem =>
      obtain ⟨hd, hnext⟩ := ih hjs hmem
      refine ⟨hd, hnext.imp id ?_⟩
      rintro ⟨k, hk, hko⟩
      exact ⟨k, by simp [hk], hko⟩

lemma boundary_zero {code : Code} (h : code.walk.2 = none) : Boundary code 0 := by
  have hr := walk_eq_iff_reads.mp (Prod.ext rfl h : code.walk = (code.walk.1, none))
  cases his : code.walk.1 with
  | nil =>
    rw [his] at hr
    have hend : code.size ≤ 0 := hr
    exact .inl (by omega)
  | cons i is =>
    rw [his] at hr
    have hoff := offset_of_decodeAt hr.1
    exact .inr ⟨i, by simp [his], by simp [hoff]⟩

lemma decodeAt_of_mem_walk {code : Code} {i : Instruction} (h : code.walk.2 = none)
    (hi : i ∈ code.walk.1) : code.decodeAt i.offset = .ok i :=
  ((walk_eq_iff_reads.mp (Prod.ext rfl h)).decodeAt_of_mem hi).1

/-- After an instruction stands a boundary. -/
lemma boundary_next {code : Code} {i : Instruction} (h : code.walk.2 = none)
    (hi : i ∈ code.walk.1) : Boundary code (i.offset + i.length : Nat) := by
  rcases ((walk_eq_iff_reads.mp (Prod.ext rfl h)).decodeAt_of_mem hi).2 with hend | ⟨j, hj, hoff⟩
  · exact .inl (by rw [hend])
  · exact .inr ⟨j, hj, by rw [hoff]⟩

end StackCode.Proofs
