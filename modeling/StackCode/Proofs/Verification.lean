import StackCode.Program.Basic
import StackCode.Proofs.CodeReading

/-!
# What verification checks

Verification accepts exactly the sound programs: constants that are all different, every operand in
range, code that reads to its end, and every jump at the start of an instruction of its own function.
-/

namespace StackCode.Proofs

/-- The operand of an instruction is in range. -/
@[mk_iff soundInstruction_iff]
structure SoundInstruction (constants functions : Nat) (r : Routine) (i : Instruction) : Prop where
  constant : i.op.usesConstant → i.operand < constants
  slot : i.op = .loadLocal ∨ i.op = .storeLocal → i.operand < r.slots
  function : i.op = .call → i.operand < functions
  target : i.op.isJump → 0 ≤ i.target ∧ i.target < r.bytes.size

/-- A routine that is safe to run in a program with so many constants and functions. -/
structure SoundRoutine (constants functions : Nat) (r : Routine) : Prop where
  slots_le : r.slots ≤ 256
  walks : r.bytes.walk.2 = none
  instructions : ∀ i ∈ r.bytes.walk.1, SoundInstruction constants functions r i
  landings : ∀ i ∈ r.bytes.walk.1, i.op.isJump → ∃ j ∈ r.bytes.walk.1, (j.offset : Int) = i.target

/-- A program that is safe to run. -/
structure SoundProgram (p : Program) : Prop where
  nonempty : p.functions ≠ []
  functions_le : p.functions.length ≤ 256
  constants_le : p.constants.length ≤ 65536
  constants_nodup : p.constants.Nodup
  routines : ∀ r ∈ p.functions, SoundRoutine p.constants.length p.functions.length r

/-! ### Constants -/

/-- The search for a repeated constant knows where each constant before `j` stands. -/
lemma repeatedConstant_go_eq_none_iff {seen : Std.HashMap Value Nat} {j : Nat} {vs : List Value} :
    Program.repeatedConstant?.go seen j vs = none ↔ vs.Nodup ∧ ∀ v ∈ vs, v ∉ seen := by
  induction vs generalizing seen j with
  | nil => simp [Program.repeatedConstant?.go]
  | cons v vs ih =>
    rw [Program.repeatedConstant?.go]
    cases hv : seen[v]? with
    | some i =>
      have hmem : v ∈ seen := Std.HashMap.mem_iff_isSome_getElem?.mpr (by simp [hv])
      simp only [reduceCtorEq, List.mem_cons, false_iff, not_and]
      intro _ hfresh
      exact hfresh v (.inl rfl) hmem
    | none =>
      have hfresh : v ∉ seen := by
        intro hmem
        have hsome := Std.HashMap.mem_iff_isSome_getElem?.mp hmem
        simp [hv] at hsome
      simp only [ih, List.nodup_cons, List.mem_cons, Std.HashMap.mem_insert, beq_iff_eq, not_or,
        forall_eq_or_imp]
      constructor
      · rintro ⟨hnodup, hall⟩
        exact ⟨⟨fun hm => (hall v hm).1 rfl, hnodup⟩, hfresh, fun w hw => (hall w hw).2⟩
      · rintro ⟨⟨hnot, hnodup⟩, -, hall⟩
        exact ⟨hnodup, fun w hw => ⟨fun he => hnot (he ▸ hw), hall w hw⟩⟩

lemma repeatedConstant_eq_none_iff (vs : List Value) :
    Program.repeatedConstant? vs = none ↔ vs.Nodup := by
  unfold Program.repeatedConstant?
  rw [repeatedConstant_go_eq_none_iff]
  simp

/-! ### Instructions and routines -/

lemma defect_eq_none_iff (constants functions : Nat) (r : Routine) (i : Instruction) :
    Program.defect? constants functions r i = none ↔
      SoundInstruction constants functions r i := by
  obtain ⟨op, offset, operand, argc, jump, target⟩ := i
  -- The classes of opcodes that are told apart do not overlap.
  cases op <;>
    simp [Program.defect?, Opcode.usesConstant, Opcode.isJump, soundInstruction_iff]

/-- The starts that verification collects are those of the instructions. -/
lemma mem_starts_iff (is : List Instruction) (seen : Std.HashSet Int) (t : Int) :
    (is.foldl (fun s i => s.insert (i.offset : Int)) seen).contains t ↔
      seen.contains t ∨ ∃ j ∈ is, (j.offset : Int) = t := by
  induction is generalizing seen with
  | nil => simp
  | cons i is ih =>
    rw [List.foldl_cons, ih]
    simp only [Std.HashSet.contains_insert, Bool.or_eq_true, beq_iff_eq, List.mem_cons,
      exists_eq_or_imp]
    rw [or_comm (a := (i.offset : Int) = t), or_assoc]

lemma jumpInside_eq_none_iff (is : List Instruction) :
    Program.jumpInside? is = none ↔
      ∀ i ∈ is, i.op.isJump → ∃ j ∈ is, (j.offset : Int) = i.target := by
  unfold Program.jumpInside?
  simp only [List.findSome?_eq_none_iff]
  refine forall₂_congr fun i _ => ?_
  have hstarts := mem_starts_iff is {} i.target
  simp only [Std.HashSet.contains_empty, Bool.false_eq_true, false_or] at hstarts
  rw [← hstarts]
  simp

/-- A routine has no defect exactly if it is sound. -/
lemma functionDefect_eq_none_iff (constants functions : Nat) (r : Routine) :
    Program.functionDefect? constants functions r = none ↔ SoundRoutine constants functions r := by
  unfold Program.functionDefect?
  by_cases hslots : 256 < r.slots
  · simp only [if_pos hslots, reduceCtorEq, false_iff]
    intro h
    have hle := h.slots_le
    omega
  · rw [if_neg hslots]
    have hinstr : r.bytes.walk.1.findSome? (Program.defect? constants functions r) = none ↔
        ∀ i ∈ r.bytes.walk.1, SoundInstruction constants functions r i := by
      rw [List.findSome?_eq_none_iff]
      exact forall₂_congr fun i _ => defect_eq_none_iff constants functions r i
    simp only
    cases hd : r.bytes.walk.1.findSome? (Program.defect? constants functions r) with
    | some d =>
      simp only [reduceCtorEq, false_iff]
      intro h
      rw [hinstr.mpr h.instructions] at hd
      cases hd
    | none =>
      cases hf : r.bytes.walk.2 with
      | some e =>
        simp only [reduceCtorEq, false_iff]
        intro h
        rw [h.walks] at hf
        cases hf
      | none =>
        simp only
        rw [jumpInside_eq_none_iff]
        constructor
        · intro h
          exact ⟨by omega, hf, hinstr.mp hd, h⟩
        · intro h
          exact h.landings

/-- Verification accepts exactly the sound programs. -/
theorem verify_eq_ok_iff (p : Program) : p.verify = .ok () ↔ SoundProgram p := by
  unfold Program.verify
  split_ifs with hempty hfuns hconsts
  · rw [false_iff]
    intro h
    exact h.nonempty (List.isEmpty_iff.mp hempty)
  · rw [false_iff]
    intro h
    have hle := h.functions_le
    omega
  · rw [false_iff]
    intro h
    have hle := h.constants_le
    omega
  · cases hrep : Program.repeatedConstant? p.constants with
    | some found =>
      obtain ⟨i, j, v⟩ := found
      simp only [reduceCtorEq, false_iff]
      intro h
      rw [(repeatedConstant_eq_none_iff _).mpr h.constants_nodup] at hrep
      cases hrep
    | none =>
      have hnodup := (repeatedConstant_eq_none_iff _).mp hrep
      have hall : p.functions.findSome? (fun f =>
          (Program.functionDefect? p.constants.length p.functions.length f).map
            (Program.VerifyError.inFunction f.name)) = none ↔
          ∀ r ∈ p.functions, SoundRoutine p.constants.length p.functions.length r := by
        simp only [List.findSome?_eq_none_iff, Option.map_eq_none_iff, functionDefect_eq_none_iff]
      simp only
      cases herr : p.functions.findSome? (fun f =>
          (Program.functionDefect? p.constants.length p.functions.length f).map
            (Program.VerifyError.inFunction f.name)) with
      | some e =>
        simp only [reduceCtorEq, false_iff]
        intro h
        rw [hall.mpr h.routines] at herr
        cases herr
      | none =>
        simp only [true_iff]
        exact ⟨fun h => hempty (List.isEmpty_iff.mpr h), by omega, by omega, hnodup, hall.mp herr⟩

end StackCode.Proofs
