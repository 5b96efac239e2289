import StackCode.Proofs.Emission
import StackCode.Proofs.Verification

/-!
# Emitted programs pass verification

The emitter thinks in labels and pending jumps, verification in decoded bytes. The two meet at the
layout: walking the code of an emitted routine lists exactly the instructions that its pieces denote.
-/

namespace StackCode.Proofs

open Emit

/-! ### Walking emitted code -/

/-- From the end of any pieces on, the code reads as the instructions of the remaining pieces, in
order, and an instruction starts wherever code is left. -/
lemma Lowered.reads_from {s : Scope} {constants : List Value} {ps : List Piece} {code : Code}
    (h : Lowered s constants ps code) {front back : List Piece} (hps : ps = front ++ back) :
    ∃ is, Reads code (totalSize front) is ∧
      List.Forall₂ (fun p i => At ps i.offset p ∧
        Denotes s constants (fun _ name t => LeadsToLabel ps name t) i.offset p i)
        (back.filter hasCode) is ∧
      ∀ mid rest, back = mid ++ rest → 0 < totalSize rest →
        ∃ i, is[(mid.filter hasCode).length]? = some i ∧
          i.offset = totalSize front + totalSize mid := by
  induction back generalizing front with
  | nil =>
    refine ⟨[], ?_, .nil, ?_⟩
    · rw [List.append_nil] at hps
      exact Nat.le_of_eq (by rw [h.size, hps])
    · intro mid rest hnil hpos
      obtain ⟨rfl, rfl⟩ := List.append_eq_nil_iff.mp hnil.symm
      cases hpos
  | cons p back ih =>
    obtain ⟨is, hreads, hden, hstarts⟩ := ih (show ps = (front ++ [p]) ++ back by simp [hps])
    rw [totalSize_append, totalSize_cons, totalSize_nil, Nat.add_zero] at hreads hstarts
    have hat : At ps (totalSize front) p := ⟨front, back, hps, rfl⟩
    -- What starts after `p` is known from the induction; only the start of `p` itself is new.
    have hlater : ∀ mid rest, back = mid ++ rest → 0 < totalSize rest →
        ∃ i, is[(mid.filter hasCode).length]? = some i ∧
          i.offset = totalSize front + totalSize (p :: mid) := by
      intro mid rest he hpos
      obtain ⟨i, hi, hoff⟩ := hstarts mid rest he hpos
      exact ⟨i, hi, by rw [hoff, totalSize_cons, Nat.add_assoc]⟩
    by_cases hcode : hasCode p = true
    · obtain ⟨i, hi, hd⟩ := h.reads hat (hasCode_iff.mp hcode)
      have hoff := offset_of_decodeAt hi
      have hlen := hd.length_eq (h.fits p hat.mem)
      refine ⟨i :: is, ⟨hi, by rwa [hlen]⟩, ?_, ?_⟩
      · rw [List.filter_cons_of_pos hcode]
        exact .cons (by rw [hoff]; exact ⟨hat, hd⟩) hden
      · intro mid rest he hpos
        cases mid with
        | nil => exact ⟨i, rfl, by simp [hoff]⟩
        | cons q mid =>
          simp only [List.cons_append, List.cons.injEq] at he
          obtain ⟨rfl, he⟩ := he
          rw [List.filter_cons_of_pos hcode, List.length_cons, List.getElem?_cons_succ]
          exact hlater mid rest he hpos
    · have hzero : pieceSize p = 0 := by
        cases p <;> simp_all [hasCode, pieceSize]
      rw [hzero, Nat.add_zero] at hreads
      refine ⟨is, hreads, by rwa [List.filter_cons_of_neg hcode], ?_⟩
      intro mid rest he hpos
      cases mid with
      | nil =>
        subst he
        simp only [totalSize_cons, hzero, Nat.zero_add] at hpos
        obtain ⟨i, hi, hoff⟩ := hlater [] back rfl hpos
        exact ⟨i, hi, by rw [hoff]; simp [hzero]⟩
      | cons q mid =>
        simp only [List.cons_append, List.cons.injEq] at he
        obtain ⟨rfl, he⟩ := he
        rw [List.filter_cons_of_neg hcode]
        exact hlater mid rest he hpos

/-- Emitted code can be walked to its end: the instructions are those that the pieces denote, in
order, and a jump to a label leads to the instruction that follows it. -/
lemma Lowered.walks_in_order {s : Scope} {constants : List Value} {ps : List Piece} {code : Code}
    (h : Lowered s constants ps code) :
    ∃ is, code.walk = (is, none) ∧
      List.Forall₂ (fun p i => At ps i.offset p ∧
        Denotes s constants (fun _ name t => LeadsToLabel ps name t) i.offset p i)
        (ps.filter hasCode) is ∧
      ∀ front name back, ps = front ++ .label name :: back → 0 < totalSize back →
        ∃ i, is[(front.filter hasCode).length]? = some i ∧ i.offset = totalSize front := by
  obtain ⟨is, hreads, hden, hstarts⟩ := h.reads_from (show ps = [] ++ ps from rfl)
  refine ⟨is, walk_eq_iff_reads.mpr hreads, hden, ?_⟩
  intro front name back hps hpos
  obtain ⟨i, hi, hoff⟩ := hstarts front (.label name :: back) hps (by simpa [pieceSize] using hpos)
  exact ⟨i, hi, by simpa using hoff⟩

/-- Every instruction of emitted code is one that a piece denotes, and every label that a jump may
lead to marks the start of one. -/
lemma Lowered.walks {s : Scope} {constants : List Value} {ps : List Piece} {code : Code}
    (h : Lowered s constants ps code) :
    code.walk.2 = none ∧
      (∀ i ∈ code.walk.1, ∃ p, At ps i.offset p ∧ ¬IsLabel p ∧
        Denotes s constants (fun _ name t => LeadsToLabel ps name t) i.offset p i) ∧
      ∀ name t, LeadsToLabel ps name t → ∃ j ∈ code.walk.1, (j.offset : Int) = t := by
  obtain ⟨is, hwalk, hden, hstarts⟩ := h.walks_in_order
  rw [hwalk]
  refine ⟨rfl, ?_, ?_⟩
  · intro i hi
    obtain ⟨p, hp, hat, hd⟩ := exists_of_forall₂ hden hi
    exact ⟨p, hat, hasCode_iff.mp (List.of_mem_filter hp), hd⟩
  · rintro name t ⟨n, rfl, ⟨front, back, hps, rfl⟩, hlt⟩
    have hrest : 0 < totalSize back := by
      rw [hps, totalSize_append, totalSize_cons] at hlt
      simpa [pieceSize] using hlt
    obtain ⟨j, hj, hoff⟩ := hstarts front name back hps hrest
    exact ⟨j, List.mem_of_getElem? hj, by rw [hoff]⟩

/-! ### Routines and programs -/

/-- An instruction that a piece denotes has its operand in range. -/
lemma Denotes.sound {functions : List Text} {constants : List Value} {f : Function} {r : Routine}
    {offset : Nat} {p : Piece} {i : Instruction} (h : EmittedRoutine functions constants f r)
    (hd : Denotes (scopeOf functions f) constants
      (fun _ name t => LeadsToLabel (bodyPieces f.body) name t) offset p i) (hfits : Fits p) :
    SoundInstruction constants.length functions.length r i := by
  rw [soundInstruction_iff]
  cases p with
  | plain op =>
    subst hd
    cases op <;> simp_all [Fits, Opcode.operandLength, Opcode.usesConstant, Opcode.isJump]
  | slot op name =>
    obtain ⟨k, hk, rfl⟩ := hd
    have hlt := slot_lt hk
    simp only [scopeOf, List.length_map, ← h.slots] at hlt
    rcases hfits with rfl | rfl <;> simp [Opcode.usesConstant, Opcode.isJump, hlt]
  | constant op v =>
    obtain ⟨k, hk, rfl⟩ := hd
    have hlt := (List.getElem?_eq_some_iff.mp hk).1
    cases op <;> simp_all [Fits, Opcode.usesConstant, Opcode.isJump]
  | call function argc =>
    obtain ⟨k, hk, -, rfl⟩ := hd
    have hlt : k < functions.length := (List.idxOf?_eq_some_iff.mp hk).1
    simp [Opcode.usesConstant, Opcode.isJump, hlt]
  | newArray size =>
    obtain ⟨-, rfl⟩ := hd
    simp [Opcode.usesConstant, Opcode.isJump]
  | jump op name =>
    obtain ⟨t, ⟨n, rfl, -, hlt⟩, rfl⟩ := hd
    rw [← h.lowered.size] at hlt
    cases op <;> simp_all [Fits, Opcode.usesConstant, Opcode.isJump]
  | label name => cases hd
  | refused cause => cases hd

/-- Only the piece of a jump denotes a jump. -/
lemma Denotes.eq_jump {s : Scope} {constants : List Value} {leads : Nat → Text → Int → Prop}
    {offset : Nat} {p : Piece} {i : Instruction} (hd : Denotes s constants leads offset p i)
    (hfits : Fits p) (hjump : i.op.isJump) : ∃ name, p = .jump i.op name := by
  cases p with
  | jump op name =>
    obtain ⟨t, -, rfl⟩ := hd
    exact ⟨name, rfl⟩
  | plain op =>
    subst hd
    cases op <;> simp_all [Fits, Opcode.isJump, Opcode.operandLength]
  | slot op name =>
    obtain ⟨k, -, rfl⟩ := hd
    rcases hfits with rfl | rfl <;> cases hjump
  | constant op v =>
    obtain ⟨k, -, rfl⟩ := hd
    cases op <;> simp_all [Fits, Opcode.isJump, Opcode.usesConstant]
  | call function argc =>
    obtain ⟨k, -, -, rfl⟩ := hd
    cases hjump
  | newArray size =>
    obtain ⟨-, rfl⟩ := hd
    cases hjump
  | label name => cases hd
  | refused cause => cases hd

/-- Emission makes routines that are safe to run. -/
lemma EmittedRoutine.sound {functions : List Text} {constants : List Value} {f : Function}
    {r : Routine} (h : EmittedRoutine functions constants f r) :
    SoundRoutine constants.length functions.length r := by
  obtain ⟨hend, hden, hlabels⟩ := h.lowered.walks
  refine ⟨Nat.le_trans (Nat.le_of_eq h.slots) h.slots_le, hend, ?_, ?_⟩
  · intro i hi
    obtain ⟨p, hat, -, hd⟩ := hden i hi
    exact hd.sound h (h.lowered.fits p hat.mem)
  · intro i hi hjump
    obtain ⟨p, hat, -, hd⟩ := hden i hi
    obtain ⟨name, rfl⟩ := hd.eq_jump (h.lowered.fits p hat.mem) hjump
    obtain ⟨t, hlead, he⟩ := hd
    obtain ⟨j, hj, hoff⟩ := hlabels name t hlead
    exact ⟨j, hj, by rw [hoff, he]⟩

/-- The bytes after the opcode of a jump are no longer the placeholder: that would be a jump into
the middle of the jump itself. -/
lemma EmittedRoutine.no_placeholder {functions : List Text} {constants : List Value} {f : Function}
    {r : Routine} (h : EmittedRoutine functions constants f r) {i : Instruction}
    (hi : i ∈ r.bytes.walk.1) (hjump : i.op.isJump) : r.bytes.wordAt (i.offset + 1) ≠ 0xFFFF := by
  intro hword
  obtain ⟨hend, hden, -⟩ := h.lowered.walks
  have hread := decodeAt_of_mem_walk hend hi
  obtain ⟨op, -, -, he⟩ := decodeAt_eq_ok_iff.mp hread
  have hop : i.op = op := by rw [he, instruction_op]
  subst hop
  have htarget : i.target = (i.offset + 2 : Nat) := by
    have hlen : i.op.length = 3 := by
      unfold Opcode.length
      rw [operandLength_of_isJump hjump]
    rw [he]
    simp only [Code.instruction, hjump, if_true, hword, hlen]
    simp [Code.signedWord]
    omega
  -- The target is the start of an instruction, but the jump itself covers it.
  obtain ⟨j, hj, hoff⟩ := h.sound.landings i hi hjump
  obtain ⟨p, hat, -, hd⟩ := hden i hi
  obtain ⟨q, hatq, -, hdq⟩ := hden j hj
  obtain ⟨name, rfl⟩ := hd.eq_jump (h.lowered.fits p hat.mem) hjump
  have hthree : pieceSize (.jump i.op name) = 3 := rfl
  have hpos := instruction_length_pos j
  rw [hdq.length_eq (h.lowered.fits q hatq.mem)] at hpos
  rcases hat.same_or_apart hatq with ⟨hsame, -⟩ | hapart | hapart <;> omega

lemma EmittedProgram.routines_sound {fs : List Function} {p : Program} (h : EmittedProgram fs p) :
    ∀ r ∈ p.functions, SoundRoutine p.constants.length p.functions.length r := by
  intro r hr
  obtain ⟨f, -, hfr⟩ := h.exists_function hr
  have hsound := hfr.sound
  rwa [List.length_map, h.length_eq] at hsound

lemma EmittedProgram.verify_iff {fs : List Function} {p : Program} (h : EmittedProgram fs p) :
    p.verify = .ok () ↔ fs ≠ [] := by
  have hlength := h.length_eq
  have hcount := h.count
  rw [verify_eq_ok_iff]
  constructor
  · rintro hp rfl
    exact hp.nonempty (List.length_eq_zero_iff.mp hlength.symm)
  · intro hfs
    refine ⟨?_, by omega, h.constants_le, h.constants_nodup, h.routines_sound⟩
    intro hp
    rw [hp, List.length_nil, List.length_eq_zero_iff] at hlength
    exact hfs hlength

/-- An emitted program passes verification exactly if the module has a function. In any case its
constants are all different, its operands are in range, no placeholder of a jump is left, and every
jump leads to the start of an instruction of its own function. -/
theorem emit_verifies {m : Module} {p : Program} (h : m.emit = .ok p) :
    (p.verify = .ok () ↔ m.functions ≠ []) ∧ p.constants.Nodup ∧
      ∀ r ∈ p.functions, SoundRoutine p.constants.length p.functions.length r ∧
        ∀ i ∈ r.bytes.walk.1, i.op.isJump → r.bytes.wordAt (i.offset + 1) ≠ 0xFFFF := by
  obtain ⟨fs, hslots, he⟩ := emittedProgram_of_emit h
  refine ⟨?_, he.constants_nodup, ?_⟩
  · rw [he.verify_iff, hslots, ne_eq, ne_eq, List.map_eq_nil_iff]
  · intro r hr
    obtain ⟨f, -, hfr⟩ := he.exists_function hr
    exact ⟨he.routines_sound r hr, fun i hi hjump => hfr.no_placeholder hi hjump⟩

/-! ### An emitted program -/

/-- A loop that counts down and calls a function. It adds two constants, and nothing behind its first
return is ever reached. -/
def countdown : Module where
  name := "countdown"
  exports := ["main"]
  functions := [
    some {
      name := "main"
      params := [⟨"n", []⟩]
      locals := [⟨"s", []⟩]
      body := [
        .const (.int 2), .const (.int 3), .binary .add, .store "s",
        .label "top", .load "n", .const (.int 0), .binary .gt, .jumpIf "end",
        .load "n", .assign "s" (.call "next" 1),
        .load "n", .const (.int 1), .binary .sub, .store "n", .jump "top",
        .label "end", .declare "s" [], .load "s", .ret, .load "n", .ret] },
    some {
      name := "next"
      params := [⟨"x", []⟩]
      body := [.load "x", .const (.int 1), .assign "x" (.binary .add), .load "x", .ret] }]

def countdownProgram : Program where
  functions := [
    { name := "main"
      code := some #[16, 0, 0, 16, 0, 1, 80, 33, 1, 32, 0, 16, 0, 2, 100, 129, 0, 18, 32, 0, 144, 1,
        1, 33, 1, 32, 0, 16, 0, 3, 81, 33, 0, 128, 255, 229, 32, 1, 240, 32, 0, 240]
      locals := 1
      params := 1 },
    { name := "next"
      code := some #[32, 0, 16, 0, 3, 80, 33, 0, 32, 0, 240]
      params := 1 }]
  constants := [.int 2, .int 3, .int 0, .int 1]
  symbols := ["main"]

lemma emit_countdown : countdown.emit = .ok countdownProgram := by cbv

theorem countdown_verifies :
    countdown.emit = .ok countdownProgram ∧ countdown.functions ≠ [] ∧
      countdownProgram.verify = .ok () :=
  ⟨emit_countdown, by simp [countdown], (emit_verifies emit_countdown).1.mpr (by simp [countdown])⟩

end StackCode.Proofs
