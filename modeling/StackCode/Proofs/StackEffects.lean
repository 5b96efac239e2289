import StackCode.Proofs.EmissionSimulation
import StackCode.Proofs.ExecutionSafety
import StackCode.Proofs.LoweringTable

/-!
# Stack effects

The stack effect of an instruction is what the machine does to the operands when it runs the code of
that instruction: too few operands stop it at once, and otherwise the popped ones are replaced by
the pushed ones. A call counts as one instruction of its frame, with all that the callee runs.
-/

namespace StackCode.Proofs

open Emit Source

/-! ### One machine instruction -/

/-- A frame goes on behind an instruction, with values instead of the operands that it popped. -/
structure GoesOn (f : Frame) (i : Instruction) (values : Int) (f' : Frame) : Prop where
  routine : f'.routine = f.routine
  behind : ¬i.op.isJump → f'.ip = (i.offset + i.length : Nat)
  stack : ∃ new, (new.length : Int) = values ∧ f'.stack = new ++ f.stack.drop (neededOperands i)

/-- What an instruction may do to the stack of its frame. The value that a call pushes is still to
come when the callee starts. -/
def Balanced (f : Frame) (i : Instruction) : Frame.Action → Prop
  | .next f' _ => GoesOn f i i.op.pushes f'
  | .call _ _ f' _ => i.op = .call ∧ GoesOn f i 0 f'
  | _ => True

lemma execute_balanced (image : Image) (h : Heap) (f : Frame) (i : Instruction) :
    Balanced f i (f.execute image h i) := by
  obtain ⟨r, ip, slots, stack⟩ := f
  obtain ⟨op, offset, operand, argc, jump, target⟩ := i
  cases op with
  | nop => exact ⟨rfl, fun _ => rfl, [], rfl, rfl⟩
  | jump => exact ⟨rfl, fun hjump => absurd rfl hjump, [], rfl, rfl⟩
  | newArray => exact ⟨rfl, fun _ => rfl, [_], rfl, rfl⟩
  | pop =>
    cases stack with
    | nil => trivial
    | cons d rest => exact ⟨rfl, fun _ => rfl, [], rfl, rfl⟩
  | ret => cases stack <;> trivial
  | loadConst | newObject =>
    simp only [Frame.execute]
    cases image.constants[operand]? with
    | none => trivial
    | some v => exact ⟨rfl, fun _ => rfl, [_], rfl, rfl⟩
  | loadLocal =>
    simp only [Frame.execute]
    cases slots[operand]? with
    | none => trivial
    | some d => exact ⟨rfl, fun _ => rfl, [_], rfl, rfl⟩
  | storeLocal =>
    cases stack with
    | nil => trivial
    | cons d rest =>
      simp only [Frame.execute]
      split_ifs
      · exact ⟨rfl, fun _ => rfl, [], rfl, rfl⟩
      · trivial
  | add | sub | mul | div | mod | eq | ne | lt | le | gt | ge | and | or =>
    obtain _ | ⟨b, _ | ⟨a, rest⟩⟩ := stack
    · trivial
    · trivial
    · simp only [Frame.execute]
      split
      · exact ⟨rfl, fun _ => rfl, [_], rfl, rfl⟩
      · trivial
  | neg | not =>
    cases stack with
    | nil => trivial
    | cons a rest =>
      simp only [Frame.execute]
      split
      · exact ⟨rfl, fun _ => rfl, [_], rfl, rfl⟩
      · trivial
  | jumpIf =>
    cases stack with
    | nil => trivial
    | cons d rest =>
      simp only [Frame.execute]
      split
      · rename_i hd
        cases hd
        exact ⟨rfl, fun hjump => absurd rfl hjump, [], rfl, rfl⟩
      · trivial
      · trivial
  | call =>
    simp only [Frame.execute]
    split_ifs
    · exact ⟨rfl, rfl, fun _ => rfl, [], rfl, rfl⟩
    · trivial
  | loadArray =>
    obtain _ | ⟨index, _ | ⟨array, rest⟩⟩ := stack
    · trivial
    · trivial
    · simp only [Frame.execute]
      split
      · exact ⟨rfl, fun _ => rfl, [_], rfl, rfl⟩
      · trivial
      · trivial
  | storeArray =>
    obtain _ | ⟨d, _ | ⟨index, _ | ⟨array, rest⟩⟩⟩ := stack
    · trivial
    · trivial
    · trivial
    · simp only [Frame.execute]
      split
      · exact ⟨rfl, fun _ => rfl, [], rfl, rfl⟩
      · trivial
      · trivial
  | loadField =>
    cases stack with
    | nil => trivial
    | cons object rest =>
      simp only [Frame.execute]
      split
      · trivial
      · split
        · split
          · exact ⟨rfl, fun _ => rfl, [_], rfl, rfl⟩
          · trivial
        · trivial
  | storeField =>
    obtain _ | ⟨d, _ | ⟨object, rest⟩⟩ := stack
    · trivial
    · trivial
    · simp only [Frame.execute]
      split
      · trivial
      · split
        · split_ifs
          · exact ⟨rfl, fun _ => rfl, [], rfl, rfl⟩
          · trivial
        · trivial

/-! ### Instructions of a frame -/

/-- What a step does to the frames that wait. -/
inductive Moves (callers : List Frame) (s' : State) : Prop
  | stays (h : s'.callers = callers)
  | calls {f} (h : s'.callers = f :: callers)
  | returns {f cs d} (h : callers = f :: cs) (hcallers : s'.callers = cs)
    (hframe : s'.frame = { f with stack := d :: f.stack })

section Frames

variable {image : Image} {maxFrames : Int}

lemma enter_running {function depth steps : Nat} {arguments : List Datum} {callers : List Frame}
    {heap : Heap} {polls : Option Nat} {s' : State}
    (h : State.enter image maxFrames function arguments callers depth heap steps polls =
      .running s') : s'.callers = callers := by
  obtain ⟨r, -, -, rfl⟩ := enter_eq_running h
  rfl

lemma moves_of_leave {d : Datum} {callers : List Frame} {depth steps : Nat} {heap : Heap}
    {polls : Option Nat} {s' : State}
    (h : State.leave d callers depth heap steps polls = .running s') : Moves callers s' := by
  obtain ⟨f, rest, hcallers, rfl⟩ := leave_eq_running h
  exact .returns hcallers rfl rfl

lemma step_moves {s s' : State} (h : s.step image maxFrames = .running s') :
    Moves s.callers s' := by
  unfold State.step at h
  simp only at h
  split_ifs at h with hend hneg
  · exact moves_of_leave h
  · split at h
    · cases h
    · split at h
      · cases h
      · split at h
        · cases h
          exact .stays rfl
        · exact .calls (enter_running h)
        · exact moves_of_leave h
        · cases h
        · cases h

/-- The first state from `s` on in which no more than `n` frames wait is `s'`, and exactly `n` wait
there. -/
inductive ComesBack (image : Image) (maxFrames : Int) (n : Nat) : State → State → Prop
  | here {s} (h : s.callers.length = n) : ComesBack image maxFrames n s s
  | above {s t s'} (h : n < s.callers.length) (hstep : s.step image maxFrames = .running t)
    (hrest : ComesBack image maxFrames n t s') : ComesBack image maxFrames n s s'

/-- The running frame goes on: it runs one instruction, and if that is a call, the callee returns.
-/
def Resumes (image : Image) (maxFrames : Int) (s s' : State) : Prop :=
  ∃ t, s.step image maxFrames = .running t ∧ ComesBack image maxFrames s.callers.length t s'

/-- The running frame goes on for `n` instructions. -/
def Completes (image : Image) (maxFrames : Int) : Nat → State → State → Prop
  | 0, s, s' => s' = s
  | n + 1, s, s' => ∃ t, Resumes image maxFrames s t ∧ Completes image maxFrames n t s'

lemma ComesBack.eq_of_length {s s' : State} {n : Nat} (h : ComesBack image maxFrames n s s')
    (hn : s.callers.length ≤ n) : s' = s ∧ s.callers.length = n := by
  cases h with
  | here h => exact ⟨rfl, h⟩
  | above h => omega

/-- A frame that waits below others is left as it is, until the value that it waits for comes. -/
lemma ComesBack.returned {s s' : State} {f : Frame} {cs above : List Frame}
    (h : ComesBack image maxFrames cs.length s s') (hcallers : s.callers = above ++ f :: cs) :
    s'.callers = cs ∧ ∃ d, s'.frame = { f with stack := d :: f.stack } := by
  induction h generalizing above with
  | here h =>
    have hlength := congrArg List.length hcallers
    rw [List.length_append, List.length_cons] at hlength
    omega
  | above h hstep hrest ih =>
    cases step_moves hstep with
    | stays hsame => exact ih (hsame.trans hcallers)
    | @calls g hcall =>
      rw [hcallers, ← List.cons_append] at hcall
      exact ih hcall
    | @returns g rest d hwait hrest' hframe =>
      cases above with
      | nil =>
        obtain ⟨rfl, rfl⟩ := List.cons.inj (hwait.symm.trans hcallers)
        obtain ⟨rfl, -⟩ := hrest.eq_of_length (by rw [hrest'])
        exact ⟨hrest', d, hframe⟩
      | cons g' above =>
        obtain ⟨-, htail⟩ := List.cons.inj (hwait.symm.trans hcallers)
        exact ih (hrest'.trans htail)

lemma GoesOn.push {f f' : Frame} {i : Instruction} (h : GoesOn f i 0 f') (d : Datum) :
    GoesOn f i 1 { f' with stack := d :: f'.stack } := by
  obtain ⟨new, hlength, hstack⟩ := h.stack
  refine ⟨h.routine, h.behind, d :: new, ?_, by rw [hstack]; rfl⟩
  rw [List.length_cons]
  omega

/-- A frame that goes on has run its instruction, calls included. -/
lemma Resumes.goesOn {s s' : State} {offset : Nat} {i : Instruction}
    (h : Resumes image maxFrames s s') (hip : s.frame.ip = offset)
    (hread : s.frame.routine.bytes.decodeAt offset = .ok i) :
    s'.callers = s.callers ∧ neededOperands i ≤ s.frame.stack.length ∧
      GoesOn s.frame i i.op.pushes s'.frame := by
  obtain ⟨t, ht, hback⟩ := h
  have hbalanced := execute_balanced image s.heap s.frame i
  rw [step_of_decodeAt image maxFrames hip hread] at ht
  cases hpoll : State.poll? (s.steps + 1) s.polls with
  | none => simp [hpoll] at ht
  | some polls =>
    rw [hpoll] at ht
    have henough : neededOperands i ≤ s.frame.stack.length := by
      by_contra hfew
      rw [execute_underflow (Nat.not_le.mp hfew)] at ht
      cases ht
    cases haction : s.frame.execute image s.heap i with
    | next f heap =>
      rw [haction] at ht hbalanced
      cases ht
      obtain ⟨rfl, -⟩ := hback.eq_of_length (Nat.le_refl _)
      exact ⟨rfl, henough, hbalanced⟩
    | call function arguments f heap =>
      rw [haction] at ht hbalanced
      obtain ⟨hop, hgoes⟩ := hbalanced
      have hwaits := enter_running ht
      rw [← List.nil_append (f :: s.callers)] at hwaits
      obtain ⟨hcallers, d, hframe⟩ := hback.returned hwaits
      rw [hop, hframe]
      exact ⟨hcallers, henough, hgoes.push d⟩
    | leave d heap =>
      rw [haction] at ht
      cases hcallers : s.callers with
      | nil =>
        rw [hcallers] at ht
        cases ht
      | cons f cs =>
        rw [hcallers] at ht hback
        cases ht
        have hlength := (hback.eq_of_length (by simp)).2
        simp at hlength
    | fault cause heap =>
      rw [haction] at ht
      cases ht
    | crash heap =>
      rw [haction] at ht
      cases ht

lemma step_underflow {s : State} {offset : Nat} {i : Instruction} {polls : Option Nat}
    (hip : s.frame.ip = offset) (hread : s.frame.routine.bytes.decodeAt offset = .ok i)
    (hfew : s.frame.stack.length < neededOperands i)
    (hpoll : State.poll? (s.steps + 1) s.polls = some polls) :
    ∃ cause : Fault.Cause, cause.kind = .stackUnderflow ∧ s.step image maxFrames =
      .done ⟨.fault ⟨cause, s.frame.routine.name, offset⟩, s.heap, s.steps + 1⟩ := by
  refine ⟨.underflow i.op (neededOperands i) s.frame.stack.length, rfl, ?_⟩
  rw [step_of_decodeAt image maxFrames hip hread, hpoll, execute_underflow hfew]
  rfl

end Frames

/-! ### Instructions of a body -/

/-- An instruction behind which the next one of the body follows. -/
def Straight (i : Instr) : Prop := ∀ name, i ≠ .jump name ∧ i ≠ .jumpIf name

/-- One machine instruction pops and pushes as much as the instruction that it was made of. -/
lemma effect_of_denotes {scope : Scope} {constants : List Value}
    {leads : Nat → Text → Int → Prop} {offset : Nat} {i : Instr} {q : Piece} {x : Instruction}
    (hpieces : pieces i = [q]) (hd : Denotes scope constants leads offset q x) :
    i.stackEffect = ((neededOperands x : Int), x.op.pushes) ∧ (Straight i → ¬x.op.isJump) := by
  cases i with
  | missing | label name =>
    cases hpieces
    cases hd
  | declare name type => cases hpieces
  | assign name inner =>
    rw [pieces] at hpieces
    split_ifs at hpieces with hmissing hpush
    · cases hpieces
      cases hd
    · cases hpieces
      cases hd
    · obtain ⟨q', hq', -⟩ := pieces_of_pushes (not_ne_iff.mp hpush)
      rw [hq'] at hpieces
      cases hpieces
  | binary op =>
    cases op with
    | undefined name text =>
      cases hpieces
      cases hd
    | _ =>
      cases hpieces
      cases hd
      exact ⟨rfl, fun _ => Bool.false_ne_true⟩
  | unary op =>
    cases op with
    | undefined name text =>
      cases hpieces
      cases hd
    | _ =>
      cases hpieces
      cases hd
      exact ⟨rfl, fun _ => Bool.false_ne_true⟩
  | ret | arrayLoad | arrayStore =>
    cases hpieces
    cases hd
    exact ⟨rfl, fun _ => Bool.false_ne_true⟩
  | const _ | load _ | store _ | newObject _ | getProp _ | setProp _ =>
    cases hpieces
    obtain ⟨k, -, rfl⟩ := hd
    exact ⟨rfl, fun _ => Bool.false_ne_true⟩
  | newArray _ size =>
    cases hpieces
    obtain ⟨-, rfl⟩ := hd
    exact ⟨rfl, fun _ => Bool.false_ne_true⟩
  | call function argc =>
    cases hpieces
    obtain ⟨k, -, hargc, rfl⟩ := hd
    refine ⟨?_, fun _ => Bool.false_ne_true⟩
    simp [Instr.stackEffect, neededOperands, Opcode.pushes, hargc]
  | jump name =>
    cases hpieces
    obtain ⟨t, -, rfl⟩ := hd
    exact ⟨rfl, fun h => absurd rfl (h name).1⟩
  | jumpIf name =>
    cases hpieces
    obtain ⟨t, -, rfl⟩ := hd
    exact ⟨rfl, fun h => absurd rfl (h name).2⟩

lemma effect_of_silent {i : Instr} (hlowers : ∀ cause, .refused cause ∉ pieces i)
    (hsize : totalSize (pieces i) = 0) : lowering i = [] ∧ i.stackEffect = (0, 0) := by
  cases i with
  | declare name type => exact ⟨rfl, rfl⟩
  | label name => exact ⟨rfl, rfl⟩
  | missing => simp [pieces] at hlowers
  | assign name inner =>
    rw [pieces] at hlowers hsize
    split_ifs at hlowers hsize
    · simp at hlowers
    · simp at hlowers
    · simp [pieceSize] at hsize
  | binary op => cases op <;> simp_all [pieces, BinOp.opcode?, pieceSize]
  | unary op => cases op <;> simp_all [pieces, UnOp.opcode?, pieceSize]
  | _ => simp [pieces, pieceSize] at hsize

/-- The running frame has completed an instruction with the given stack effect. -/
structure Completed (s s' : State) (pop push : Nat) : Prop where
  callers : s'.callers = s.callers
  routine : s'.frame.routine = s.frame.routine
  enough : pop ≤ s.frame.stack.length
  stack : ∃ new, new.length = push ∧ s'.frame.stack = new ++ s.frame.stack.drop pop

/-- In a state where the running frame stands at an instruction, the machine pops and pushes what
the stack effect of the instruction says. The code of the instruction ends at the offset `next`. -/
structure MatchesEffect (image : Image) (maxFrames : Int) (i : Instr) (next : Nat) (s : State)
    (pop push : Nat) : Prop where
  effect : i.stackEffect = ((pop : Int), (push : Int))
  underflow : s.frame.stack.length < pop → ∀ {polls},
    State.poll? (s.steps + 1) s.polls = some polls →
    ∃ cause : Fault.Cause, cause.kind = .stackUnderflow ∧ s.step image maxFrames =
      .done ⟨.fault ⟨cause, s.frame.routine.name, s.frame.ip.toNat⟩, s.heap, s.steps + 1⟩
  completed : ∀ {s'}, Completes image maxFrames (lowering i).length s s' →
    Completed s s' pop push ∧ (Straight i → s'.frame.ip = next)

lemma length_lowering {i : Instr} (hlowers : ∀ cause, .refused cause ∉ pieces i)
    (hcode : ∀ q ∈ pieces i, ¬IsLabel q) : (lowering i).length = (pieces i).length := by
  have hmarks : marks i = [] := by
    cases i with
    | label name => exact absurd trivial (hcode (.label name) (by simp [pieces]))
    | _ => rfl
  rw [pieces_eq_lowering hlowers, hmarks]
  simp

lemma toNat_pushes (op : Opcode) : (op.pushes.toNat : Int) = op.pushes := by
  cases op <;> rfl

section Body

variable {image : Image} {maxFrames : Int} {functions : List Text} {constants : List Value}
  {f : Function} {r : Routine} (hr : EmittedRoutine functions constants f r) {j : Nat} {i : Instr}
  (hi : f.body[j]? = some i) {s : State} (hroutine : s.frame.routine = r)
  (hip : s.frame.ip = offsetAt f.body j)

include hr hi

lemma lowers_of_emitted (cause : Cause) : .refused cause ∉ pieces i := fun hmem =>
  hr.lowered.lowerable cause (List.mem_flatMap.mpr ⟨i, List.mem_of_getElem? hi, hmem⟩)

lemma reads_piece {front back : List Piece} {q : Piece} (hpieces : pieces i = front ++ q :: back)
    (hlabel : ¬IsLabel q) :
    ∃ x, r.bytes.decodeAt ((offsetAt f.body j + totalSize front : Nat) : Int) = .ok x ∧
      x.length = pieceSize q ∧ x.offset = offsetAt f.body j + totalSize front ∧
      Denotes (scopeOf functions f) constants (fun _ => LeadsToLabel (bodyPieces f.body))
        (offsetAt f.body j + totalSize front) q x := by
  have hat := at_offsetAt hi hpieces
  obtain ⟨x, hread, hd⟩ := hr.lowered.reads hat hlabel
  exact ⟨x, hread, hd.length_eq (hr.lowered.fits q hat.mem), offset_of_decodeAt hread, hd⟩

include hroutine hip

lemma silent_matches (hsize : totalSize (pieces i) = 0) :
    MatchesEffect image maxFrames i (offsetAt f.body (j + 1)) s 0 0 := by
  obtain ⟨hlowering, heffect⟩ := effect_of_silent (lowers_of_emitted hr hi) hsize
  refine ⟨heffect, fun hfew => absurd hfew (Nat.not_lt_zero _), ?_⟩
  intro s' hs'
  rw [hlowering] at hs'
  obtain rfl : s' = s := hs'
  refine ⟨⟨rfl, rfl, Nat.zero_le _, [], rfl, rfl⟩, fun _ => ?_⟩
  rw [hip, offsetAt_succ hi, hsize, Nat.add_zero]

lemma single_matches {q : Piece} (hpieces : pieces i = [q]) (hlabel : ¬IsLabel q) :
    ∃ pop push, MatchesEffect image maxFrames i (offsetAt f.body (j + 1)) s pop push := by
  have hpieces' : pieces i = [] ++ q :: [] := hpieces
  obtain ⟨x, hread, hlength, hoffset, hd⟩ := reads_piece hr hi hpieces' hlabel
  rw [totalSize_nil, Nat.add_zero] at hread hoffset hd
  obtain ⟨heffect, hstraight⟩ := effect_of_denotes hpieces hd
  refine ⟨neededOperands x, x.op.pushes.toNat, ?_, ?_, ?_⟩
  · rw [heffect, toNat_pushes]
  · intro hfew polls hpoll
    rw [hip, Int.toNat_natCast]
    exact step_underflow hip (hroutine ▸ hread) hfew hpoll
  · intro s' hs'
    have hone : (lowering i).length = 1 := by
      rw [length_lowering (lowers_of_emitted hr hi) (by simp [hpieces, hlabel]), hpieces]
      rfl
    rw [hone] at hs'
    obtain ⟨t, ht, rfl⟩ := hs'
    obtain ⟨hcallers, henough, hgoes⟩ := ht.goesOn hip (hroutine ▸ hread)
    obtain ⟨new, hnew, hstack⟩ := hgoes.stack
    refine ⟨⟨hcallers, hgoes.routine, henough, new, by omega, hstack⟩, fun hi' => ?_⟩
    rw [hgoes.behind (hstraight hi'), hoffset, hlength, offsetAt_succ hi, hpieces]
    simp

lemma assign_matches {name : Text} {inner : Instr} {q : Piece} (heq : i = .assign name inner)
    (hpieces : pieces i = [q, .slot .storeLocal name]) (hinner : pieces inner = [q])
    (hlabel : ¬IsLabel q) (hpush : inner.stackEffect.2 = 1) :
    ∃ pop push, MatchesEffect image maxFrames i (offsetAt f.body (j + 1)) s pop push := by
  have hpieces₁ : pieces i = [] ++ q :: [.slot .storeLocal name] := hpieces
  have hpieces₂ : pieces i = [q] ++ .slot .storeLocal name :: [] := hpieces
  obtain ⟨x, hread, hlength, hoffset, hd⟩ := reads_piece hr hi hpieces₁ hlabel
  rw [totalSize_nil, Nat.add_zero] at hread hoffset hd
  obtain ⟨y, hread', -, -, k, -, rfl⟩ := reads_piece hr hi hpieces₂ id
  obtain ⟨heffect, hjump⟩ := effect_of_denotes hinner hd
  have hone : x.op.pushes = 1 := by rw [← hpush, heffect]
  have hstraight : Straight inner := fun name => by
    constructor <;> rintro rfl <;> simp [Instr.stackEffect] at hpush
  refine ⟨neededOperands x, 0, ?_, ?_, ?_⟩
  · rw [heq, Instr.stackEffect, heffect]
    rfl
  · intro hfew polls hpoll
    rw [hip, Int.toNat_natCast]
    exact step_underflow hip (hroutine ▸ hread) hfew hpoll
  · intro s' hs'
    have hcode : ∀ q ∈ pieces i, ¬IsLabel q := by
      rw [hpieces]
      exact List.forall_mem_cons.mpr ⟨hlabel, List.forall_mem_singleton.mpr id⟩
    have htwo : (lowering i).length = 2 := by
      rw [length_lowering (lowers_of_emitted hr hi) hcode, hpieces]
      rfl
    rw [htwo] at hs'
    obtain ⟨t, ht, t', ht', rfl⟩ := hs'
    -- The inner instruction leaves one value, which the store takes.
    obtain ⟨hcallers, henough, hgoes⟩ := ht.goesOn hip (hroutine ▸ hread)
    have hip' : t.frame.ip = ((offsetAt f.body j + totalSize [q] : Nat) : Int) := by
      rw [hgoes.behind (hjump hstraight), hoffset, hlength]
      simp
    have hroutine' : t.frame.routine = r := hgoes.routine.trans hroutine
    obtain ⟨hcallers', -, hgoes'⟩ := ht'.goesOn hip' (hroutine' ▸ hread')
    obtain ⟨new, hnew, hstack⟩ := hgoes.stack
    obtain ⟨new', hnew', hstack'⟩ := hgoes'.stack
    obtain rfl : new' = [] := List.eq_nil_of_length_eq_zero (by simpa [Opcode.pushes] using hnew')
    have hstored : s'.frame.stack = s.frame.stack.drop (neededOperands x) := by
      rw [hstack', hstack]
      exact List.drop_left' (by rw [neededOperands]; simp [Opcode.pops]; omega)
    refine ⟨⟨hcallers'.trans hcallers, hgoes'.routine.trans hgoes.routine, henough, [], rfl,
      hstored⟩, fun _ => ?_⟩
    rw [hgoes'.behind (by simp [Opcode.isJump]), offsetAt_succ hi, hpieces]
    simp [Instruction.length, Opcode.length, Opcode.operandLength, pieceSize]
    omega

end Body

/-- The machine pops and pushes what the stack effects say. Wherever the running frame stands at an
instruction of an emitted function, too few operands raise a stack underflow at once, with the heap
as it was; and when the frame has completed the instruction, values instead of the popped operands
stand on what was below them. -/
theorem stack_effects_match {m : Module} {p : Program} (hemit : m.emit = .ok p) {k : Nat}
    {f : Function} (hf : m.functions[k]? = some (some f)) {r : Routine}
    (hr : p.functions[k]? = some r) {j : Nat} {i : Instr} (hi : f.body[j]? = some i)
    (maxFrames : Int) {s : State} (hroutine : s.frame.routine = r)
    (hip : s.frame.ip = codeSize (f.body.take j)) :
    p.verify = .ok () ∧ ∃ pop push,
      MatchesEffect p.image maxFrames i (codeSize (f.body.take (j + 1))) s pop push := by
  obtain ⟨fs, hfs, hp⟩ := emittedProgram_of_emit hemit
  have hf' : fs[k]? = some f := by simpa [hfs] using hf
  have hemitted := hp.routine_at hf' hr
  have hoffset (n : Nat) : codeSize (f.body.take n) = offsetAt f.body n :=
    (hemitted.lowered.lowerable.subset (List.take_subset n f.body)).totalSize_eq.symm
  rw [hoffset] at hip ⊢
  refine ⟨hp.verify_iff.mpr (List.ne_nil_of_mem (List.mem_of_getElem? hf')), ?_⟩
  cases shape i with
  | silent hsize => exact ⟨0, 0, silent_matches hemitted hi hroutine hip hsize⟩
  | single hpieces hlabel => exact single_matches hemitted hi hroutine hip hpieces hlabel
  | assign heq hpieces hinner hlabel hpush =>
    exact assign_matches hemitted hi hroutine hip heq hpieces hinner hlabel hpush

/-- The main function of `countdown` in its loop, with the value of its local variable. -/
def calling (ip : Int) (n : Int64) (stack : List Datum) (steps : Nat) : State where
  frame := ⟨countdownProgram.functions[0], ip, #[.scalar (.int 2), .scalar (.int n)], stack⟩
  heap := {}
  steps := steps

/-- The function that the loop calls, with the value of its parameter. -/
def called (ip : Int) (n : Int64) (stack : List Datum) (steps : Nat) : State where
  frame := ⟨countdownProgram.functions[1], ip, #[.scalar (.int n)], stack⟩
  callers := [(calling 23 5 [.null] 1).frame]
  depth := 2
  heap := {}
  steps := steps

/-- The call in the loop and the store behind it. -/
lemma completes_call : Completes countdownProgram.image 2 2
    (calling 20 5 [.scalar (.int 2), .null] 0) (calling 25 3 [.null] 8) := by
  have hcall : Resumes countdownProgram.image 2 (calling 20 5 [.scalar (.int 2), .null] 0)
      (calling 23 5 [.scalar (.int 3), .null] 7) :=
    ⟨called 0 2 [] 1, by cbv,
      .above (t := called 2 2 [.scalar (.int 2)] 2) (by decide) (by cbv) <|
      .above (t := called 5 2 [.scalar (.int 1), .scalar (.int 2)] 3) (by decide) (by cbv) <|
      .above (t := called 6 2 [.scalar (.int 3)] 4) (by decide) (by cbv) <|
      .above (t := called 8 3 [] 5) (by decide) (by cbv) <|
      .above (t := called 10 3 [.scalar (.int 3)] 6) (by decide) (by cbv) <|
      .above (by decide) (by cbv) (.here rfl)⟩
  have hstore : Resumes countdownProgram.image 2 (calling 23 5 [.scalar (.int 3), .null] 7)
      (calling 25 3 [.null] 8) :=
    ⟨calling 25 3 [.null] 8, by cbv, .here rfl⟩
  exact ⟨_, hcall, _, hstore, rfl⟩

theorem countdown_call_effect :
    countdown.emit = .ok countdownProgram ∧
      (∃ cause : Fault.Cause, cause.kind = .stackUnderflow ∧
        (calling 20 5 [] 0).step countdownProgram.image 2 =
          .done ⟨.fault ⟨cause, "main", 20⟩, {}, 1⟩) ∧
      Completed (calling 20 5 [.scalar (.int 2), .null] 0) (calling 25 3 [.null] 8) 1 0 := by
  have heffect (stack : List Datum) : MatchesEffect countdownProgram.image 2
      (.assign "s" (.call "next" 1)) 25 (calling 20 5 stack 0) 1 0 := by
    obtain ⟨-, pop, push, h⟩ := stack_effects_match emit_countdown (k := 0) rfl rfl (j := 10) rfl 2
      (s := calling 20 5 stack 0) rfl rfl
    obtain ⟨hpop, hpush⟩ : (1 : Int) = pop ∧ (0 : Int) = push := Prod.mk.inj h.effect
    obtain rfl : pop = 1 := by omega
    obtain rfl : push = 0 := by omega
    exact h
  exact ⟨emit_countdown, (heffect []).underflow (by decide) rfl,
    ((heffect _).completed completes_call).1⟩

end StackCode.Proofs
