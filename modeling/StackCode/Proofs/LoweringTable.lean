import StackCode.Proofs.EmissionVerifies
import StackCode.Proofs.Validity

/-!
# The lowering table

Every instruction of a body stands for a fixed sequence of operations. The code of an emitted
function is the sequence of the operations of its body, with names, constants and labels resolved.
-/

namespace StackCode.Proofs

open Emit

/-! ### The table -/

/-- What an operation is applied to. -/
inductive Operand where
  | nothing
  | var (name : Text)
  | constant (v : Value)
  | function (name : Text) (argc : Int)
  | count (n : Int)
  | label (name : Text)

/-- An opcode and what it is applied to, by name. -/
structure Operation where
  op : Opcode
  operand : Operand

/-- The operations of an instruction, in order. -/
def lowering : Instr → List Operation
  | .const v => [⟨.loadConst, .constant v⟩]
  | .load name => [⟨.loadLocal, .var name⟩]
  | .store name => [⟨.storeLocal, .var name⟩]
  | .assign name inner => lowering inner ++ [⟨.storeLocal, .var name⟩]
  | .binary .add => [⟨.add, .nothing⟩]
  | .binary .sub => [⟨.sub, .nothing⟩]
  | .binary .mul => [⟨.mul, .nothing⟩]
  | .binary .div => [⟨.div, .nothing⟩]
  | .binary .mod => [⟨.mod, .nothing⟩]
  | .binary .eq => [⟨.eq, .nothing⟩]
  | .binary .ne => [⟨.ne, .nothing⟩]
  | .binary .lt => [⟨.lt, .nothing⟩]
  | .binary .le => [⟨.le, .nothing⟩]
  | .binary .gt => [⟨.gt, .nothing⟩]
  | .binary .ge => [⟨.ge, .nothing⟩]
  | .binary .and => [⟨.and, .nothing⟩]
  | .binary .or => [⟨.or, .nothing⟩]
  | .unary .neg => [⟨.neg, .nothing⟩]
  | .unary .not => [⟨.not, .nothing⟩]
  | .call function argc => [⟨.call, .function function argc⟩]
  | .ret => [⟨.ret, .nothing⟩]
  | .jump name => [⟨.jump, .label name⟩]
  | .jumpIf name => [⟨.jumpIf, .label name⟩]
  | .newArray _ size => [⟨.newArray, .count size⟩]
  | .arrayLoad => [⟨.loadArray, .nothing⟩]
  | .arrayStore => [⟨.storeArray, .nothing⟩]
  | .newObject className => [⟨.newObject, .constant (.str className)⟩]
  | .getProp name => [⟨.loadField, .constant (.str name)⟩]
  | .setProp name => [⟨.storeField, .constant (.str name)⟩]
  | .missing | .declare _ _ | .label _ | .binary (.undefined _ _) | .unary (.undefined _ _) => []

/-- The number of bytes of the code of some instructions. -/
def codeSize (body : List Instr) : Nat := ((body.flatMap lowering).map fun o => o.op.length).sum

def Operation.constant? (o : Operation) : Option Value :=
  match o.operand with
  | .constant v => some v
  | _ => none

/-- The constants that a body refers to, in order. -/
def references (body : List Instr) : List Value :=
  (body.flatMap lowering).filterMap Operation.constant?

/-- The constants that a module refers to, in the order of its functions. -/
def moduleReferences (m : Module) : List Value :=
  (m.functions.filterMap id).flatMap fun f => references f.body

/-- The instruction carries out the operation, in a function with the given variables and a program
with the given functions and constants. Where labels stand is said by `stands`. -/
def Carries (functions vars : List Text) (constants : List Value) (stands : Text → Nat → Prop)
    (o : Operation) (i : Instruction) : Prop :=
  match o.operand with
  | .nothing => i = { op := o.op, offset := i.offset }
  | .var name => ∃ k, vars.idxOf? name = some k ∧
      i = { op := o.op, offset := i.offset, operand := k }
  | .constant v => ∃ k, constants[k]? = some v ∧
      i = { op := o.op, offset := i.offset, operand := k }
  | .function name argc => ∃ k n : Nat, functions.idxOf? name = some k ∧ argc = n ∧
      i = { op := o.op, offset := i.offset, operand := k, argc := n }
  | .count size => ∃ n : Nat, size = n ∧ i = { op := o.op, offset := i.offset, operand := n }
  | .label name => ∃ t : Nat, stands name t ∧
      i = { op := o.op, offset := i.offset, jump := t - (i.offset + 3 : Nat), target := t }

/-- The first instruction behind a label of the body starts at the offset. -/
def StartsBehind (body : List Instr) (is : List Instruction) (name : Text) (offset : Nat) : Prop :=
  ∃ front back i, body = front ++ .label name :: back ∧
    is[(front.flatMap lowering).length]? = some i ∧ i.offset = offset

/-- A routine with the name and the counts of a function, whose code lists the operations of the
body one after the other. -/
structure FollowsTable (functions : List Text) (constants : List Value) (f : Function)
    (r : Routine) : Prop where
  name : r.name = f.name
  params : r.params.toNat = f.params.length
  locals : r.locals.toNat = f.locals.length
  code : ∃ is, r.bytes.walk = (is, none) ∧
    List.Forall₂ (Carries functions (f.vars.map Var.name) constants (StartsBehind f.body is))
      (f.body.flatMap lowering) is

/-! ### Pieces and operations -/

/-- The piece of an operation. -/
def Operation.piece : Operation → Piece
  | ⟨op, .nothing⟩ => .plain op
  | ⟨op, .var name⟩ => .slot op name
  | ⟨op, .constant v⟩ => .constant op v
  | ⟨_, .function name argc⟩ => .call name argc
  | ⟨_, .count n⟩ => .newArray n
  | ⟨op, .label name⟩ => .jump op name

/-- The label that an instruction sets. -/
def marks : Instr → List Piece
  | .label name => [.label name]
  | _ => []

@[simp] lemma hasCode_piece (o : Operation) : hasCode o.piece = true := by
  obtain ⟨op, operand⟩ := o
  cases operand <;> rfl

@[simp] lemma filter_marks (i : Instr) : (marks i).filter hasCode = [] := by
  cases i <;> rfl

lemma pieces_eq_lowering {i : Instr} (h : ∀ cause, .refused cause ∉ pieces i) :
    pieces i = marks i ++ (lowering i).map Operation.piece := by
  induction i with
  | assign name inner ih =>
    rw [pieces] at h ⊢
    split_ifs at h ⊢ with hmissing hpush
    · simp at h
    · simp at h
    · have hinner := ih fun cause hc => h cause (List.mem_append_left _ hc)
      have hmarks : marks inner = [] := by
        cases inner with
        | label n => simp [Instr.stackEffect] at hpush
        | _ => rfl
      rw [hinner, hmarks]
      simp [lowering, marks, Operation.piece]
  | binary op => cases op <;> simp_all [pieces, BinOp.opcode?, lowering, marks, Operation.piece]
  | unary op => cases op <;> simp_all [pieces, UnOp.opcode?, lowering, marks, Operation.piece]
  | _ => simp_all [pieces, lowering, marks, Operation.piece]

/-- The operand of an operation of the table has the size that its opcode says. -/
lemma pieceSize_piece {i : Instr} {o : Operation} (ho : o ∈ lowering i) :
    pieceSize o.piece = o.op.length := by
  induction i with
  | assign name inner ih =>
    rw [lowering] at ho
    rcases List.mem_append.mp ho with hin | hlast
    · exact ih hin
    · rw [List.mem_singleton.mp hlast]
      rfl
  | binary op => cases op <;> simp_all [lowering] <;> rfl
  | unary op => cases op <;> simp_all [lowering] <;> rfl
  | _ => simp_all [lowering] <;> rfl

lemma op_of_lowering {i : Instr} {o : Operation} (ho : o ∈ lowering i) :
    (∀ name argc, o.operand = .function name argc → o.op = .call) ∧
      ∀ n, o.operand = .count n → o.op = .newArray := by
  induction i with
  | assign name inner ih =>
    rw [lowering] at ho
    rcases List.mem_append.mp ho with hin | hlast
    · exact ih hin
    · rw [List.mem_singleton.mp hlast]
      simp
  | binary op => cases op <;> simp_all [lowering]
  | unary op => cases op <;> simp_all [lowering]
  | _ => simp_all [lowering]

/-- The constants that pieces refer to, in order. -/
def pieceConstants (ps : List Piece) : List Value :=
  ps.filterMap fun p => match p with
    | .constant _ v => some v
    | _ => none

/-- A body of which every instruction can be lowered. -/
def Lowerable (body : List Instr) : Prop := ∀ cause, .refused cause ∉ bodyPieces body

lemma Lowerable.subset {body part : List Instr} (h : Lowerable body) (hpart : part ⊆ body) :
    Lowerable part := by
  intro cause hc
  obtain ⟨i, hi, hmem⟩ := List.mem_flatMap.mp hc
  exact h cause (List.mem_flatMap.mpr ⟨i, hpart hi, hmem⟩)

lemma bodyPieces_cons (i : Instr) (body : List Instr) :
    bodyPieces (i :: body) = pieces i ++ bodyPieces body := List.flatMap_cons

lemma bodyPieces_append (front back : List Instr) :
    bodyPieces (front ++ back) = bodyPieces front ++ bodyPieces back := List.flatMap_append

lemma Lowerable.bodyPieces_eq {body : List Instr} (h : Lowerable body) :
    bodyPieces body = body.flatMap fun i => marks i ++ (lowering i).map Operation.piece := by
  apply List.flatMap_congr
  intro i hi
  apply pieces_eq_lowering
  exact fun cause hc => h cause (List.mem_flatMap.mpr ⟨i, hi, hc⟩)

/-- The pieces with code are those of the operations of the body. -/
lemma Lowerable.filter_hasCode {body : List Instr} (h : Lowerable body) :
    (bodyPieces body).filter hasCode = (body.flatMap lowering).map Operation.piece := by
  have hall : ∀ os : List Operation, (os.map Operation.piece).filter hasCode =
      os.map Operation.piece := by
    intro os
    apply List.filter_eq_self.mpr
    simp
  rw [h.bodyPieces_eq, List.filter_flatMap, List.map_flatMap]
  simp [hall]

lemma totalSize_filter (ps : List Piece) : totalSize (ps.filter hasCode) = totalSize ps := by
  induction ps with
  | nil => rfl
  | cons p ps ih =>
    by_cases hcode : hasCode p = true
    · rw [List.filter_cons_of_pos hcode, totalSize_cons, totalSize_cons, ih]
    · have hzero : pieceSize p = 0 := by
        cases p <;> simp_all [hasCode, pieceSize]
      rw [List.filter_cons_of_neg hcode, totalSize_cons, ih, hzero, Nat.zero_add]

lemma Lowerable.totalSize_eq {body : List Instr} (h : Lowerable body) :
    totalSize (bodyPieces body) = codeSize body := by
  rw [← totalSize_filter, h.filter_hasCode, totalSize, List.map_map, codeSize]
  congr 1
  apply List.map_congr_left
  intro o ho
  obtain ⟨i, -, hi⟩ := List.mem_flatMap.mp ho
  exact pieceSize_piece hi

lemma pieceConstants_filter (ps : List Piece) :
    pieceConstants (ps.filter hasCode) = pieceConstants ps := by
  unfold pieceConstants
  rw [List.filterMap_filter]
  apply List.filterMap_congr
  intro p _
  cases p <;> rfl

lemma Lowerable.constants_eq {body : List Instr} (h : Lowerable body) :
    pieceConstants (bodyPieces body) = references body := by
  rw [← pieceConstants_filter, h.filter_hasCode, pieceConstants, List.filterMap_map, references]
  apply List.filterMap_congr
  rintro ⟨op, operand⟩ _
  cases operand <;> rfl

/-- A piece of a body belongs to one of its instructions. -/
lemma split_bodyPieces {body : List Instr} {before after : List Piece} {q : Piece}
    (h : bodyPieces body = before ++ q :: after) :
    ∃ front i back left right, body = front ++ i :: back ∧ pieces i = left ++ q :: right ∧
      before = bodyPieces front ++ left ∧ after = right ++ bodyPieces back := by
  induction body generalizing before with
  | nil => simp [bodyPieces] at h
  | cons i body ih =>
    rw [bodyPieces_cons] at h
    rcases List.append_eq_append_iff.mp h with ⟨mid, rfl, hrest⟩ | ⟨mid, hi, hrest⟩
    · obtain ⟨front, j, back, left, right, rfl, hj, rfl, rfl⟩ := ih hrest
      exact ⟨i :: front, j, back, left, right, rfl, hj, by simp [bodyPieces_cons], rfl⟩
    · cases mid with
      | nil =>
        have hbody : bodyPieces body = [] ++ q :: after := hrest.symm
        obtain ⟨front, j, back, left, right, rfl, hj, hleft, rfl⟩ := ih hbody
        obtain ⟨hfront, rfl⟩ := List.append_eq_nil_iff.mp hleft.symm
        exact ⟨i :: front, j, back, [], right, rfl, hj, by simp [bodyPieces_cons, hi, hfront], rfl⟩
      | cons r mid =>
        simp only [List.cons_append, List.cons.injEq] at hrest
        obtain ⟨rfl, rfl⟩ := hrest
        exact ⟨[], i, body, before, mid, rfl, hi, rfl, rfl⟩

lemma split_at_label {body : List Instr} {before after : List Piece} {name : Text}
    (h : bodyPieces body = before ++ .label name :: after) :
    ∃ front back, body = front ++ .label name :: back ∧ before = bodyPieces front ∧
      after = bodyPieces back := by
  obtain ⟨front, i, back, left, right, rfl, hi, rfl, rfl⟩ := split_bodyPieces h
  have hlabel : i = .label name := mem_of_label_mem_pieces (by simp [hi])
  subst hlabel
  obtain ⟨rfl, rfl⟩ : left = [] ∧ right = [] := by
    simpa [pieces, List.singleton_eq_append_iff] using hi
  exact ⟨front, back, rfl, by simp, by simp⟩

/-! ### The code of a routine -/

lemma Lowered.lowerable {s : Scope} {constants : List Value} {body : List Instr} {code : Code}
    (h : Lowered s constants (bodyPieces body) code) : Lowerable body := by
  intro cause hmem
  obtain ⟨front, back, hps⟩ := List.append_of_mem hmem
  obtain ⟨i, -, hd⟩ := h.reads ⟨front, back, hps, rfl⟩ id
  exact hd

lemma carries_of_denotes {functions vars : List Text} {constants : List Value}
    {leads : Nat → Text → Int → Prop} {stands : Text → Nat → Prop} {o : Operation} {j : Instr}
    {i : Instruction} (ho : o ∈ lowering j) (hvars : vars.Nodup)
    (hleads : ∀ name t, leads i.offset name t → ∃ n : Nat, t = n ∧ stands name n)
    (hd : Denotes ⟨functions, vars⟩ constants leads i.offset o.piece i) :
    Carries functions vars constants stands o i := by
  obtain ⟨hcall, harray⟩ := op_of_lowering ho
  obtain ⟨op, operand⟩ := o
  cases operand with
  | nothing => exact hd
  | var name =>
    obtain ⟨k, hk, hi⟩ := hd
    rw [slot?_eq_idxOf? hvars] at hk
    exact ⟨k, hk, hi⟩
  | constant v => exact hd
  | function name argc =>
    obtain ⟨k, hk, hargc, hi⟩ := hd
    refine ⟨k, argc.toNat, hk, (Int.toNat_of_nonneg hargc).symm, ?_⟩
    rw [hcall name argc rfl]
    exact hi
  | count n =>
    obtain ⟨hn, hi⟩ := hd
    refine ⟨n.toNat, (Int.toNat_of_nonneg hn).symm, ?_⟩
    rw [harray n rfl]
    exact hi
  | label name =>
    obtain ⟨t, ht, hi⟩ := hd
    obtain ⟨n, rfl, hn⟩ := hleads name t ht
    exact ⟨n, hn, hi⟩

/-- Code that is laid out as the pieces of a body lists the operations of the body. -/
lemma Lowered.carries {functions vars : List Text} {constants : List Value} {body : List Instr}
    {code : Code} (h : Lowered ⟨functions, vars⟩ constants (bodyPieces body) code)
    (hvars : vars.Nodup) :
    ∃ is, code.walk = (is, none) ∧
      List.Forall₂ (Carries functions vars constants (StartsBehind body is))
        (body.flatMap lowering) is := by
  have hlow := h.lowerable
  obtain ⟨is, hwalk, hden, hstarts⟩ := h.walks_in_order
  refine ⟨is, hwalk, ?_⟩
  -- A label is followed by the operations of the instructions behind it.
  have hleads : ∀ name t, LeadsToLabel (bodyPieces body) name t →
      ∃ n : Nat, t = n ∧ StartsBehind body is name n := by
    rintro name t ⟨n, rfl, ⟨before, after, hps, rfl⟩, hlt⟩
    have hpos : 0 < totalSize after := by
      rw [hps, totalSize_append, totalSize_cons] at hlt
      simpa [pieceSize] using hlt
    obtain ⟨i, hi, hoff⟩ := hstarts before name after hps hpos
    obtain ⟨front, back, rfl, rfl, rfl⟩ := split_at_label hps
    rw [(hlow.subset (List.subset_append_left front _)).filter_hasCode, List.length_map] at hi
    exact ⟨_, rfl, front, back, i, rfl, hi, hoff⟩
  rw [hlow.filter_hasCode, List.forall₂_map_left_iff] at hden
  have hmem : ∀ o ∈ body.flatMap lowering, ∃ j, o ∈ lowering j := by
    intro o ho
    obtain ⟨j, -, hj⟩ := List.mem_flatMap.mp ho
    exact ⟨j, hj⟩
  apply List.Forall₂.imp _ ((List.forall₂_and_left _ _).mpr ⟨hmem, hden⟩)
  rintro o i ⟨⟨j, hj⟩, -, hd⟩
  exact carries_of_denotes hj hvars hleads hd

/-! ### The constants of a program -/

lemma pieceConstants_cons (p : Piece) (ps : List Piece) :
    pieceConstants (p :: ps) = pieceConstants [p] ++ pieceConstants ps := by
  cases p <;> rfl

lemma Collected.place {used : List Value} {s : Scope} {e e' : Emitter} {p : Piece}
    (hc : Collected used e.pool) (h : e.place s p = .ok e') :
    Collected (used ++ pieceConstants [p]) e'.pool := by
  cases p with
  | constant op v =>
    rw [Emitter.place, Emitter.placeConstant] at h
    cases hi : e.pool.intern v with
    | mk found pool =>
      cases found with
      | none => simp [hi] at h
      | some k =>
        simp only [hi, Except.ok.injEq] at h
        subst h
        exact hc.intern hi
  | _ =>
    have hpool : e'.pool = e.pool := by
      rw [Emitter.place] at h
      grind
    rw [hpool]
    simpa [pieceConstants] using hc

lemma Collected.placePieces {used : List Value} {s : Scope} {e e' : Emitter} {ps : List Piece}
    (hc : Collected used e.pool) (h : ps.foldlM (Emitter.place s) e = .ok e') :
    Collected (used ++ pieceConstants ps) e'.pool := by
  induction ps generalizing used e with
  | nil =>
    cases h
    simpa [pieceConstants] using hc
  | cons p ps ih =>
    rw [List.foldlM_cons] at h
    obtain ⟨e₁, he₁, hrest⟩ := bind_eq_ok_iff.mp h
    rw [pieceConstants_cons, ← List.append_assoc]
    exact ih (hc.place he₁) hrest

/-- Patching a jump changes bytes of the code and nothing else. -/
lemma patch_keeps {size : Nat} {e e' : Emitter} {jump : Nat × Text}
    (h : e.patch size jump = .ok e') :
    e'.pool = e.pool ∧ e'.labels = e.labels ∧ e'.code.size = e.code.size := by
  unfold Emitter.patch at h
  cases hl : e.labels.lookup jump.2 with
  | none => simp [hl] at h
  | some target =>
    simp only [hl] at h
    split_ifs at h
    cases hcode : e.code.patchJump jump.1 target with
    | error cause => simp [hcode] at h
    | ok code =>
      simp only [hcode, Except.ok.injEq] at h
      subst h
      exact ⟨rfl, rfl, size_of_patchJump hcode⟩

lemma pool_patchAll {size : Nat} {e e' : Emitter} {jumps : List (Nat × Text)}
    (h : jumps.foldlM (Emitter.patch size) e = .ok e') : e'.pool = e.pool := by
  induction jumps generalizing e with
  | nil =>
    cases h
    rfl
  | cons jump jumps ih =>
    rw [List.foldlM_cons] at h
    obtain ⟨e₁, he₁, hrest⟩ := bind_eq_ok_iff.mp h
    rw [ih hrest, (patch_keeps he₁).1]

lemma Collected.emitBody {used : List Value} {e e' : Emitter} {f : Function}
    (hc : Collected used e.pool) (h : e.emitBody f = .ok e') :
    Collected (used ++ pieceConstants (bodyPieces f.body)) e'.pool := by
  obtain ⟨-, e₁, he₁, hpatch⟩ := emitBody_eq_ok_iff.mp h
  rw [pool_patchAll hpatch]
  exact Collected.placePieces (e := opened e f) hc he₁

/-- A function adds the constants that it refers to. Its routine has the counts of the function. -/
lemma Collected.emitFunction {used : List Value} {e e' : Emitter} {f : Function} {r : Routine}
    (hfuns : e.scope.functions.length ≤ 256) (hc : Collected used e.pool)
    (h : e.emitFunction f = .ok (r, e')) :
    Collected (used ++ references f.body) e'.pool ∧ r.params.toNat = f.params.length ∧
      r.locals.toNat = f.locals.length := by
  obtain ⟨e₁, hb, rfl, rfl⟩ := emitFunction_eq_ok_iff.mp h
  obtain ⟨hle, -⟩ := emitBody_eq_ok_iff.mp hb
  obtain ⟨-, -, -, hlow⟩ := emitBody_ok hfuns hc.valid hb
  refine ⟨?_, ?_, ?_⟩
  · have hbody := hc.emitBody hb
    rwa [hlow.lowerable.constants_eq] at hbody
  · rw [UInt16.toNat_ofNat']
    omega
  · rw [UInt16.toNat_ofNat']
    omega

lemma Collected.emitFunctions {used : List Value} {done rs : List Routine} {e e' : Emitter}
    {fs : List Function} (hfuns : e.scope.functions.length ≤ 256) (hc : Collected used e.pool)
    (h : e.emitFunctions done fs = .ok (rs, e')) :
    Collected (used ++ fs.flatMap fun f => references f.body) e'.pool ∧
      ∃ new, rs = done.reverse ++ new ∧
        List.Forall₂ (fun f r => r.params.toNat = f.params.length ∧
          r.locals.toNat = f.locals.length) fs new := by
  induction fs generalizing done used e with
  | nil =>
    rw [Emitter.emitFunctions] at h
    cases h
    exact ⟨by simpa using hc, [], by simp, .nil⟩
  | cons f fs ih =>
    rw [Emitter.emitFunctions] at h
    obtain ⟨⟨r, e₁⟩, he₁, hrest⟩ := bind_eq_ok_iff.mp h
    obtain ⟨hc₁, hcounts⟩ := hc.emitFunction hfuns he₁
    rw [← emitFunction_keeps he₁] at hfuns
    obtain ⟨hc₂, new, rfl, hnew⟩ := ih hfuns hc₁ hrest
    refine ⟨?_, r :: new, by simp, .cons hcounts hnew⟩
    rw [List.flatMap_cons, ← List.append_assoc]
    exact hc₂

/-! ### The whole program -/

lemma EmittedRoutine.followsTable {functions : List Text} {constants : List Value} {f : Function}
    {r : Routine} (h : EmittedRoutine functions constants f r)
    (hvars : (f.vars.map Var.name).Nodup)
    (hcounts : r.params.toNat = f.params.length ∧ r.locals.toNat = f.locals.length) :
    FollowsTable functions constants f r where
  name := h.name
  params := hcounts.1
  locals := hcounts.2
  code := h.lowered.carries hvars

/-- The program of a module whose functions name each variable once: a routine for every function,
in order, with the operations of its body; the constants that the module refers to, each where it
is used first; and the exports. -/
theorem emitted_program_follows_table {m : Module} {p : Program}
    (hvars : ∀ f, some f ∈ m.functions → (f.vars.map Var.name).Nodup) (h : m.emit = .ok p) :
    ∃ fs, m.functions = fs.map some ∧
      List.Forall₂ (FollowsTable (fs.map Function.name) p.constants) fs p.functions ∧
      p.constants = (moduleReferences m).eraseDups ∧ p.symbols = m.exports := by
  obtain ⟨fs, routines, e, hreg, hfs, rfl⟩ := emit_eq_ok_iff.mp h
  obtain ⟨hslots, hcount, -⟩ := registered_eq_ok_iff.mp hreg
  have hfuns : (fs.map Function.name).length ≤ 256 := by rwa [List.length_map]
  obtain ⟨-, -, new, hnew, hemitted⟩ := emitFunctions_ok hfuns poolValid_empty hfs
  obtain ⟨hc, new', hnew', hcounts⟩ := collected_empty.emitFunctions hfuns hfs
  rw [List.reverse_nil, List.nil_append] at hnew hnew'
  subst hnew
  subst hnew'
  refine ⟨fs, hslots, ?_, ?_, rfl⟩
  · have hnodup : ∀ f ∈ fs, (f.vars.map Var.name).Nodup := by
      intro f hf
      exact hvars f (by rw [hslots]; exact List.mem_map_of_mem hf)
    have hboth := (List.forall₂_and_left _ _).mpr ⟨hnodup, hcounts⟩
    apply List.Forall₂.mp _ hboth hemitted
    exact fun f r hf hr => hr.followsTable hf.1 hf.2
  · rw [moduleReferences, hslots, hc.values]
    simp

/-- A loop, an assignment of a call and a constant that two functions share. -/
theorem countdown_follows_table :
    countdown.emit = .ok countdownProgram ∧
      (∀ f, some f ∈ countdown.functions → (f.vars.map Var.name).Nodup) ∧
      (∃ fs, countdown.functions = fs.map some ∧
        List.Forall₂ (FollowsTable ["main", "next"] countdownProgram.constants) fs
          countdownProgram.functions) ∧
      (moduleReferences countdown).eraseDups = [.int 2, .int 3, .int 0, .int 1] := by
  have hvars : ∀ f, some f ∈ countdown.functions → (f.vars.map Var.name).Nodup := by
    simp only [countdown, List.mem_cons, Option.some.injEq, List.not_mem_nil, or_false]
    rintro f (rfl | rfl)
    all_goals decide
  obtain ⟨fs, hfs, hroutines, hconstants, -⟩ := emitted_program_follows_table hvars emit_countdown
  have hnames : fs.map Function.name = ["main", "next"] := by
    rw [← slotNames_map_some, ← hfs]
    decide
  rw [hnames] at hroutines
  exact ⟨emit_countdown, hvars, ⟨fs, hfs, hroutines⟩, hconstants.symm⟩

end StackCode.Proofs
