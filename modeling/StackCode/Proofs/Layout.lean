import StackCode.Emit.Basic
import StackCode.Proofs.CodeReading
import StackCode.Proofs.ConstantPool
import StackCode.Proofs.Fallible

/-!
# Where pieces stand

The pieces of a function stand one after the other, so the sizes of the pieces before one give its
offset. Emission keeps that layout: at the offset of every piece the code reads as the instruction
that the piece denotes, and a label marks the offset of what follows it.
-/

namespace StackCode.Proofs

open Emit

/-! ### Sizes and offsets -/

/-- The number of bytes of a piece. -/
def pieceSize : Piece → Nat
  | .plain _ => 1
  | .slot _ _ | .newArray _ => 2
  | .constant _ _ | .call _ _ | .jump _ _ => 3
  | .label _ | .refused _ => 0

/-- The number of bytes of pieces. -/
def totalSize (ps : List Piece) : Nat := (ps.map pieceSize).sum

@[simp] lemma totalSize_nil : totalSize [] = 0 := rfl

@[simp] lemma totalSize_cons (p : Piece) (ps : List Piece) :
    totalSize (p :: ps) = pieceSize p + totalSize ps := by
  simp [totalSize]

@[simp] lemma totalSize_append (ps qs : List Piece) :
    totalSize (ps ++ qs) = totalSize ps + totalSize qs := by
  simp [totalSize]

/-- A piece stands at an offset. -/
def At (ps : List Piece) (offset : Nat) (p : Piece) : Prop :=
  ∃ front back, ps = front ++ p :: back ∧ offset = totalSize front

lemma At.mem {ps : List Piece} {offset : Nat} {p : Piece} (h : At ps offset p) : p ∈ ps := by
  obtain ⟨front, back, rfl, -⟩ := h
  simp

lemma At.append {ps : List Piece} {offset : Nat} {p : Piece} (h : At ps offset p)
    (qs : List Piece) : At (ps ++ qs) offset p := by
  obtain ⟨front, back, rfl, rfl⟩ := h
  exact ⟨front, back ++ qs, by simp, rfl⟩

lemma At.end_le {ps : List Piece} {offset : Nat} {p : Piece} (h : At ps offset p) :
    offset + pieceSize p ≤ totalSize ps := by
  obtain ⟨front, back, rfl, rfl⟩ := h
  simp only [totalSize_append, totalSize_cons]
  omega

lemma at_append_singleton {ps : List Piece} {offset : Nat} {p q : Piece} :
    At (ps ++ [q]) offset p ↔ At ps offset p ∨ (offset = totalSize ps ∧ p = q) := by
  constructor
  · rintro ⟨front, back, he, rfl⟩
    rcases List.eq_nil_or_concat back with rfl | ⟨back, r, rfl⟩
    · obtain ⟨rfl, hq⟩ := List.append_inj' he rfl
      simp only [List.cons.injEq, and_true] at hq
      exact .inr ⟨rfl, hq.symm⟩
    · have he' : ps ++ [q] = (front ++ p :: back) ++ [r] := by simpa using he
      obtain ⟨rfl, -⟩ := List.append_inj' he' rfl
      exact .inl ⟨front, back, rfl, rfl⟩
  · rintro (h | ⟨rfl, rfl⟩)
    · exact h.append [q]
    · exact ⟨ps, [], rfl, rfl⟩

/-- Two pieces with code are the same or do not overlap. -/
lemma At.same_or_apart {ps : List Piece} {offset offset' : Nat} {p p' : Piece}
    (h : At ps offset p) (h' : At ps offset' p') :
    (offset = offset' ∧ p = p') ∨ offset + pieceSize p ≤ offset' ∨
      offset' + pieceSize p' ≤ offset := by
  obtain ⟨front, back, rfl, rfl⟩ := h
  obtain ⟨front', back', he, rfl⟩ := h'
  rcases List.append_eq_append_iff.mp he with ⟨mid, rfl, hmid⟩ | ⟨mid, rfl, hmid⟩
  · cases mid with
    | nil =>
      simp only [List.nil_append, List.cons.injEq] at hmid
      exact .inl ⟨by simp, hmid.1⟩
    | cons q mid =>
      simp only [List.cons_append, List.cons.injEq] at hmid
      obtain ⟨rfl, -⟩ := hmid
      refine .inr (.inl ?_)
      simp only [totalSize_append, totalSize_cons]
      omega
  · cases mid with
    | nil =>
      simp only [List.nil_append, List.cons.injEq] at hmid
      exact .inl ⟨by simp, hmid.1.symm⟩
    | cons q mid =>
      simp only [List.cons_append, List.cons.injEq] at hmid
      obtain ⟨rfl, -⟩ := hmid
      refine .inr (.inr ?_)
      simp only [totalSize_append, totalSize_cons]
      omega

/-! ### What a piece denotes -/

/-- The opcode of a piece takes the operands that the piece writes. -/
def Fits : Piece → Prop
  | .plain op => op.operandLength = 0
  | .slot op _ => op = .loadLocal ∨ op = .storeLocal
  | .constant op _ => op.usesConstant
  | .jump op _ => op.isJump
  | _ => True

lemma fits_of_mem_pieces {i : Instr} {p : Piece} (h : p ∈ pieces i) : Fits p := by
  induction i with
  | assign name inner ih =>
    rw [pieces] at h
    split_ifs at h
    · simp only [List.mem_singleton] at h
      subst h
      trivial
    · simp only [List.mem_singleton] at h
      subst h
      trivial
    · rcases List.mem_append.mp h with hin | hlast
      · exact ih hin
      · simp only [List.mem_singleton] at hlast
        subst hlast
        exact .inr rfl
  | binary op => cases op <;> simp_all [pieces, BinOp.opcode?, Fits, Opcode.operandLength]
  | unary op => cases op <;> simp_all [pieces, UnOp.opcode?, Fits, Opcode.operandLength]
  | _ => simp_all [pieces, Fits, Opcode.operandLength, Opcode.usesConstant, Opcode.isJump]

def IsLabel : Piece → Prop
  | .label _ => True
  | _ => False

/-- Whether a piece has code. -/
def hasCode : Piece → Bool
  | .label _ => false
  | _ => true

lemma hasCode_iff {p : Piece} : hasCode p = true ↔ ¬IsLabel p := by
  cases p <;> simp [hasCode, IsLabel]

lemma pieces_of_pushes {i : Instr} (hpush : i.stackEffect.2 = 1) :
    ∃ q, pieces i = [q] ∧ ¬IsLabel q := by
  cases i with
  | binary op => cases op <;> exact ⟨_, rfl, id⟩
  | unary op => cases op <;> exact ⟨_, rfl, id⟩
  | const _ | load _ | call _ _ | newArray _ _ | arrayLoad | newObject _ | getProp _ =>
    exact ⟨_, rfl, id⟩
  | _ => simp [Instr.stackEffect] at hpush

lemma mem_of_label_mem_pieces {name : Text} {i : Instr} (h : .label name ∈ pieces i) :
    i = .label name := by
  induction i with
  | label n =>
    simp only [pieces, List.mem_singleton, Piece.label.injEq] at h
    rw [h]
  | assign n inner ih =>
    rw [pieces] at h
    split_ifs at h with hmissing hpush
    · simp at h
    · simp at h
    · obtain ⟨q, hq, hlabel⟩ := pieces_of_pushes (not_ne_iff.mp hpush)
      rw [hq] at h
      simp only [List.cons_append, List.nil_append, List.mem_cons, List.not_mem_nil, or_false,
        reduceCtorEq] at h
      exact absurd (h ▸ trivial) hlabel
  | binary op => cases op <;> simp [pieces, BinOp.opcode?] at h
  | unary op => cases op <;> simp [pieces, UnOp.opcode?] at h
  | _ => simp [pieces] at h

/-- The instruction that a piece at an offset stands for, in a function with the given names and a
program with the given constants. Where jumps lead is said by `leads`. -/
def Denotes (s : Scope) (constants : List Value) (leads : Nat → Text → Int → Prop) (offset : Nat) :
    Piece → Instruction → Prop
  | .plain op, i => i = { op, offset }
  | .slot op name, i => ∃ k, s.slot? name = some k ∧ i = { op, offset, operand := k }
  | .constant op v, i => ∃ k, constants[k]? = some v ∧ i = { op, offset, operand := k }
  | .call function argc, i =>
    ∃ k, s.functions.idxOf? function = some k ∧ 0 ≤ argc ∧
      i = { op := .call, offset, operand := k, argc := argc.toNat }
  | .newArray size, i => 0 ≤ size ∧ i = { op := .newArray, offset, operand := size.toNat }
  | .jump op name, i =>
    ∃ t, leads offset name t ∧ i = { op, offset, jump := t - (offset + 3 : Nat), target := t }
  | .label _, _ | .refused _, _ => False

lemma Denotes.mono {s : Scope} {constants constants' : List Value}
    {leads leads' : Nat → Text → Int → Prop} {offset : Nat} {p : Piece} {i : Instruction}
    (h : Denotes s constants leads offset p i) (hc : constants <+: constants')
    (hl : ∀ name t, leads offset name t → leads' offset name t) :
    Denotes s constants' leads' offset p i := by
  cases p with
  | constant op v =>
    obtain ⟨k, hk, rfl⟩ := h
    refine ⟨k, ?_, rfl⟩
    obtain ⟨more, rfl⟩ := hc
    rw [List.getElem?_append_left (List.getElem?_eq_some_iff.mp hk).1]
    exact hk
  | jump op name =>
    obtain ⟨t, ht, rfl⟩ := h
    exact ⟨t, hl name t ht, rfl⟩
  | _ => exact h

lemma Denotes.length_eq {s : Scope} {constants : List Value} {leads : Nat → Text → Int → Prop}
    {offset : Nat} {p : Piece} {i : Instruction} (h : Denotes s constants leads offset p i)
    (hf : Fits p) : i.length = pieceSize p := by
  cases p with
  | plain op =>
    subst h
    simp only [Fits] at hf
    simp [Instruction.length, Opcode.length, hf, pieceSize]
  | slot op name =>
    obtain ⟨k, -, rfl⟩ := h
    rcases hf with rfl | rfl <;> rfl
  | constant op v =>
    obtain ⟨k, -, rfl⟩ := h
    cases op <;> simp_all [Fits, Opcode.usesConstant, Instruction.length, Opcode.length,
      Opcode.operandLength, pieceSize]
  | call function argc =>
    obtain ⟨k, -, -, rfl⟩ := h
    rfl
  | newArray size =>
    obtain ⟨-, rfl⟩ := h
    rfl
  | jump op name =>
    obtain ⟨t, -, rfl⟩ := h
    cases op <;> simp_all [Fits, Opcode.isJump, Instruction.length, Opcode.length,
      Opcode.operandLength, pieceSize]
  | label name => cases h
  | refused cause => cases h

/-! ### Placing pieces -/

/-- A label of that name marks where the jump leads, and code follows it. -/
def LeadsToLabel (ps : List Piece) (name : Text) (t : Int) : Prop :=
  ∃ n : Nat, t = n ∧ At ps n (.label name) ∧ n < totalSize ps

lemma LeadsToLabel.append {ps : List Piece} {name : Text} {t : Int} (h : LeadsToLabel ps name t)
    (qs : List Piece) : LeadsToLabel (ps ++ qs) name t := by
  obtain ⟨n, ht, hat, hlt⟩ := h
  refine ⟨n, ht, hat.append qs, ?_⟩
  rw [totalSize_append]
  omega

/-- An emitter that has placed the pieces of a function. The jumps in `todo` may lead anywhere, all
others lead to their labels. -/
structure Placed (s : Scope) (ps : List Piece) (todo : List (Nat × Text)) (e : Emitter) : Prop where
  size : e.code.size = totalSize ps
  reads : ∀ {offset p}, At ps offset p → ¬IsLabel p →
    ∃ i, e.code.decodeAt offset = .ok i ∧ Denotes s e.pool.values.toList
      (fun o name t => (o + 1, name) ∈ todo ∨ LeadsToLabel ps name t) offset p i
  labels : ∀ {name offset}, e.labels.lookup name = some offset ↔ At ps offset (.label name)
  jumps : ∀ {placeholder name}, (placeholder, name) ∈ todo →
    ∃ offset op, placeholder = offset + 1 ∧ At ps offset (.jump op name)
  fits : ∀ p ∈ ps, Fits p
  pool : PoolValid e.pool

lemma placed_nil (s : Scope) {e : Emitter} (h : PoolValid e.pool) (hcode : e.code = #[])
    (hlabels : e.labels = []) : Placed s [] [] e where
  size := by rw [hcode]; rfl
  reads := by
    rintro offset p ⟨front, back, he, -⟩
    simp at he
  labels := by
    intro name offset
    rw [hlabels]
    constructor
    · intro h
      cases h
    · rintro ⟨front, back, he, -⟩
      simp at he
  jumps := by simp
  fits := by simp
  pool := h

/-- Placing a piece with code: the new instruction stands at the end. -/
lemma Placed.extend {s : Scope} {ps : List Piece} {todo todo' : List (Nat × Text)}
    {e e' : Emitter} {p : Piece} {i : Instruction} {bytes : Array UInt8}
    (h : Placed s ps todo e) (hcode : e'.code = e.code ++ bytes) (hsize : bytes.size = pieceSize p)
    (hnot : ¬IsLabel p) (hfits : Fits p) (hlabels : e'.labels = e.labels)
    (htodo : ∀ j ∈ todo, j ∈ todo')
    (hjumps : ∀ j ∈ todo', j ∈ todo ∨
      ∃ op, j.1 = totalSize ps + 1 ∧ p = .jump op j.2)
    (hpool : PoolValid e'.pool) (hgrow : e.pool.values.toList <+: e'.pool.values.toList)
    (hread : e'.code.decodeAt e.code.size = .ok i)
    (hden : Denotes s e'.pool.values.toList (fun o name _ => (o + 1, name) ∈ todo') e.code.size p i) :
    Placed s (ps ++ [p]) todo' e' where
  size := by rw [hcode, Array.size_append, h.size, hsize, totalSize_append]; simp
  reads := by
    intro offset q hat hq
    rcases at_append_singleton.mp hat with hold | ⟨rfl, rfl⟩
    · obtain ⟨j, hj, hd⟩ := h.reads hold hq
      refine ⟨j, by rw [hcode]; exact decodeAt_append bytes hj, hd.mono hgrow ?_⟩
      rintro name t (hm | hl)
      · exact .inl (htodo _ hm)
      · exact .inr (hl.append [p])
    · rw [← h.size]
      exact ⟨i, hread, hden.mono (List.prefix_refl _) fun name t hm => .inl hm⟩
  labels := by
    intro name offset
    rw [hlabels, h.labels, at_append_singleton]
    constructor
    · exact .inl
    · rintro (hold | ⟨-, rfl⟩)
      · exact hold
      · exact absurd trivial hnot
  jumps := by
    intro placeholder name hm
    rcases hjumps _ hm with hold | ⟨op, hph, rfl⟩
    · obtain ⟨offset, op, rfl, hat⟩ := h.jumps hold
      exact ⟨offset, op, rfl, hat.append [p]⟩
    · exact ⟨totalSize ps, op, hph, at_append_singleton.mpr (.inr ⟨rfl, rfl⟩)⟩
  fits := by
    intro q hq
    rcases List.mem_append.mp hq with hold | hnew
    · exact h.fits q hold
    · rw [List.mem_singleton.mp hnew]
      exact hfits
  pool := hpool

/-- Placing a piece that is neither a jump nor a constant: only the code changes. -/
lemma Placed.extend_code {s : Scope} {ps : List Piece} {todo : List (Nat × Text)} {e : Emitter}
    {p : Piece} {i : Instruction} {code : Code} {bytes : Array UInt8} (h : Placed s ps todo e)
    (hcode : code = e.code ++ bytes) (hsize : bytes.size = pieceSize p) (hnot : ¬IsLabel p)
    (hfits : Fits p) (hread : code.decodeAt e.code.size = .ok i)
    (hden : Denotes s e.pool.values.toList (fun o name _ => (o + 1, name) ∈ todo) e.code.size p i) :
    Placed s (ps ++ [p]) todo { e with code := code } :=
  h.extend hcode hsize hnot hfits rfl (fun _ hj => hj) (fun _ hj => .inl hj) h.pool
    (List.prefix_refl _) hread hden

/-- Placing a label: it marks the end of the code so far. -/
lemma Placed.extend_label {s : Scope} {ps : List Piece} {todo : List (Nat × Text)} {e : Emitter}
    {name : Text} (h : Placed s ps todo e) (hnew : e.labels.lookup name = none) :
    Placed s (ps ++ [.label name]) todo
      { e with labels := (name, e.code.size) :: e.labels } where
  size := by simp [h.size, pieceSize]
  reads := by
    intro offset q hat hq
    rcases at_append_singleton.mp hat with hold | ⟨-, rfl⟩
    · obtain ⟨j, hj, hd⟩ := h.reads hold hq
      refine ⟨j, hj, hd.mono (List.prefix_refl _) ?_⟩
      rintro nm t (hm | hl)
      · exact .inl hm
      · exact .inr (hl.append _)
    · exact absurd trivial hq
  labels := by
    intro nm offset
    rw [at_append_singleton, ← h.labels, List.lookup_cons]
    by_cases hn : nm = name
    · subst hn
      simp [hnew, h.size, eq_comm]
    · have hne : (nm == name) = false := by simpa using hn
      simp [hne, hn]
  jumps := by
    intro placeholder nm hm
    obtain ⟨offset, op, rfl, hat⟩ := h.jumps hm
    exact ⟨offset, op, rfl, hat.append _⟩
  fits := by
    intro q hq
    rcases List.mem_append.mp hq with hold | hlast
    · exact h.fits q hold
    · rw [List.mem_singleton.mp hlast]
      trivial
  pool := h.pool

lemma slot_lt {s : Scope} {name : Text} {k : Nat} (h : s.slot? name = some k) :
    k < s.vars.length := by
  unfold Scope.slot? at h
  obtain ⟨j, hj, rfl⟩ := Option.map_eq_some_iff.mp h
  obtain ⟨hlt, -⟩ := List.idxOf?_eq_some_iff.mp hj
  rw [List.length_reverse] at hlt
  omega

lemma getElem_of_slot {s : Scope} {name : Text} {k : Nat} (h : s.slot? name = some k) :
    s.vars[k]? = some name := by
  unfold Scope.slot? at h
  obtain ⟨j, hj, rfl⟩ := Option.map_eq_some_iff.mp h
  obtain ⟨hlt, hget, -⟩ := List.idxOf?_eq_some_iff.mp hj
  rw [List.length_reverse] at hlt
  rw [List.getElem_reverse] at hget
  rw [List.getElem?_eq_getElem (by omega)]
  exact congrArg some hget

lemma slot?_eq_none_iff {s : Scope} {name : Text} : s.slot? name = none ↔ name ∉ s.vars := by
  rw [Scope.slot?, Option.map_eq_none_iff, List.idxOf?_eq_none_iff, List.mem_reverse]

lemma slot?_eq_idxOf? {s : Scope} (h : s.vars.Nodup) (a : Text) :
    s.slot? a = s.vars.idxOf? a := by
  cases hk : s.slot? a with
  | none => rw [List.idxOf?_eq_none_iff.mpr (slot?_eq_none_iff.mp hk)]
  | some k =>
    have hget := getElem_of_slot hk
    cases hi : s.vars.idxOf? a with
    | none => exact absurd (List.mem_of_getElem? hget) (List.idxOf?_eq_none_iff.mp hi)
    | some i =>
      obtain ⟨hlt, hgeti, -⟩ := List.idxOf?_eq_some_iff.mp hi
      have hgeti' : s.vars[i]? = some a := by rw [List.getElem?_eq_getElem hlt, hgeti]
      rw [(List.getElem?_inj hlt h).mp (hgeti'.trans hget.symm)]

lemma toNat_of_byteOperand? {n : Int} {b : UInt8} (h : byteOperand? n = some b) :
    0 ≤ n ∧ b.toNat = n.toNat := by
  unfold byteOperand? at h
  split_ifs at h with hr
  simp only [Option.some.injEq] at h
  subst h
  refine ⟨hr.1, ?_⟩
  unfold UInt8.ofInt
  rw [UInt8.toNat_ofNat']
  omega

/-- One step of placement. -/
lemma Placed.place {s : Scope} {ps : List Piece} {e e' : Emitter} {p : Piece}
    (h : Placed s ps e.pending e) (hfits : Fits p) (hvars : s.vars.length ≤ 256)
    (hfuns : s.functions.length ≤ 256) (hp : e.place s p = .ok e') :
    Placed s (ps ++ [p]) e'.pending e' ∧ e.pool.values.toList <+: e'.pool.values.toList := by
  cases p with
  | plain op =>
    cases hp
    exact ⟨h.extend_code (emit_eq _ op.byte) rfl id hfits (decodeAt_emit e.code hfits) rfl,
      List.prefix_refl _⟩
  | slot op name =>
    rw [Emitter.place] at hp
    cases hk : s.slot? name with
    | none => simp [hk] at hp
    | some k =>
      simp only [hk, Except.ok.injEq] at hp
      subst hp
      have hlt := slot_lt hk
      have hnat : (UInt8.ofNat k).toNat = k := by
        rw [UInt8.toNat_ofNat']
        omega
      have hlen : op.operandLength = 1 := by rcases hfits with rfl | rfl <;> rfl
      exact ⟨h.extend_code (emitByte_eq _ op.byte _) rfl id hfits
        (decodeAt_emitByte e.code _ hlen) ⟨k, hk, by rw [hnat]⟩, List.prefix_refl _⟩
  | constant op v =>
    rw [Emitter.place, Emitter.placeConstant] at hp
    cases hi : e.pool.intern v with
    | mk found pool =>
      cases found with
      | none => simp [hi] at hp
      | some k =>
        simp only [hi, Except.ok.injEq] at hp
        subst hp
        obtain ⟨hpool, hk, hgrow⟩ := h.pool.intern hi
        exact ⟨h.extend (emitWord_eq _ op.byte _) rfl id hfits rfl (fun _ hj => hj)
          (fun _ hj => .inl hj) hpool hgrow (decodeAt_emitWord e.code _ hfits)
          ⟨k.toNat, by rw [Array.getElem?_toList]; exact hk, rfl⟩, hgrow⟩
  | call function argc =>
    rw [Emitter.place] at hp
    cases hk : s.functions.idxOf? function with
    | none => simp [hk] at hp
    | some k =>
      cases hn : byteOperand? argc with
      | none => simp [hk, hn] at hp
      | some n =>
        simp only [hk, hn, Except.ok.injEq] at hp
        subst hp
        obtain ⟨hlt, -⟩ := List.idxOf?_eq_some_iff.mp hk
        have hnat : (UInt8.ofNat k).toNat = k := by
          rw [UInt8.toNat_ofNat']
          omega
        obtain ⟨hnonneg, hargc⟩ := toNat_of_byteOperand? hn
        exact ⟨h.extend_code (emitCall_eq _ _ _) rfl id hfits
          (decodeAt_emitCall e.code _ _) ⟨k, hk, hnonneg, by rw [hnat, hargc]⟩, List.prefix_refl _⟩
  | newArray size =>
    rw [Emitter.place] at hp
    cases hn : byteOperand? size with
    | none => simp [hn] at hp
    | some n =>
      simp only [hn, Except.ok.injEq] at hp
      subst hp
      obtain ⟨hnonneg, hsize⟩ := toNat_of_byteOperand? hn
      exact ⟨h.extend_code (emitByte_eq _ _ _) rfl id hfits
        (decodeAt_emitByte e.code _ rfl) ⟨hnonneg, by rw [hsize]⟩, List.prefix_refl _⟩
  | jump op name =>
    cases hp
    obtain ⟨t, ht⟩ := decodeAt_emitJump e.code hfits
    refine ⟨h.extend (emitJump_eq _ op.byte) rfl id hfits rfl
      (fun _ hj => List.mem_cons_of_mem _ hj) ?_ h.pool (List.prefix_refl _) ht
      ⟨t, List.mem_cons_self, rfl⟩, List.prefix_refl _⟩
    intro j hj
    rcases List.mem_cons.mp hj with rfl | hold
    · exact .inr ⟨op, by rw [h.size], rfl⟩
    · exact .inl hold
  | label name =>
    rw [Emitter.place] at hp
    cases hl : e.labels.lookup name with
    | some offset => simp [hl] at hp
    | none =>
      simp only [hl, Except.ok.injEq] at hp
      subst hp
      exact ⟨h.extend_label hl, List.prefix_refl _⟩
  | refused cause => cases hp

/-- The emitter that a step leaves, whether it stops there or not. -/
def emitterLeft : Emitter.Step → Emitter
  | .ok e => e
  | .error x => x.2

/-- Two emitters work on the same function. -/
structure SameFunction (e e' : Emitter) : Prop where
  scope : e'.scope = e.scope
  function : e'.function = e.function

lemma SameFunction.bind {e : Emitter} {x : Emitter.Step} {next : Emitter → Emitter.Step}
    (hx : SameFunction e (emitterLeft x)) (hnext : ∀ e', SameFunction e' (emitterLeft (next e'))) :
    SameFunction e (emitterLeft (x >>= next)) := by
  cases x with
  | error x => exact hx
  | ok e' =>
    have h := hnext e'
    exact ⟨h.scope.trans hx.scope, h.function.trans hx.function⟩

lemma foldlM_same {α : Type} {step : Emitter → α → Emitter.Step}
    (hstep : ∀ e a, SameFunction e (emitterLeft (step e a))) (e : Emitter) (as : List α) :
    SameFunction e (emitterLeft (as.foldlM step e)) := by
  induction as generalizing e with
  | nil => exact ⟨rfl, rfl⟩
  | cons a as ih =>
    rw [List.foldlM_cons]
    exact (hstep e a).bind ih

lemma place_same (s : Scope) (e : Emitter) (p : Piece) :
    SameFunction e (emitterLeft (e.place s p)) := by
  cases p <;> simp only [Emitter.place, Emitter.placeConstant]
  all_goals repeat' split
  all_goals exact ⟨rfl, rfl⟩

lemma patch_same (size : Nat) (e : Emitter) (jump : Nat × Text) :
    SameFunction e (emitterLeft (e.patch size jump)) := by
  unfold Emitter.patch
  repeat' split
  all_goals exact ⟨rfl, rfl⟩

/-- The names stand for the same all along the function. -/
lemma placePieces_eq (e : Emitter) (ps : List Piece) :
    ps.foldlM (fun e p => e.place e.scope p) e = ps.foldlM (Emitter.place e.scope) e := by
  induction ps generalizing e with
  | nil => rfl
  | cons p ps ih =>
    rw [List.foldlM_cons, List.foldlM_cons]
    have hsame := (place_same e.scope e p).scope
    cases hp : e.place e.scope p with
    | error x => rfl
    | ok e' =>
      rw [hp, emitterLeft] at hsame
      have hrest := ih e'
      rw [hsame] at hrest
      exact hrest

lemma placeAll_eq (e : Emitter) (body : List Instr) :
    e.placeAll body = (body.flatMap pieces).foldlM (Emitter.place e.scope) e := by
  rw [← placePieces_eq]
  unfold Emitter.placeAll
  induction body generalizing e with
  | nil => rfl
  | cons i body ih =>
    simp only [List.foldlM_cons, List.flatMap_cons, List.foldlM_append, ih]

/-- A whole body is placed piece by piece. -/
lemma Placed.placePieces {s : Scope} {ps qs : List Piece} {e e' : Emitter}
    (h : Placed s ps e.pending e) (hfits : ∀ q ∈ qs, Fits q) (hvars : s.vars.length ≤ 256)
    (hfuns : s.functions.length ≤ 256) (hp : qs.foldlM (Emitter.place s) e = .ok e') :
    Placed s (ps ++ qs) e'.pending e' ∧ e.pool.values.toList <+: e'.pool.values.toList := by
  induction qs generalizing ps e with
  | nil =>
    cases hp
    rw [List.append_nil]
    exact ⟨h, List.prefix_refl _⟩
  | cons q qs ih =>
    rw [List.foldlM_cons] at hp
    obtain ⟨e₁, he₁, hrest⟩ := bind_eq_ok_iff.mp hp
    obtain ⟨h₁, hgrow₁⟩ := h.place (hfits q (by simp)) hvars hfuns he₁
    obtain ⟨h₂, hgrow₂⟩ := ih h₁ (fun r hr => hfits r (by simp [hr])) hrest
    rw [List.append_assoc] at h₂
    exact ⟨h₂, hgrow₁.trans hgrow₂⟩

/-! ### Patching jumps -/

lemma Placed.congr_todo {s : Scope} {ps : List Piece} {todo todo' : List (Nat × Text)}
    {e : Emitter} (h : Placed s ps todo e) (ht : ∀ j, j ∈ todo ↔ j ∈ todo') :
    Placed s ps todo' e where
  size := h.size
  reads := by
    intro offset p hat hp
    obtain ⟨i, hi, hd⟩ := h.reads hat hp
    exact ⟨i, hi, hd.mono (List.prefix_refl _) fun name t hl => hl.imp (ht _).mp id⟩
  labels := h.labels
  jumps := fun hm => h.jumps ((ht _).mpr hm)
  fits := h.fits
  pool := h.pool

/-- One step of patching: the jump leads to its label, every other instruction stays. -/
lemma Placed.patch {s : Scope} {ps : List Piece} {jump : Nat × Text} {todo : List (Nat × Text)}
    {e e' : Emitter} (h : Placed s ps (jump :: todo) e)
    (hp : e.patch (totalSize ps) jump = .ok e') : Placed s ps todo e' ∧ e'.pool = e.pool := by
  obtain ⟨placeholder, name⟩ := jump
  unfold Emitter.patch at hp
  cases hl : e.labels.lookup name with
  | none => simp [hl] at hp
  | some target =>
    simp only [hl] at hp
    split_ifs at hp with hend
    cases hc : e.code.patchJump placeholder target with
    | error cause => simp [hc] at hp
    | ok code =>
      simp only [hc, Except.ok.injEq] at hp
      subst hp
      refine ⟨?_, rfl⟩
      obtain ⟨offset, op, rfl, hat⟩ := h.jumps List.mem_cons_self
      have htarget : At ps target (.label name) := h.labels.mp hl
      have hlead : LeadsToLabel ps name target :=
        ⟨target, rfl, htarget, by have hle := htarget.end_le; omega⟩
      refine ⟨by rw [← h.size]; exact size_of_patchJump hc, ?_, h.labels,
        fun hm => h.jumps (List.mem_cons_of_mem _ hm), h.fits, h.pool⟩
      intro o p hato hnot
      obtain ⟨i, hi, hd⟩ := h.reads hato hnot
      have hlen := hd.length_eq (h.fits p hato.mem)
      have hpos := instruction_length_pos i
      rcases hato.same_or_apart hat with ⟨rfl, rfl⟩ | hapart
      · have hjump : i.op.isJump := by
          obtain ⟨t, -, rfl⟩ := hd
          exact h.fits _ hato.mem
        refine ⟨_, decodeAt_patchJump_self hc hi hjump, target, .inr hlead, ?_⟩
        obtain ⟨t, -, rfl⟩ := hd
        rfl
      · have hthree : pieceSize (.jump op name) = 3 := rfl
        rw [hthree] at hapart
        refine ⟨i, decodeAt_patchJump_other hc hi (by omega), hd.mono (List.prefix_refl _) ?_⟩
        rintro nm t (hm | hlead')
        · rcases List.mem_cons.mp hm with he | hm'
          · simp only [Prod.mk.injEq] at he
            omega
          · exact .inl hm'
        · exact .inr hlead'

lemma Placed.patchAll {s : Scope} {ps : List Piece} {todo : List (Nat × Text)} {e e' : Emitter}
    (h : Placed s ps todo e) (hp : todo.foldlM (Emitter.patch (totalSize ps)) e = .ok e') :
    Placed s ps [] e' ∧ e'.pool = e.pool := by
  induction todo generalizing e with
  | nil =>
    cases hp
    exact ⟨h, rfl⟩
  | cons jump todo ih =>
    rw [List.foldlM_cons] at hp
    obtain ⟨e₁, he₁, hrest⟩ := bind_eq_ok_iff.mp hp
    obtain ⟨h₁, hpool₁⟩ := h.patch he₁
    obtain ⟨h₂, hpool₂⟩ := ih h₁ hrest
    exact ⟨h₂, hpool₂.trans hpool₁⟩

end StackCode.Proofs
