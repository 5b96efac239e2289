import StackCode.Proofs.LoweringTable

/-!
# Which modules have a program

Emission succeeds exactly for the modules that keep its limits. Most limits concern one instruction;
how far a jump leads depends on all code in between, and the constants are counted over the whole
module.
-/

namespace StackCode.Proofs

open Emit

/-! ### The limits -/

/-- An instruction that can be emitted in a function with the given variables, in a module with the
given functions. -/
def Emittable (functions vars : List Text) : Instr → Prop
  | .missing => False
  | .load name | .store name => name ∈ vars
  | .assign name inner => name ∈ vars ∧ Emittable functions vars inner ∧ inner.stackEffect.2 = 1
  | .binary op => op ∈ BinOp.all
  | .unary op => op = .neg ∨ op = .not
  | .call function argc => function ∈ functions ∧ 0 ≤ argc ∧ argc ≤ 255
  | .newArray _ size => 0 ≤ size ∧ size ≤ 255
  | .const _ | .declare _ _ | .ret | .jump _ | .jumpIf _ | .label _ | .arrayLoad | .arrayStore
  | .newObject _ | .getProp _ | .setProp _ => True

/-- A jump behind the instructions in `front` can lead to the label: code follows it, and the
distance from the end of the jump has sixteen bits. -/
def InReach (body front : List Instr) (label : Text) : Prop :=
  ∃ before after, body = before ++ .label label :: after ∧ 0 < codeSize after ∧
    -32768 ≤ (codeSize before : Int) - (codeSize front + 3) ∧
    (codeSize before : Int) - (codeSize front + 3) ≤ 32767

/-- A function that can be emitted in a module with the given functions. -/
structure EmittableFunction (functions : List Text) (f : Function) : Prop where
  slots_le : f.params.length + f.locals.length ≤ 256
  body : ∀ i ∈ f.body, Emittable functions (f.vars.map Var.name) i
  labels_nodup : f.labels.Nodup
  jumps : ∀ front i back label, f.body = front ++ i :: back → i = .jump label ∨ i = .jumpIf label →
    InReach f.body front label

/-- A module that can be emitted. -/
structure EmittableModule (m : Module) : Prop where
  functions_le : m.functions.length ≤ 256
  filled : none ∉ m.functions
  names_nodup : (slotNames m.functions).Nodup
  exports : ∀ name ∈ m.exports, name ∈ slotNames m.functions
  function : ∀ f, some f ∈ m.functions → EmittableFunction (slotNames m.functions) f
  constants_le : (moduleReferences m).eraseDups.length ≤ 65536

/-! ### Instructions -/

/-- A piece whose names and operands can be resolved. -/
def Resolves (s : Scope) : Piece → Prop
  | .slot _ name => name ∈ s.vars
  | .call function argc => function ∈ s.functions ∧ 0 ≤ argc ∧ argc ≤ 255
  | .newArray size => 0 ≤ size ∧ size ≤ 255
  | .refused _ => False
  | .plain _ | .constant _ _ | .jump _ _ | .label _ => True

lemma emittable_iff_resolves {s : Scope} {i : Instr} :
    Emittable s.functions s.vars i ↔ ∀ p ∈ pieces i, Resolves s p := by
  induction i with
  | assign name inner ih =>
    rw [pieces, Emittable]
    by_cases hmissing : inner = .missing
    · simp [hmissing, Emittable, Resolves]
    by_cases hpush : inner.stackEffect.2 = 1
    · rw [if_neg hmissing, if_neg (not_ne_iff.mpr hpush), List.forall_mem_append, ih]
      simp [hpush, Resolves, and_comm]
    · rw [if_neg hmissing, if_pos hpush]
      simp [hpush, Resolves]
  | binary op => cases op <;> simp [pieces, BinOp.opcode?, BinOp.all, Emittable, Resolves]
  | unary op => cases op <;> simp [pieces, UnOp.opcode?, Emittable, Resolves]
  | _ => simp [pieces, Emittable, Resolves]

lemma lowerable_of_resolves {s : Scope} {body : List Instr}
    (h : ∀ p ∈ bodyPieces body, Resolves s p) : Lowerable body :=
  fun cause hc => h (.refused cause) hc

lemma byteOperand?_eq_some_iff {n : Int} : (∃ b, byteOperand? n = some b) ↔ 0 ≤ n ∧ n ≤ 255 := by
  unfold byteOperand?
  split_ifs with h
  · simp only [Option.some.injEq, exists_eq', true_iff]
    omega
  · simp only [exists_false, false_iff]
    omega

/-! ### Placing pieces -/

/-- The labels that pieces set, in order. -/
def pieceLabels (ps : List Piece) : List Text :=
  ps.filterMap fun p => match p with
    | .label name => some name
    | _ => none

lemma mem_pieceLabels {ps : List Piece} {name : Text} :
    name ∈ pieceLabels ps ↔ .label name ∈ ps := by
  unfold pieceLabels
  rw [List.mem_filterMap]
  constructor
  · rintro ⟨p, hp, hname⟩
    cases p <;> simp_all
  · exact fun h => ⟨.label name, h, rfl⟩

lemma pieceLabels_append (ps qs : List Piece) :
    pieceLabels (ps ++ qs) = pieceLabels ps ++ pieceLabels qs := List.filterMap_append

lemma nodup_pieceLabels_concat {ps : List Piece} (h : (pieceLabels ps).Nodup) (q : Piece) :
    (pieceLabels (ps ++ [q])).Nodup ↔ ∀ name ∈ pieceLabels [q], name ∉ pieceLabels ps := by
  have hsingle : (pieceLabels [q]).Nodup := by
    cases q <;> simp [pieceLabels]
  rw [pieceLabels_append, List.nodup_append]
  constructor
  · exact fun hboth name hname hmem => hboth.2.2 name hmem name hname rfl
  · exact fun hfresh => ⟨h, hsingle, fun a ha b hb hab => hfresh b hb (hab ▸ ha)⟩

lemma Placed.lookup_eq_none_iff {s : Scope} {ps : List Piece} {todo : List (Nat × Text)}
    {e : Emitter} (h : Placed s ps todo e) (name : Text) :
    e.labels.lookup name = none ↔ name ∉ pieceLabels ps := by
  rw [mem_pieceLabels]
  constructor
  · intro hnone hmem
    obtain ⟨front, back, hps⟩ := List.append_of_mem hmem
    have hsome := h.labels.mpr ⟨front, back, hps, rfl⟩
    rw [hnone] at hsome
    cases hsome
  · intro hmem
    apply Option.eq_none_iff_forall_ne_some.mpr
    exact fun offset hoffset => hmem (h.labels.mp hoffset).mem

/-- A piece can be placed exactly if it resolves, sets no label again and leaves room for its
constant. -/
lemma Placed.exists_place_iff {s : Scope} {ps : List Piece} {used : List Value} {e : Emitter}
    {p : Piece} (h : Placed s ps e.pending e) (hc : Collected used e.pool) :
    (∃ e', e.place s p = .ok e') ↔
      Resolves s p ∧ (∀ name ∈ pieceLabels [p], name ∉ pieceLabels ps) ∧
      (used ++ pieceConstants [p]).eraseDups.length ≤ Pool.capacity := by
  have hroom := hc.length_le
  cases p with
  | constant op v =>
    have hintern := hc.exists_intern_iff (v := v)
    have hone : pieceConstants [.constant op v] = [v] := rfl
    simp only [Resolves, pieceLabels, hone, ← hintern, Emitter.place, Emitter.placeConstant]
    cases hi : e.pool.intern v with
    | mk found pool => cases found <;> simp
  | slot op name =>
    rw [Emitter.place]
    cases hk : s.slot? name with
    | none => simp [Resolves, slot?_eq_none_iff.mp hk]
    | some k =>
      have hmem : name ∈ s.vars := List.mem_of_getElem? (getElem_of_slot hk)
      simp [Resolves, hmem, pieceLabels, pieceConstants, hroom]
  | call function argc =>
    rw [Emitter.place]
    cases hk : s.functions.idxOf? function with
    | none => simp [Resolves, List.idxOf?_eq_none_iff.mp hk]
    | some k =>
      have hmem : function ∈ s.functions := by
        by_contra hnot
        rw [List.idxOf?_eq_none_iff.mpr hnot] at hk
        cases hk
      have hbyte := byteOperand?_eq_some_iff (n := argc)
      cases hn : byteOperand? argc <;>
        simp_all [Resolves, pieceLabels, pieceConstants]
  | newArray size =>
    rw [Emitter.place]
    have hbyte := byteOperand?_eq_some_iff (n := size)
    cases hn : byteOperand? size <;>
      simp_all [Resolves, pieceLabels, pieceConstants]
  | label name =>
    rw [Emitter.place]
    have hnone := h.lookup_eq_none_iff name
    cases hl : e.labels.lookup name <;>
      simp_all [Resolves, pieceLabels, pieceConstants]
  | plain op => simp [Emitter.place, Resolves, pieceLabels, pieceConstants, hroom]
  | jump op name => simp [Emitter.place, Resolves, pieceLabels, pieceConstants, hroom]
  | refused cause => simp [Emitter.place, Resolves]

/-- Pieces can be placed exactly if each of them resolves, no label is set twice and there is room
for all constants. -/
lemma Placed.exists_placePieces_iff {s : Scope} {ps qs : List Piece} {used : List Value}
    {e : Emitter} (h : Placed s ps e.pending e) (hc : Collected used e.pool)
    (hfits : ∀ q ∈ qs, Fits q) (hvars : s.vars.length ≤ 256) (hfuns : s.functions.length ≤ 256)
    (hlabels : (pieceLabels ps).Nodup) :
    (∃ e', qs.foldlM (Emitter.place s) e = .ok e') ↔ (∀ q ∈ qs, Resolves s q) ∧
      (pieceLabels (ps ++ qs)).Nodup ∧
      (used ++ pieceConstants qs).eraseDups.length ≤ Pool.capacity := by
  induction qs generalizing ps used e with
  | nil => simp [hlabels, pieceConstants, hc.length_le, pure, Except.pure]
  | cons q qs ih =>
    have hone := h.exists_place_iff hc (p := q)
    have hnodup := nodup_pieceLabels_concat hlabels q
    -- What is left to place starts from where the first piece has led.
    have hrest : ∀ e₁, e.place s q = .ok e₁ → ((∃ e', qs.foldlM (Emitter.place s) e₁ = .ok e') ↔
        (∀ r ∈ qs, Resolves s r) ∧ (pieceLabels (ps ++ q :: qs)).Nodup ∧
          (used ++ pieceConstants (q :: qs)).eraseDups.length ≤ Pool.capacity) := by
      intro e₁ he₁
      have hplaced := (h.place (hfits q (by simp)) hvars hfuns he₁).1
      have hfresh := (hone.mp ⟨e₁, he₁⟩).2.1
      have hstep := ih hplaced (hc.place he₁) (fun r hr => hfits r (by simp [hr]))
        (hnodup.mpr hfresh)
      rwa [List.append_assoc, List.append_assoc, ← pieceConstants_cons] at hstep
    rw [List.foldlM_cons, List.forall_mem_cons]
    constructor
    · rintro ⟨e', he'⟩
      obtain ⟨e₁, he₁, hqs⟩ := bind_eq_ok_iff.mp he'
      obtain ⟨hresolves, hlabels', hroom⟩ := (hrest e₁ he₁).mp ⟨e', hqs⟩
      exact ⟨⟨(hone.mp ⟨e₁, he₁⟩).1, hresolves⟩, hlabels', hroom⟩
    · rintro ⟨⟨hq, hqs⟩, hlabels', hroom⟩
      have hfresh : (pieceLabels (ps ++ [q])).Nodup := by
        rw [List.append_cons, pieceLabels_append] at hlabels'
        exact hlabels'.of_append_left
      have hfirst : (used ++ pieceConstants [q]).eraseDups.length ≤ Pool.capacity := by
        rw [pieceConstants_cons, ← List.append_assoc] at hroom
        exact le_trans (length_eraseDups_append_le _ _) hroom
      obtain ⟨e₁, he₁⟩ := hone.mpr ⟨hq, hnodup.mp hfresh, hfirst⟩
      obtain ⟨e', he'⟩ := (hrest e₁ he₁).mpr ⟨hqs, hlabels', hroom⟩
      exact ⟨e', bind_eq_ok_iff.mpr ⟨e₁, he₁, he'⟩⟩

/-! ### Patching jumps -/

/-- A jump whose placeholder is there, to a label that code follows and that is near enough. -/
def Patchable (size : Nat) (e : Emitter) (jump : Nat × Text) : Prop :=
  ∃ target, e.labels.lookup jump.2 = some target ∧ target ≠ size ∧
    -32768 ≤ (target : Int) - (jump.1 + 2 : Nat) ∧ (target : Int) - (jump.1 + 2 : Nat) ≤ 32767 ∧
    jump.1 + 2 ≤ e.code.size

lemma Patchable.exists_patch {size : Nat} {e : Emitter} {jump : Nat × Text}
    (h : Patchable size e jump) : ∃ e', e.patch size jump = .ok e' := by
  obtain ⟨target, hlookup, hend, hlow, hhigh, hroom⟩ := h
  unfold Emitter.patch
  rw [hlookup]
  simp only [if_neg hend]
  rw [patchJump_eq_ok_iff.mpr ⟨⟨hlow, hhigh⟩, hroom, rfl⟩]
  exact ⟨_, rfl⟩

lemma exists_patchAll {size : Nat} {e : Emitter} {jumps : List (Nat × Text)}
    (h : ∀ jump ∈ jumps, Patchable size e jump) :
    ∃ e', jumps.foldlM (Emitter.patch size) e = .ok e' := by
  induction jumps generalizing e with
  | nil => exact ⟨e, rfl⟩
  | cons jump jumps ih =>
    obtain ⟨e₁, he₁⟩ := (h jump (by simp)).exists_patch
    obtain ⟨-, hlabels, hsize⟩ := patch_keeps he₁
    have hlater : ∀ later ∈ jumps, Patchable size e₁ later := by
      intro later hmem
      obtain ⟨target, htarget⟩ := h later (by simp [hmem])
      exact ⟨target, by rwa [hlabels, hsize]⟩
    obtain ⟨e', he'⟩ := ih hlater
    exact ⟨e', by rw [List.foldlM_cons]; exact bind_eq_ok_iff.mpr ⟨e₁, he₁, he'⟩⟩

/-! ### Functions -/

lemma eq_jump_of_mem_pieces {op : Opcode} {name : Text} {i : Instr} (h : .jump op name ∈ pieces i) :
    pieces i = [.jump op name] ∧ (i = .jump name ∨ i = .jumpIf name) := by
  cases i with
  | assign n inner =>
    rw [pieces] at h
    split_ifs at h with hmissing hpush
    · simp at h
    · simp at h
    · obtain ⟨q, hq, -⟩ := pieces_of_pushes (not_ne_iff.mp hpush)
      rw [hq] at h
      simp only [List.cons_append, List.nil_append, List.mem_cons, List.not_mem_nil, or_false,
        reduceCtorEq] at h
      subst h
      cases inner with
      | binary op => cases op <;> simp [pieces, BinOp.opcode?] at hq
      | unary op => cases op <;> simp [pieces, UnOp.opcode?] at hq
      | assign _ _ => simp [Instr.stackEffect] at hpush
      | _ => simp_all [pieces, Instr.stackEffect]
  | binary op => cases op <;> simp [pieces, BinOp.opcode?] at h
  | unary op => cases op <;> simp [pieces, UnOp.opcode?] at h
  | _ => simp_all [pieces]

lemma split_at_jump {body : List Instr} {before after : List Piece} {op : Opcode} {name : Text}
    (h : bodyPieces body = before ++ .jump op name :: after) :
    ∃ front i back, body = front ++ i :: back ∧ (i = .jump name ∨ i = .jumpIf name) ∧
      before = bodyPieces front := by
  obtain ⟨front, i, back, left, right, rfl, hi, rfl, -⟩ := split_bodyPieces h
  obtain ⟨hone, hjump⟩ := eq_jump_of_mem_pieces (show .jump op name ∈ pieces i by simp [hi])
  obtain ⟨rfl, -⟩ : left = [] ∧ right = [] := by
    simpa [hone, List.singleton_eq_append_iff] using hi
  exact ⟨front, i, back, rfl, hjump, by simp⟩

lemma pieceLabels_pieces (i : Instr) : pieceLabels (pieces i) = labelsOf [i] := by
  cases i with
  | assign name inner =>
    rw [pieces]
    split_ifs with hmissing hpush
    · rfl
    · rfl
    · obtain ⟨q, hq, hlabel⟩ := pieces_of_pushes (not_ne_iff.mp hpush)
      rw [hq]
      cases q with
      | label n => exact absurd trivial hlabel
      | _ => rfl
  | binary op => cases op <;> rfl
  | unary op => cases op <;> rfl
  | _ => rfl

lemma pieceLabels_bodyPieces (body : List Instr) :
    pieceLabels (bodyPieces body) = labelsOf body := by
  induction body with
  | nil => rfl
  | cons i body ih =>
    rw [bodyPieces_cons, pieceLabels_append, pieceLabels_pieces, ih, ← labelsOf_cons]

lemma body_emittable_iff {s : Scope} {body : List Instr} :
    (∀ i ∈ body, Emittable s.functions s.vars i) ↔ ∀ p ∈ bodyPieces body, Resolves s p := by
  simp only [emittable_iff_resolves, bodyPieces, List.mem_flatMap]
  grind

/-- In emitted code every jump was in reach of its label. -/
lemma Lowered.inReach {s : Scope} {constants : List Value} {body : List Instr} {code : Code}
    (h : Lowered s constants (bodyPieces body) code) {front back : List Instr} {i : Instr}
    {label : Text} (hbody : body = front ++ i :: back) (hi : i = .jump label ∨ i = .jumpIf label) :
    InReach body front label := by
  have hlow := h.lowerable
  obtain ⟨op, hop⟩ : ∃ op, pieces i = [.jump op label] := by
    rcases hi with rfl | rfl
    · exact ⟨_, rfl⟩
    · exact ⟨_, rfl⟩
  have hps : bodyPieces body = bodyPieces front ++ .jump op label :: bodyPieces back := by
    rw [hbody, bodyPieces_append, bodyPieces_cons, hop]
    rfl
  obtain ⟨x, hx, t, ⟨n, rfl, ⟨before, after, hsplit, rfl⟩, hlt⟩, rfl⟩ :=
    h.reads ⟨_, _, hps, rfl⟩ id
  have hbounds := jump_bounds_of_decodeAt hx
  have hpos : 0 < totalSize after := by
    rw [hsplit, totalSize_append, totalSize_cons] at hlt
    simpa [pieceSize] using hlt
  obtain ⟨start, rest, hstart, rfl, rfl⟩ := split_at_label hsplit
  have hsize : ∀ part, part ⊆ body → totalSize (bodyPieces part) = codeSize part :=
    fun part hpart => (hlow.subset hpart).totalSize_eq
  rw [hsize start (by simp [hstart]), hsize front (by simp [hbody])] at hbounds
  rw [hsize rest (by simp [hstart])] at hpos
  exact ⟨start, rest, hstart, hpos, by push_cast at hbounds; omega, by push_cast at hbounds; omega⟩

/-- A jump that waits in an emitter is one of the body. -/
lemma Placed.split_at_waiting {s : Scope} {body : List Instr} {todo : List (Nat × Text)}
    {e : Emitter} (h : Placed s (bodyPieces body) todo e) {jump : Nat × Text} (hmem : jump ∈ todo) :
    ∃ front i back, body = front ++ i :: back ∧ (i = .jump jump.2 ∨ i = .jumpIf jump.2) ∧
      jump.1 = totalSize (bodyPieces front) + 1 ∧ jump.1 + 2 ≤ e.code.size := by
  obtain ⟨placeholder, name⟩ := jump
  obtain ⟨offset, op, rfl, hat⟩ := h.jumps hmem
  have hend := hat.end_le
  have hthree : pieceSize (.jump op name) = 3 := rfl
  obtain ⟨before, after, hsplit, rfl⟩ := hat
  obtain ⟨front, i, back, hbody, hi, rfl⟩ := split_at_jump hsplit
  refine ⟨front, i, back, hbody, hi, rfl, ?_⟩
  rw [h.size]
  omega

/-- A jump that waits in an emitter can be patched if it is in reach of its label. -/
lemma Placed.patchable {s : Scope} {body : List Instr} {todo : List (Nat × Text)} {e : Emitter}
    (h : Placed s (bodyPieces body) todo e) (hlow : Lowerable body) {jump : Nat × Text}
    (hmem : jump ∈ todo) (hreach : ∀ front i back, body = front ++ i :: back →
      i = .jump jump.2 ∨ i = .jumpIf jump.2 → InReach body front jump.2) :
    Patchable e.code.size e jump := by
  obtain ⟨front, i, back, hbody, hi, hplaceholder, hroom⟩ := h.split_at_waiting hmem
  obtain ⟨start, rest, hstart, hpos, hlo, hhi⟩ := hreach front i back hbody hi
  have hsize : ∀ part, part ⊆ body → totalSize (bodyPieces part) = codeSize part :=
    fun part hpart => (hlow.subset hpart).totalSize_eq
  have hfront := hsize front (by simp [hbody])
  have hrest := hsize rest (by simp [hstart])
  have hps : bodyPieces body = bodyPieces start ++ .label jump.2 :: bodyPieces rest := by
    rw [hstart, bodyPieces_append, bodyPieces_cons]
    rfl
  have htotal : e.code.size = totalSize (bodyPieces start) + totalSize (bodyPieces rest) := by
    rw [h.size, hps, totalSize_append, totalSize_cons]
    simp [pieceSize]
  refine ⟨totalSize (bodyPieces start), h.labels.mpr ⟨_, _, hps, rfl⟩, by omega, ?_⟩
  rw [hsize start (by simp [hstart])]
  push_cast
  omega

/-- The pieces of a body can be placed exactly if its instructions can be emitted, no label is set
twice and there is room for the constants. -/
lemma exists_placeBody_iff {used : List Value} {e : Emitter} {f : Function}
    (hc : Collected used e.pool) (hvars : (scopeOf e.scope.functions f).vars.length ≤ 256)
    (hfuns : e.scope.functions.length ≤ 256) :
    (∃ e', (bodyPieces f.body).foldlM (Emitter.place (scopeOf e.scope.functions f)) (opened e f) =
      .ok e') ↔
      (∀ i ∈ f.body, Emittable e.scope.functions (f.vars.map Var.name) i) ∧
      (labelsOf f.body).Nodup ∧
      (used ++ references f.body).eraseDups.length ≤ Pool.capacity := by
  have hopened : Placed (scopeOf e.scope.functions f) [] (opened e f).pending (opened e f) :=
    placed_opened f hc.valid
  have hcollected : Collected used (opened e f).pool := hc
  have hplace := hopened.exists_placePieces_iff hcollected
    (fun q (hq : q ∈ bodyPieces f.body) => fits_of_mem_bodyPieces hq) hvars hfuns List.nodup_nil
  rw [List.nil_append, pieceLabels_bodyPieces, ← body_emittable_iff] at hplace
  rw [hplace]
  refine and_congr_right fun hbody => ?_
  rw [(lowerable_of_resolves (body_emittable_iff.mp hbody)).constants_eq]

/-- A function can be emitted exactly if it keeps the limits and there is room for its constants. -/
lemma exists_emitBody_iff {used : List Value} {e : Emitter} {f : Function}
    (hfuns : e.scope.functions.length ≤ 256) (hc : Collected used e.pool) :
    (∃ e', e.emitBody f = .ok e') ↔ EmittableFunction e.scope.functions f ∧
      (used ++ references f.body).eraseDups.length ≤ Pool.capacity := by
  have hscope (hle : f.params.length + f.locals.length ≤ 256) :
      (scopeOf e.scope.functions f).vars.length ≤ 256 := by
    simpa [scopeOf, Function.vars] using hle
  constructor
  · rintro ⟨e', he'⟩
    obtain ⟨hle, e₁, he₁, -⟩ := emitBody_eq_ok_iff.mp he'
    obtain ⟨-, -, -, hlow⟩ := emitBody_ok hfuns hc.valid he'
    obtain ⟨hbody, hlabels, hroom⟩ := (exists_placeBody_iff hc (hscope hle) hfuns).mp ⟨e₁, he₁⟩
    exact ⟨⟨hle, hbody, hlabels, fun front i back label => hlow.inReach⟩, hroom⟩
  · rintro ⟨hf, hroom⟩
    have hvars := hscope hf.slots_le
    obtain ⟨e₁, he₁⟩ := (exists_placeBody_iff hc hvars hfuns).mpr ⟨hf.body, hf.labels_nodup, hroom⟩
    have hplaced := ((placed_opened f hc.valid).placePieces
      (fun q hq => fits_of_mem_bodyPieces hq) hvars hfuns he₁).1
    rw [List.nil_append] at hplaced
    have hlow := lowerable_of_resolves
      ((body_emittable_iff (s := scopeOf e.scope.functions f)).mp hf.body)
    have hpatch : ∀ jump ∈ e₁.pending.reverse, Patchable e₁.code.size e₁ jump := fun jump hj =>
      hplaced.patchable hlow (List.mem_reverse.mp hj) fun front i back => hf.jumps front i back _
    obtain ⟨e', he'⟩ := exists_patchAll hpatch
    exact ⟨e', emitBody_eq_ok_iff.mpr ⟨hf.slots_le, e₁, he₁, he'⟩⟩

/-! ### Modules -/

lemma exists_emitFunctions_iff {used : List Value} {done : List Routine} {e : Emitter}
    {fs : List Function} (hfuns : e.scope.functions.length ≤ 256) (hc : Collected used e.pool) :
    (∃ result, e.emitFunctions done fs = .ok result) ↔
      (∀ f ∈ fs, EmittableFunction e.scope.functions f) ∧
      (used ++ fs.flatMap fun f => references f.body).eraseDups.length ≤ Pool.capacity := by
  induction fs generalizing used done e with
  | nil => simp [Emitter.emitFunctions, hc.length_le]
  | cons f fs ih =>
    rw [Emitter.emitFunctions, List.forall_mem_cons, List.flatMap_cons, ← List.append_assoc]
    have hone := exists_emitBody_iff hfuns hc (f := f)
    constructor
    · rintro ⟨result, h⟩
      obtain ⟨⟨r, e₁⟩, he₁, hrest⟩ := bind_eq_ok_iff.mp h
      have hnames := emitFunction_keeps he₁
      obtain ⟨hfs, hroom⟩ :=
        (ih (hnames ▸ hfuns) (hc.emitFunction hfuns he₁).1).mp ⟨result, hrest⟩
      obtain ⟨e₂, hbody, -⟩ := emitFunction_eq_ok_iff.mp he₁
      exact ⟨⟨(hone.mp ⟨e₂, hbody⟩).1, hnames ▸ hfs⟩, hroom⟩
    · rintro ⟨⟨hf, hfs⟩, hroom⟩
      obtain ⟨e₂, hbody⟩ := hone.mpr ⟨hf, le_trans (length_eraseDups_append_le _ _) hroom⟩
      have he₁ := emitFunction_eq_ok_iff.mpr ⟨e₂, hbody, rfl, rfl⟩
      have hnames := emitFunction_keeps he₁
      obtain ⟨result, hrest⟩ :=
        (ih (hnames ▸ hfuns) (hc.emitFunction hfuns he₁).1).mpr ⟨hnames ▸ hfs, hroom⟩
      exact ⟨result, bind_eq_ok_iff.mpr ⟨_, he₁, hrest⟩⟩

lemma emittableModule_iff {m : Module} : EmittableModule m ↔
    ∃ fs, Emitter.registered m = .ok fs ∧
      (∀ f ∈ fs, EmittableFunction (fs.map Function.name) f) ∧
      (fs.flatMap fun f => references f.body).eraseDups.length ≤ Pool.capacity := by
  simp only [registered_eq_ok_iff]
  constructor
  · intro h
    obtain ⟨fs, hfs⟩ := exists_functions_of_filled h.filled
    have hnames : slotNames m.functions = fs.map Function.name := by rw [hfs, slotNames_map_some]
    obtain ⟨hcount, -, hnodup, hexports, hfunction, hconstants⟩ := h
    rw [hnames] at hnodup hexports hfunction
    refine ⟨fs, ⟨hfs, by simpa [hfs] using hcount, hnodup, hexports⟩, ?_, ?_⟩
    · exact fun f hf => hfunction f (by rw [hfs]; exact List.mem_map_of_mem hf)
    · simpa [moduleReferences, hfs, Pool.capacity] using hconstants
  · rintro ⟨fs, ⟨hfs, hcount, hnodup, hexports⟩, hfunction, hconstants⟩
    have hnames : slotNames m.functions = fs.map Function.name := by rw [hfs, slotNames_map_some]
    rw [← hnames] at hnodup hexports hfunction
    refine ⟨by simpa [hfs] using hcount, by simp [hfs], hnodup, hexports, ?_, ?_⟩
    · intro f hf
      rw [hfs] at hf
      exact hfunction f (by simpa using hf)
    · simpa [moduleReferences, hfs, Pool.capacity] using hconstants

lemma exists_emit_iff {m : Module} : (∃ p, m.emit = .ok p) ↔ EmittableModule m := by
  have hlimits : ∀ fs, Emitter.registered m = .ok fs →
      ((∃ result, (emitterOf fs).emitFunctions [] fs = .ok result) ↔
        (∀ f ∈ fs, EmittableFunction (fs.map Function.name) f) ∧
          (fs.flatMap fun f => references f.body).eraseDups.length ≤ Pool.capacity) := by
    intro fs hreg
    have hfuns := (registered_eq_ok_iff.mp hreg).2.1
    rw [← List.length_map Function.name] at hfuns
    exact exists_emitFunctions_iff (e := emitterOf fs) hfuns collected_empty
  rw [emittableModule_iff]
  simp only [emit_eq_ok_iff]
  constructor
  · rintro ⟨p, fs, routines, e, hreg, hfs, -⟩
    exact ⟨fs, hreg, (hlimits fs hreg).mp ⟨_, hfs⟩⟩
  · rintro ⟨fs, hreg, hfs⟩
    obtain ⟨⟨routines, e⟩, hresult⟩ := (hlimits fs hreg).mpr hfs
    exact ⟨_, fs, routines, e, hreg, hresult, rfl⟩

/-! ### Failures -/

/-- A cause that can be reported. A jump without its placeholder could not: there would be no place
to write its distance. -/
def Reported (cause : Cause) : Prop := ∀ label, cause ≠ .jumpTooFar label .noPlaceholder

lemma reported_of_mem_pieces {cause : Cause} {i : Instr} (h : .refused cause ∈ pieces i) :
    Reported cause := by
  induction i with
  | assign name inner ih =>
    rw [pieces] at h
    split_ifs at h
    · simp_all [Reported]
    · simp_all [Reported]
    · exact ih (by simpa using h)
  | binary op => cases op <;> simp_all [pieces, BinOp.opcode?, Reported]
  | unary op => cases op <;> simp_all [pieces, UnOp.opcode?, Reported]
  | _ => simp_all [pieces, Reported]

lemma reported_of_place {s : Scope} {e : Emitter} {p : Piece} {x : Cause × Emitter} {i : Instr}
    (hp : p ∈ pieces i) (h : e.place s p = .error x) : Reported x.1 := by
  cases p with
  | refused cause =>
    cases h
    exact reported_of_mem_pieces hp
  | constant op v =>
    rw [Emitter.place, Emitter.placeConstant] at h
    split at h
    · cases h
    · cases h
      simp [Reported]
  | _ =>
    rw [Emitter.place] at h
    grind [Reported]

lemma reported_of_patch {size : Nat} {e : Emitter} {jump : Nat × Text} {x : Cause × Emitter}
    (hroom : jump.1 + 2 ≤ e.code.size) (h : e.patch size jump = .error x) : Reported x.1 := by
  unfold Emitter.patch at h
  cases hl : e.labels.lookup jump.2 with
  | none =>
    simp only [hl, Except.error.injEq] at h
    simp [← h, Reported]
  | some target =>
    simp only [hl] at h
    split_ifs at h
    · cases h
      simp [Reported]
    · cases hc : e.code.patchJump jump.1 target with
      | ok code => simp [hc] at h
      | error cause =>
        simp only [hc, Except.error.injEq] at h
        have hcause : cause ≠ .noPlaceholder := by
          rintro rfl
          unfold Code.patchJump at hc
          grind
        simpa [← h, Reported] using hcause

lemma reported_of_patchAll {size : Nat} {e : Emitter} {jumps : List (Nat × Text)}
    {x : Cause × Emitter} (hroom : ∀ jump ∈ jumps, jump.1 + 2 ≤ e.code.size)
    (h : jumps.foldlM (Emitter.patch size) e = .error x) : Reported x.1 := by
  induction jumps generalizing e with
  | nil => cases h
  | cons jump jumps ih =>
    rw [List.foldlM_cons] at h
    rcases bind_eq_error_iff.mp h with hjump | ⟨e₁, he₁, hrest⟩
    · exact reported_of_patch (hroom jump (by simp)) hjump
    · refine ih (fun later hmem => ?_) hrest
      rw [(patch_keeps he₁).2.2]
      exact hroom later (by simp [hmem])

lemma reported_of_emitBody {e : Emitter} {f : Function} {x : Cause × Emitter}
    (hfuns : e.scope.functions.length ≤ 256) (hpool : PoolValid e.pool)
    (h : e.emitBody f = .error x) : Reported x.1 := by
  unfold Emitter.emitBody at h
  simp only at h
  split_ifs at h with hmany
  · cases h
    simp [Reported]
  · rw [placeAll_eq] at h
    rcases bind_eq_error_iff.mp h with hplace | ⟨e₁, he₁, hpatch⟩
    · obtain ⟨p, hp, t, ht⟩ := error_of_foldlM hplace
      obtain ⟨i, -, hi⟩ := List.mem_flatMap.mp hp
      exact reported_of_place hi ht
    · have hvars : (scopeOf e.scope.functions f).vars.length ≤ 256 := by
        simpa [scopeOf, Function.vars] using hmany
      have hplaced := ((placed_opened f hpool).placePieces
        (fun q hq => fits_of_mem_bodyPieces hq) hvars hfuns he₁).1
      refine reported_of_patchAll (fun jump hmem => ?_) hpatch
      obtain ⟨-, -, -, -, -, -, hroom⟩ := hplaced.split_at_waiting (List.mem_reverse.mp hmem)
      exact hroom

lemma reported_of_emitFunctions {done : List Routine} {e : Emitter} {fs : List Function}
    {x : Error × Emitter} (hfuns : e.scope.functions.length ≤ 256) (hpool : PoolValid e.pool)
    (h : e.emitFunctions done fs = .error x) : Reported x.1.cause := by
  induction fs generalizing done e with
  | nil => cases h
  | cons f fs ih =>
    rw [Emitter.emitFunctions] at h
    rcases bind_eq_error_iff.mp h with hf | ⟨⟨r, e₁⟩, he₁, hrest⟩
    · unfold Emitter.emitFunction at hf
      cases hbody : e.emitBody f with
      | ok e₁ => simp [hbody] at hf
      | error y =>
        simp only [hbody, Except.error.injEq] at hf
        rw [← hf]
        exact reported_of_emitBody hfuns hpool hbody
    · exact ih (emitFunction_keeps he₁ ▸ hfuns) (emitFunction_ok hfuns hpool he₁).1 hrest

lemma reported_of_registered {m : Module} {e : Error} (h : Emitter.registered m = .error e) :
    Reported e.cause := by
  have hregister : ∀ seen done position slots,
      Emitter.register seen done position slots = .error e → Reported e.cause := by
    intro seen done position slots hslots
    induction slots generalizing seen done position with
    | nil => cases hslots
    | cons slot slots ih =>
      cases slot with
      | none =>
        cases hslots
        simp [Reported]
      | some f =>
        rw [Emitter.register] at hslots
        split_ifs at hslots
        · cases hslots
          simp [Reported]
        · exact ih _ _ _ hslots
  unfold Emitter.registered at h
  dsimp only at h
  split_ifs at h
  · cases h
    simp [Reported]
  · rcases bind_eq_error_iff.mp h with hslots | ⟨fs, -, hexports⟩
    · exact hregister _ _ _ _ hslots
    · split at hexports
      · cases hexports
        simp [Reported]
      · cases hexports

lemma reported_of_emit {m : Module} {e : Error} (h : m.emit = .error e) : Reported e.cause := by
  unfold Module.emit Emitter.emit at h
  dsimp only at h
  cases hreg : Emitter.registered m with
  | error cause =>
    simp only [hreg, Except.error.injEq] at h
    rw [← h]
    exact reported_of_registered hreg
  | ok fs =>
    have hfuns := (registered_eq_ok_iff.mp hreg).2.1
    rw [← List.length_map Function.name] at hfuns
    cases hfs : (emitterOf fs).emitFunctions [] fs with
    | ok result => simp [hreg, hfs] at h
    | error x =>
      simp only [hreg, hfs, Except.error.injEq] at h
      rw [← h]
      exact reported_of_emitFunctions hfuns poolValid_empty hfs

/-- A module has a program exactly if it keeps the limits. Any other module has an error instead,
with a cause that can be reported. -/
theorem emits_iff_emittable (m : Module) :
    ((∃ p, m.emit = .ok p) ↔ EmittableModule m) ∧
      (EmittableModule m ∨ ∃ e, m.emit = .error e ∧ Reported e.cause) := by
  refine ⟨exists_emit_iff, ?_⟩
  cases h : m.emit with
  | ok p => exact .inl (exists_emit_iff.mp ⟨p, h⟩)
  | error e => exact .inr ⟨e, rfl, reported_of_emit h⟩

end StackCode.Proofs
