import StackCode.Compile
import StackCode.Proofs.Emission

/-!
# Modules that differ in names

Two functions are alike if their bodies differ only in the names of variables and labels and in
types, and the names correspond one to one. Optimization keeps functions alike, and emission makes
the same routine of them: a program holds slots and displacements, never the names.
-/

namespace StackCode.Proofs

open Emit

/-- How the names in two function bodies correspond. -/
structure Naming where
  var : Text → Text → Prop
  label : Text → Text → Prop

/-- Instructions that differ in names and types only. Whole operands agree in 64 bits. -/
inductive Alike (n : Naming) : Instr → Instr → Prop
  | missing : Alike n .missing .missing
  | const (v : Value) : Alike n (.const v) (.const v)
  | load {a b : Text} (h : n.var a b) : Alike n (.load a) (.load b)
  | store {a b : Text} (h : n.var a b) : Alike n (.store a) (.store b)
  | assign {a b : Text} {i j : Instr} (h : n.var a b) (hinner : Alike n i j) :
    Alike n (.assign a i) (.assign b j)
  | declare {a b : Text} (h : n.var a b) (t u : Text) : Alike n (.declare a t) (.declare b u)
  | binary (op : BinOp) : Alike n (.binary op) (.binary op)
  | unary (op : UnOp) : Alike n (.unary op) (.unary op)
  | call (function : Text) {x y : Int} (h : UInt64.ofInt x = UInt64.ofInt y) :
    Alike n (.call function x) (.call function y)
  | ret : Alike n .ret .ret
  | jump {a b : Text} (h : n.label a b) : Alike n (.jump a) (.jump b)
  | jumpIf {a b : Text} (h : n.label a b) : Alike n (.jumpIf a) (.jumpIf b)
  | label {a b : Text} (h : n.label a b) : Alike n (.label a) (.label b)
  | newArray (t u : Text) {x y : Int} (h : UInt64.ofInt x = UInt64.ofInt y) :
    Alike n (.newArray t x) (.newArray u y)
  | arrayLoad : Alike n .arrayLoad .arrayLoad
  | arrayStore : Alike n .arrayStore .arrayStore
  | newObject (className : Text) : Alike n (.newObject className) (.newObject className)
  | getProp (name : Text) : Alike n (.getProp name) (.getProp name)
  | setProp (name : Text) : Alike n (.setProp name) (.setProp name)

lemma Alike.mono {n n' : Naming} {i j : Instr} (h : Alike n i j)
    (hvar : ∀ a b, n.var a b → n'.var a b) (hlabel : ∀ a b, n.label a b → n'.label a b) :
    Alike n' i j := by
  induction h with
  | missing => exact .missing
  | const v => exact .const v
  | load h => exact .load (hvar _ _ h)
  | store h => exact .store (hvar _ _ h)
  | assign h _ ih => exact .assign (hvar _ _ h) ih
  | declare h t u => exact .declare (hvar _ _ h) t u
  | binary op => exact .binary op
  | unary op => exact .unary op
  | call function h => exact .call function h
  | ret => exact .ret
  | jump h => exact .jump (hlabel _ _ h)
  | jumpIf h => exact .jumpIf (hlabel _ _ h)
  | label h => exact .label (hlabel _ _ h)
  | newArray t u h => exact .newArray t u h
  | arrayLoad => exact .arrayLoad
  | arrayStore => exact .arrayStore
  | newObject className => exact .newObject className
  | getProp name => exact .getProp name
  | setProp name => exact .setProp name

/-- Functions that differ in the names of variables and labels and in types only. -/
structure FunctionsAlike (f g : Function) : Prop where
  name : f.name = g.name
  params : f.params.length = g.params.length
  locals : f.locals.length = g.locals.length
  body : ∃ n : Naming, List.Forall₂ (Alike n) f.body g.body ∧ Relator.BiUnique n.label ∧
    ∀ functions a b, n.var a b →
      Scope.slot? ⟨functions, f.vars.map Var.name⟩ a = Scope.slot? ⟨functions, g.vars.map Var.name⟩ b

/-- Modules whose functions are alike and whose exports are the same. -/
def ModulesAlike (m m' : Module) : Prop :=
  ∃ fs gs, m.functions = fs.map some ∧ m'.functions = gs.map some ∧
    List.Forall₂ FunctionsAlike fs gs ∧ m.exports = m'.exports

/-! ### Optimization -/

section Optimization

open Optimize

variable {n : Naming}

lemma Alike.eq_ret_iff {i j : Instr} (h : Alike n i j) : i = .ret ↔ j = .ret := by
  cases h <;> simp

/-- What a fold of two bodies gives: alike bodies before it, and the same constant. -/
inductive FoldsAlike (n : Naming) : Fold → Fold → Prop
  | keep : FoldsAlike n .keep .keep
  | unary (r : Value) {before before' : List Instr} (h : List.Forall₂ (Alike n) before before') :
    FoldsAlike n (.unary r before) (.unary r before')
  | binary (r : Value) {before before' : List Instr} (h : List.Forall₂ (Alike n) before before') :
    FoldsAlike n (.binary r before) (.binary r before')

lemma fold_binary (op : BinOp) (a b : Value) (before : List Instr) :
    fold (.const b :: .const a :: before) (.binary op) =
      (Value.combine? op a b).elim .keep (.binary · before) := rfl

lemma fold_unary (op : UnOp) (a : Value) (before : List Instr) :
    fold (.const a :: before) (.unary op) =
      (Value.transform? op a).elim .keep (.unary · before) := rfl

lemma fold_alike {before before' : List Instr} {i j : Instr}
    (hbefore : List.Forall₂ (Alike n) before before') (h : Alike n i j) :
    FoldsAlike n (fold before i) (fold before' j) := by
  cases h with
  | binary op =>
    cases hbefore with
    | nil => exact .keep
    | cons hb hrest =>
      cases hb with
      | const b =>
        cases hrest with
        | nil => exact .keep
        | cons ha hrest =>
          cases ha with
          | const a =>
            rw [fold_binary, fold_binary]
            cases Value.combine? op a b with
            | none => exact .keep
            | some r => exact .binary r hrest
          | _ => exact .keep
      | _ => exact .keep
  | unary op =>
    cases hbefore with
    | nil => exact .keep
    | cons ha hrest =>
      cases ha with
      | const a =>
        rw [fold_unary, fold_unary]
        cases Value.transform? op a with
        | none => exact .keep
        | some r => exact .unary r hrest
      | _ => exact .keep
  | _ => exact .keep

lemma fold_keep_alike {before before' : List Instr} {i j : Instr}
    (hbefore : List.Forall₂ (Alike n) before before') (h : Alike n i j)
    (hfold : fold before i = .keep) : fold before' j = .keep := by
  have hsame := fold_alike hbefore h
  rw [hfold] at hsame
  generalize fold before' j = other at hsame
  cases hsame
  rfl

lemma fold_unary_alike {before before' rest : List Instr} {i j : Instr} {r : Value}
    (hbefore : List.Forall₂ (Alike n) before before') (h : Alike n i j)
    (hfold : fold before i = .unary r rest) :
    ∃ rest', fold before' j = .unary r rest' ∧ List.Forall₂ (Alike n) rest rest' := by
  have hsame := fold_alike hbefore h
  rw [hfold] at hsame
  generalize fold before' j = other at hsame
  cases hsame with
  | unary _ hrest => exact ⟨_, rfl, hrest⟩

lemma fold_binary_alike {before before' rest : List Instr} {i j : Instr} {r : Value}
    (hbefore : List.Forall₂ (Alike n) before before') (h : Alike n i j)
    (hfold : fold before i = .binary r rest) :
    ∃ rest', fold before' j = .binary r rest' ∧ List.Forall₂ (Alike n) rest rest' := by
  have hsame := fold_alike hbefore h
  rw [hfold] at hsame
  generalize fold before' j = other at hsame
  cases hsame with
  | binary _ hrest => exact ⟨_, rfl, hrest⟩

lemma foldFrom_alike {before before' body body' : List Instr} (count : Nat)
    (hbefore : List.Forall₂ (Alike n) before before') (hbody : List.Forall₂ (Alike n) body body') :
    List.Forall₂ (Alike n) (foldFrom before count body).1 (foldFrom before' count body').1 ∧
      (foldFrom before count body).2 = (foldFrom before' count body').2 := by
  fun_induction foldFrom before count body generalizing before' body' with
  | case1 before count =>
    cases hbody
    exact ⟨List.forall₂_reverse_iff.mpr hbefore, rfl⟩
  | case2 before count i hfold =>
    obtain ⟨j, _, hi, ⟨⟩, rfl⟩ := List.forall₂_cons_left_iff.mp hbody
    rw [foldFrom, fold_keep_alike hbefore hi hfold]
    exact ⟨List.forall₂_reverse_iff.mpr (.cons hi hbefore), rfl⟩
  | case3 before count i r rest hfold =>
    obtain ⟨j, _, hi, ⟨⟩, rfl⟩ := List.forall₂_cons_left_iff.mp hbody
    obtain ⟨rest', hfold', hrest⟩ := fold_unary_alike hbefore hi hfold
    rw [foldFrom, hfold']
    exact ⟨List.forall₂_reverse_iff.mpr (.cons (.const r) hrest), rfl⟩
  | case4 before count i r rest hfold =>
    obtain ⟨j, _, hi, ⟨⟩, rfl⟩ := List.forall₂_cons_left_iff.mp hbody
    obtain ⟨rest', hfold', hrest⟩ := fold_binary_alike hbefore hi hfold
    rw [foldFrom, hfold']
    exact ⟨List.forall₂_reverse_iff.mpr (.cons (.const r) hrest), rfl⟩
  | case5 before count i next body hfold ih =>
    obtain ⟨j, _, hi, htail, rfl⟩ := List.forall₂_cons_left_iff.mp hbody
    obtain ⟨next', body', -, -, rfl⟩ := List.forall₂_cons_left_iff.mp htail
    rw [foldFrom, fold_keep_alike hbefore hi hfold]
    exact ih (.cons hi hbefore) htail
  | case6 before count i next body r rest hfold ih =>
    obtain ⟨j, _, hi, htail, rfl⟩ := List.forall₂_cons_left_iff.mp hbody
    obtain ⟨next', body', -, -, rfl⟩ := List.forall₂_cons_left_iff.mp htail
    obtain ⟨rest', hfold', hrest⟩ := fold_unary_alike hbefore hi hfold
    rw [foldFrom, hfold']
    exact ih (.cons (.const r) hrest) htail
  | case7 before count i next body r rest hfold ih =>
    obtain ⟨j, _, hi, htail, rfl⟩ := List.forall₂_cons_left_iff.mp hbody
    obtain ⟨next', body', hnext, hbody', rfl⟩ := List.forall₂_cons_left_iff.mp htail
    obtain ⟨rest', hfold', hrest⟩ := fold_binary_alike hbefore hi hfold
    rw [foldFrom, hfold']
    exact ih (.cons hnext (.cons (.const r) hrest)) hbody'

lemma upToReturn_cons (i : Instr) (body : List Instr) :
    upToReturn (i :: body) = if i = .ret then [i] else i :: upToReturn body := by
  unfold upToReturn
  by_cases hret : i = .ret
  · simp [hret]
  · simp [hret]

lemma upToReturn_alike {body body' : List Instr} (h : List.Forall₂ (Alike n) body body') :
    List.Forall₂ (Alike n) (upToReturn body) (upToReturn body') := by
  induction h with
  | nil => exact .nil
  | @cons i j body body' hi hbody ih =>
    rw [upToReturn_cons, upToReturn_cons]
    by_cases hret : i = .ret
    · rw [if_pos hret, if_pos (hi.eq_ret_iff.mp hret)]
      exact .cons hi .nil
    · rw [if_neg hret, if_neg fun hj => hret (hi.eq_ret_iff.mpr hj)]
      exact .cons hi ih

lemma FunctionsAlike.optimize {f g : Function} (h : FunctionsAlike f g) :
    FunctionsAlike f.optimize.1 g.optimize.1 ∧ f.optimize.2 = g.optimize.2 := by
  obtain ⟨hname, hparams, hlocals, n, hbody, hlabels, hvars⟩ := h
  obtain ⟨hfolded, hcount⟩ := foldFrom_alike 0 .nil hbody
  have hkept := upToReturn_alike hfolded
  refine ⟨⟨hname, hparams, hlocals, n, hkept, hlabels, hvars⟩, ?_⟩
  unfold Function.optimize foldConstants
  simp only [hcount, hfolded.length_eq, hkept.length_eq]

lemma ModulesAlike.optimize {m m' : Module} (h : ModulesAlike m m') :
    ModulesAlike m.optimize.1 m'.optimize.1 ∧ m.optimize.2 = m'.optimize.2 := by
  obtain ⟨fs, gs, hfs, hgs, halike, hexports⟩ := h
  have hstats : fs.map (fun f => f.optimize.2) = gs.map fun g => g.optimize.2 := by
    clear hfs hgs
    induction halike with
    | nil => rfl
    | cons hfg _ ih => rw [List.map_cons, List.map_cons, hfg.optimize.2, ih]
  refine ⟨⟨fs.map (fun f => f.optimize.1), gs.map (fun g => g.optimize.1), ?_, ?_, ?_, hexports⟩, ?_⟩
  · simp [Module.optimize, hfs, Function.comp_def]
  · simp [Module.optimize, hgs, Function.comp_def]
  · rw [List.forall₂_map_left_iff, List.forall₂_map_right_iff]
    exact halike.imp fun _ _ hfg => hfg.optimize.1
  · have htotal (m : Module) (hs : List Function) (hm : m.functions = hs.map some) :
        m.optimize.2 = (hs.map fun f => f.optimize.2).foldl (· + ·) {} := by
      simp [Module.optimize, hm, List.foldl_map, Function.comp_def]
    rw [htotal m fs hfs, htotal m' gs hgs, hstats]

end Optimization

/-! ### Pieces -/

/-- Pieces that differ in names only. -/
inductive PieceAlike (n : Naming) : Piece → Piece → Prop
  | plain (op : Opcode) : PieceAlike n (.plain op) (.plain op)
  | slot (op : Opcode) {a b : Text} (h : n.var a b) : PieceAlike n (.slot op a) (.slot op b)
  | constant (op : Opcode) (v : Value) : PieceAlike n (.constant op v) (.constant op v)
  | call (function : Text) {x y : Int} (h : UInt64.ofInt x = UInt64.ofInt y) :
    PieceAlike n (.call function x) (.call function y)
  | newArray {x y : Int} (h : UInt64.ofInt x = UInt64.ofInt y) :
    PieceAlike n (.newArray x) (.newArray y)
  | jump (op : Opcode) {a b : Text} (h : n.label a b) : PieceAlike n (.jump op a) (.jump op b)
  | label {a b : Text} (h : n.label a b) : PieceAlike n (.label a) (.label b)
  | refused (c d : Cause) : PieceAlike n (.refused c) (.refused d)

lemma Alike.eq_missing_iff {n : Naming} {i j : Instr} (h : Alike n i j) :
    i = .missing ↔ j = .missing := by
  cases h <;> simp

lemma Alike.pushes_eq {n : Naming} {i j : Instr} (h : Alike n i j) :
    i.stackEffect.2 = j.stackEffect.2 := by
  cases h <;> rfl

lemma pieces_alike {n : Naming} {i j : Instr} (h : Alike n i j) :
    List.Forall₂ (PieceAlike n) (pieces i) (pieces j) := by
  induction h with
  | @assign a b i j hname hinner ih =>
    rw [pieces, pieces]
    by_cases hmissing : i = .missing
    · rw [if_pos hmissing, if_pos (hinner.eq_missing_iff.mp hmissing)]
      exact .cons (.refused _ _) .nil
    · rw [if_neg hmissing, if_neg fun hj => hmissing (hinner.eq_missing_iff.mpr hj),
        hinner.pushes_eq]
      split_ifs
      · exact .cons (.refused _ _) .nil
      · exact List.rel_append ih (.cons (.slot _ hname) .nil)
  | missing => exact .cons (.refused _ _) .nil
  | const v => exact .cons (.constant _ _) .nil
  | load hname => exact .cons (.slot _ hname) .nil
  | store hname => exact .cons (.slot _ hname) .nil
  | declare hname t u => exact .nil
  | binary op =>
    rw [pieces]
    cases op.opcode? with
    | none => exact .cons (.refused _ _) .nil
    | some code => exact .cons (.plain code) .nil
  | unary op =>
    rw [pieces]
    cases op.opcode? with
    | none => exact .cons (.refused _ _) .nil
    | some code => exact .cons (.plain code) .nil
  | call function hargc => exact .cons (.call function hargc) .nil
  | ret => exact .cons (.plain _) .nil
  | jump hname => exact .cons (.jump _ hname) .nil
  | jumpIf hname => exact .cons (.jump _ hname) .nil
  | label hname => exact .cons (.label hname) .nil
  | newArray t u hsize => exact .cons (.newArray hsize) .nil
  | arrayLoad => exact .cons (.plain _) .nil
  | arrayStore => exact .cons (.plain _) .nil
  | newObject className => exact .cons (.constant _ _) .nil
  | getProp name => exact .cons (.constant _ _) .nil
  | setProp name => exact .cons (.constant _ _) .nil

/-! ### Emission -/

/-- A whole number that fits 64 bits with a sign. -/
def FitsInt64 (x : Int) : Prop := -2 ^ 63 ≤ x ∧ x < 2 ^ 63

/-- A piece whose whole operand, if it has one, fits 64 bits. -/
def OperandFits : Piece → Prop
  | .call _ x | .newArray x => FitsInt64 x
  | _ => True

/-- A body whose whole operands fit 64 bits. -/
def OperandsFit (body : List Instr) : Prop := ∀ i ∈ body, ∀ p ∈ pieces i, OperandFits p

lemma eq_of_ofInt_eq {x y : Int} {b : UInt8} (h : UInt64.ofInt x = UInt64.ofInt y)
    (hx : byteOperand? x = some b) (hy : FitsInt64 y) : y = x := by
  unfold byteOperand? at hx
  unfold FitsInt64 at hy
  split_ifs at hx with hrange
  have hnat : (UInt64.ofInt x).toNat = (UInt64.ofInt y).toNat := by rw [h]
  simp only [UInt64.ofInt, UInt64.toNat_ofNat'] at hnat
  omega

/-- Emitters that have done the same for two functions, up to the names of labels. -/
structure SameProgress (n : Naming) (e e' : Emitter) : Prop where
  pool : e.pool = e'.pool
  code : e.code = e'.code
  labels : List.Forall₂ (fun x y => n.label x.1 y.1 ∧ x.2 = y.2) e.labels e'.labels
  pending : List.Forall₂ (fun x y => x.1 = y.1 ∧ n.label x.2 y.2) e.pending e'.pending

lemma lookup_alike {n : Naming} (hlabels : Relator.BiUnique n.label)
    {xs ys : List (Text × Nat)} (h : List.Forall₂ (fun x y => n.label x.1 y.1 ∧ x.2 = y.2) xs ys)
    {a b : Text} (hab : n.label a b) : xs.lookup a = ys.lookup b := by
  induction h with
  | nil => rfl
  | @cons x y xs ys hxy _ ih =>
    obtain ⟨c, o⟩ := x
    obtain ⟨d, o'⟩ := y
    obtain ⟨hcd, rfl⟩ := hxy
    rw [List.lookup_cons, List.lookup_cons, ih]
    have hsame : (a == c) = (b == d) := by
      rw [Bool.eq_iff_iff, beq_iff_eq, beq_iff_eq]
      constructor
      · rintro rfl
        exact hlabels.2 hab hcd
      · rintro rfl
        exact hlabels.1 hab hcd
    rw [hsame]

section Emission

variable {n : Naming} {s s' : Scope} (hlabels : Relator.BiUnique n.label)
  (hvars : ∀ a b, n.var a b → s.slot? a = s'.slot? b) (hfunctions : s.functions = s'.functions)

include hlabels hvars hfunctions

lemma place_alike {e e' r : Emitter} {p q : Piece} (hp : PieceAlike n p q)
    (he : SameProgress n e e') (hfits : OperandFits q) (h : e.place s p = .ok r) :
    ∃ r', e'.place s' q = .ok r' ∧ SameProgress n r r' := by
  obtain ⟨pool, code, labels, pending, scope, function⟩ := e
  obtain ⟨pool', code', labels', pending', scope', function'⟩ := e'
  obtain ⟨hpool, hcode, hmarks, hjumps⟩ := he
  simp only at hpool hcode hmarks hjumps
  subst hpool hcode
  cases hp with
  | plain op =>
    cases h
    exact ⟨_, rfl, rfl, rfl, hmarks, hjumps⟩
  | @slot op a b hname =>
    simp only [Emitter.place, ← hvars a b hname] at h ⊢
    cases hslot : s.slot? a with
    | none => rw [hslot] at h; cases h
    | some i =>
      rw [hslot] at h
      cases h
      exact ⟨_, rfl, rfl, rfl, hmarks, hjumps⟩
  | constant op v =>
    simp only [Emitter.place, Emitter.placeConstant] at h ⊢
    generalize pool.intern v = interned at h ⊢
    obtain ⟨i, pool⟩ := interned
    cases i with
    | none => cases h
    | some i =>
      cases h
      exact ⟨_, rfl, rfl, rfl, hmarks, hjumps⟩
  | @call function x y hargc =>
    simp only [Emitter.place, ← hfunctions] at h ⊢
    cases hindex : s.functions.idxOf? function with
    | none => rw [hindex] at h; cases h
    | some i =>
      rw [hindex] at h
      cases hbyte : byteOperand? x with
      | none => simp only [hbyte] at h; cases h
      | some b =>
        simp only [hbyte] at h
        cases h
        -- the counts agree as 64-bit words only, and both are in the range of one
        rw [eq_of_ofInt_eq hargc hbyte hfits]
        simp only [hbyte]
        exact ⟨_, rfl, rfl, rfl, hmarks, hjumps⟩
  | @newArray x y hsize =>
    simp only [Emitter.place] at h ⊢
    cases hbyte : byteOperand? x with
    | none => simp only [hbyte] at h; cases h
    | some b =>
      simp only [hbyte] at h
      cases h
      rw [eq_of_ofInt_eq hsize hbyte hfits]
      simp only [hbyte]
      exact ⟨_, rfl, rfl, rfl, hmarks, hjumps⟩
  | jump op hname =>
    cases h
    exact ⟨_, rfl, rfl, rfl, hmarks, .cons ⟨rfl, hname⟩ hjumps⟩
  | @label a b hname =>
    simp only [Emitter.place, ← lookup_alike hlabels hmarks hname] at h ⊢
    cases hlookup : labels.lookup a with
    | some offset => rw [hlookup] at h; cases h
    | none =>
      rw [hlookup] at h
      cases h
      exact ⟨_, rfl, rfl, rfl, .cons ⟨hname, rfl⟩ hmarks, hjumps⟩
  | refused c d => cases h

lemma placePieces_alike {e e' r : Emitter} {is js : List Instr}
    (hbody : List.Forall₂ (Alike n) is js) (he : SameProgress n e e') (hfits : OperandsFit js)
    (h : (bodyPieces is).foldlM (Emitter.place s) e = .ok r) :
    ∃ r', (bodyPieces js).foldlM (Emitter.place s') e' = .ok r' ∧ SameProgress n r r' := by
  have hpieces : List.Forall₂ (PieceAlike n) (bodyPieces is) (bodyPieces js) :=
    List.rel_flatMap hbody fun _ _ hij => pieces_alike hij
  apply foldlM_alike hpieces _ he h
  intro e e' p q r hq hpq he hr
  obtain ⟨j, hj, hqj⟩ := List.mem_flatMap.mp hq
  exact place_alike hlabels hvars hfunctions hpq he (hfits j hj q hqj) hr

omit hvars hfunctions in
lemma patch_alike {size : Nat} {e e' r : Emitter} {x y : Nat × Text}
    (hxy : x.1 = y.1 ∧ n.label x.2 y.2) (he : SameProgress n e e') (h : e.patch size x = .ok r) :
    ∃ r', e'.patch size y = .ok r' ∧ SameProgress n r r' := by
  obtain ⟨pool, code, labels, pending, scope, function⟩ := e
  obtain ⟨pool', code', labels', pending', scope', function'⟩ := e'
  obtain ⟨hpool, hcode, hmarks, hjumps⟩ := he
  simp only at hpool hcode hmarks hjumps
  subst hpool hcode
  simp only [Emitter.patch, ← lookup_alike hlabels hmarks hxy.2, ← hxy.1] at h ⊢
  cases hlookup : labels.lookup x.2 with
  | none => rw [hlookup] at h; cases h
  | some target =>
    simp only [hlookup] at h ⊢
    split_ifs at h ⊢ with hend
    cases hpatch : code.patchJump x.1 target with
    | error cause => rw [hpatch] at h; cases h
    | ok code' =>
      rw [hpatch] at h
      cases h
      exact ⟨_, rfl, rfl, rfl, hmarks, hjumps⟩

end Emission

lemma emitBody_alike {f g : Function} (hfg : FunctionsAlike f g) {e e' r : Emitter}
    (hpool : e.pool = e'.pool) (hnames : e.scope.functions = e'.scope.functions)
    (hfits : OperandsFit g.body) (h : e.emitBody f = .ok r) :
    ∃ r', e'.emitBody g = .ok r' ∧ r.pool = r'.pool ∧ r.code = r'.code := by
  obtain ⟨n, hbody, hlabels, hvars⟩ := hfg.body
  obtain ⟨hcount, placed, hplaced, hpatched⟩ := emitBody_eq_ok_iff.mp h
  rw [hfg.params, hfg.locals] at hcount
  have hstart : SameProgress n (opened e f) (opened e' g) := ⟨hpool, rfl, .nil, .nil⟩
  have hslots : ∀ a b, n.var a b → (scopeOf e.scope.functions f).slot? a =
      (scopeOf e'.scope.functions g).slot? b := hnames ▸ hvars e.scope.functions
  have hcalls : (scopeOf e.scope.functions f).functions =
      (scopeOf e'.scope.functions g).functions := hnames
  obtain ⟨placed', hplaced', hsame⟩ :=
    placePieces_alike hlabels hslots hcalls hbody hstart hfits hplaced
  have hjumps := List.rel_reverse hsame.pending
  obtain ⟨r', hr', hdone⟩ := foldlM_alike hjumps
    (fun e e' x y r _ hxy he hr => patch_alike hlabels hxy he hr) hsame hpatched
  refine ⟨r', ?_, hdone.pool, hdone.code⟩
  rw [hsame.code] at hr'
  exact emitBody_eq_ok_iff.mpr ⟨hcount, placed', hplaced', hr'⟩

lemma emitFunction_alike {f g : Function} (hfg : FunctionsAlike f g) {e e' r : Emitter}
    {routine : Routine} (hpool : e.pool = e'.pool)
    (hnames : e.scope.functions = e'.scope.functions) (hfits : OperandsFit g.body)
    (h : e.emitFunction f = .ok (routine, r)) :
    ∃ r', e'.emitFunction g = .ok (routine, r') ∧ r.pool = r'.pool := by
  obtain ⟨done, hbody, rfl, rfl⟩ := emitFunction_eq_ok_iff.mp h
  obtain ⟨done', hbody', hpools, hcodes⟩ := emitBody_alike hfg hpool hnames hfits hbody
  rw [hfg.name, hfg.params, hfg.locals, hcodes]
  exact ⟨_, emitFunction_eq_ok_iff.mpr ⟨done', hbody', rfl, rfl⟩, hpools⟩

lemma emitFunctions_alike {fs gs : List Function} (hfgs : List.Forall₂ FunctionsAlike fs gs)
    (hfits : ∀ g ∈ gs, OperandsFit g.body) {done routines : List Routine} {e e' r : Emitter}
    (hpool : e.pool = e'.pool) (hnames : e.scope.functions = e'.scope.functions)
    (h : e.emitFunctions done fs = .ok (routines, r)) :
    ∃ r', e'.emitFunctions done gs = .ok (routines, r') ∧ r.pool = r'.pool := by
  induction hfgs generalizing done e e' with
  | nil =>
    cases h
    exact ⟨e', rfl, hpool⟩
  | @cons f g fs gs hfg _ ih =>
    obtain ⟨⟨routine, rest⟩, hf, hfs⟩ := bind_eq_ok_iff.mp h
    obtain ⟨rest', hg, hrest⟩ := emitFunction_alike hfg hpool hnames (hfits g (by simp)) hf
    have hnames' : rest.scope.functions = rest'.scope.functions := by
      rw [emitFunction_keeps hf, emitFunction_keeps hg, hnames]
    obtain ⟨r', hgs, hr⟩ := ih (fun g' hg' => hfits g' (by simp [hg'])) hrest hnames' hfs
    exact ⟨r', bind_eq_ok_iff.mpr ⟨_, hg, hgs⟩, hr⟩

lemma names_alike {fs gs : List Function} (h : List.Forall₂ FunctionsAlike fs gs) :
    fs.map Function.name = gs.map Function.name := by
  induction h with
  | nil => rfl
  | cons hfg _ ih => rw [List.map_cons, List.map_cons, hfg.name, ih]

/-- Modules that differ in names only are emitted as the same program. -/
theorem emit_alike {m m' : Module} {p : Program} (h : ModulesAlike m m')
    (hfits : ∀ g, some g ∈ m'.functions → OperandsFit g.body) (hemit : m.emit = .ok p) :
    m'.emit = .ok p := by
  obtain ⟨fs, gs, hfs, hgs, halike, hexports⟩ := h
  obtain ⟨fs', routines, e, hregistered, hroutines, rfl⟩ := emit_eq_ok_iff.mp hemit
  obtain ⟨hslots, hcount, hnodup, hknown⟩ := registered_eq_ok_iff.mp hregistered
  have hsame : fs' = fs := List.map_injective_iff.mpr (Option.some_injective _) (hslots ▸ hfs)
  subst hsame
  have hnames := names_alike halike
  rw [hnames] at hnodup hknown
  have hbodies : ∀ g ∈ gs, OperandsFit g.body := by
    intro g hg
    apply hfits
    rw [hgs]
    exact List.mem_map_of_mem hg
  have hempty : (emitterOf fs').pool = (emitterOf gs).pool := rfl
  obtain ⟨e', hroutines', hpool⟩ := emitFunctions_alike halike hbodies hempty hnames hroutines
  apply emit_eq_ok_iff.mpr
  refine ⟨gs, routines, e', registered_eq_ok_iff.mpr ⟨hgs, ?_, hnodup, ?_⟩, hroutines', ?_⟩
  · rw [← halike.length_eq]
    exact hcount
  · rw [← hexports]
    exact hknown
  · rw [hpool, hexports]

lemma fitsInt64_of_byteOperand? {x : Int} {b : UInt8} (h : byteOperand? x = some b) :
    FitsInt64 x := by
  obtain ⟨hpos, hnat⟩ := toNat_of_byteOperand? h
  have hlt := b.toNat_lt
  unfold FitsInt64
  omega

lemma operandFits_of_place {s : Scope} {e e' : Emitter} {p : Piece} (h : e.place s p = .ok e') :
    OperandFits p := by
  cases p with
  | call function argc =>
    simp only [Emitter.place] at h
    cases hindex : s.functions.idxOf? function with
    | none => rw [hindex] at h; cases h
    | some i =>
      rw [hindex] at h
      cases hbyte : byteOperand? argc with
      | none => simp only [hbyte] at h; cases h
      | some b => exact fitsInt64_of_byteOperand? hbyte
  | newArray size =>
    simp only [Emitter.place] at h
    cases hbyte : byteOperand? size with
    | none => simp only [hbyte] at h; cases h
    | some b => exact fitsInt64_of_byteOperand? hbyte
  | _ => trivial

lemma operandsFit_of_emitFunction {e e' : Emitter} {f : Function} {r : Routine}
    (h : e.emitFunction f = .ok (r, e')) : OperandsFit f.body := by
  unfold Emitter.emitFunction at h
  cases hbody : e.emitBody f with
  | error c => rw [hbody] at h; cases h
  | ok done =>
    unfold Emitter.emitBody at hbody
    dsimp only at hbody
    split_ifs at hbody with hcount
    obtain ⟨placed, hplaced, -⟩ := bind_eq_ok_iff.mp hbody
    intro i hi p hp
    obtain ⟨t, t', hpieces⟩ := step_of_foldlM hplaced i hi
    obtain ⟨u, u', hpiece⟩ := step_of_foldlM hpieces p hp
    exact operandFits_of_place hpiece

lemma operandsFit_of_emit {m : Module} {p : Program} (h : m.emit = .ok p) (f : Function)
    (hf : some f ∈ m.functions) : OperandsFit f.body := by
  obtain ⟨fs, routines, e, hregistered, hroutines, -⟩ := emit_eq_ok_iff.mp h
  obtain ⟨hslots, -⟩ := registered_eq_ok_iff.mp hregistered
  rw [hslots, List.mem_map_of_injective (Option.some_injective _)] at hf
  generalize ([] : List Routine) = done at hroutines
  generalize emitterOf fs = start at hroutines
  clear hregistered hslots
  induction fs generalizing done start with
  | nil => cases hf
  | cons g fs ih =>
    obtain ⟨⟨routine, rest⟩, hg, hfs⟩ := bind_eq_ok_iff.mp hroutines
    rcases List.mem_cons.mp hf with rfl | hf
    · exact operandsFit_of_emitFunction hg
    · exact ih hf _ _ hfs

end StackCode.Proofs
