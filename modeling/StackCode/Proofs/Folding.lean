import StackCode.Optimize
import StackCode.Proofs.SourceMachine

/-!
# Folded bodies

Every constant of a folded body stands for a segment of the body it was made of that computes the
constant. The rest of the body is as it was.
-/

namespace StackCode.Proofs

open Source

/-! ### Operators on constants -/

lemma ok_bool_congr {P Q : Prop} [Decidable P] [Decidable Q] (h : P ↔ Q) :
    (.ok (.scalar (.bool P)) : Except Fault.Cause Datum) = .ok (.scalar (.bool Q)) := by
  simp [h]

lemma arith_of_combineInts {op : BinOp} {x y : Int64} {r : Value}
    (h : Value.combineInts? op x y = some r) :
    ∃ f, binary? op = some f ∧ f (.scalar (.int x)) (.scalar (.int y)) = .ok (.scalar r) := by
  cases op with
  | add | sub | mul =>
    cases h
    exact ⟨_, rfl, rfl⟩
  | div =>
    simp only [Value.combineInts?] at h
    split_ifs at h with hy
    cases h
    refine ⟨_, rfl, ?_⟩
    simp [Datum.arith, Datum.arith?, Datum.arithInts, hy, Except.map]
  | eq | ne =>
    cases h
    refine ⟨_, rfl, ?_⟩
    simp [Datum.arith, Datum.equal]
  | lt | gt =>
    cases h
    refine ⟨_, rfl, ok_bool_congr ?_⟩
    simp only [Option.some.injEq, compare_lt_iff_lt, compare_gt_iff_gt, Int64.lt_iff_toInt_lt]
  | le | ge =>
    cases h
    refine ⟨_, rfl, ok_bool_congr ?_⟩
    simp only [Option.some.injEq, compare_lt_iff_lt, compare_eq_iff_eq, compare_gt_iff_gt,
      Int64.le_iff_toInt_le]
    omega
  | mod | and | or | undefined _ _ => cases h

lemma arith_of_combineFloats {op : BinOp} {x y : Binary64} {r : Value}
    (h : Value.combineFloats? op x y = some r) :
    ∃ f, binary? op = some f ∧ f (.scalar (.float x)) (.scalar (.float y)) = .ok (.scalar r) := by
  cases op with
  | add | sub | mul =>
    cases h
    exact ⟨_, rfl, rfl⟩
  | div =>
    simp only [Value.combineFloats?] at h
    split_ifs at h with hy
    cases h
    refine ⟨_, rfl, ?_⟩
    simp [Datum.arith, Datum.arith?, Datum.arithFloats, hy, Except.map]
  | eq | ne | lt | le | gt | ge | mod | and | or | undefined _ _ => cases h

/-- What folding computes is what the machine computes. -/
lemma arith_of_combine {op : BinOp} {a b r : Value} (h : Value.combine? op a b = some r) :
    ∃ f, binary? op = some f ∧ f (.scalar a) (.scalar b) = .ok (.scalar r) := by
  match a, b with
  | .int x, .int y => exact arith_of_combineInts h
  | .float x, .float y => exact arith_of_combineFloats h

lemma unary_of_transform {op : UnOp} {a r : Value} (h : Value.transform? op a = some r) :
    ∃ f, unary? op = some f ∧ f (.scalar a) = .ok (.scalar r) := by
  cases op <;> cases a <;> cases h <;> exact ⟨_, rfl, rfl⟩

/-! ### Segments that compute a constant -/

/-- The instructions push one constant and do nothing else. -/
inductive Computes : List Instr → Value → Prop
  | const (v : Value) : Computes [.const v] v
  | binary {xs ys a b op r} (hxs : Computes xs a) (hys : Computes ys b)
    (h : Value.combine? op a b = some r) : Computes (xs ++ ys ++ [.binary op]) r
  | unary {xs a op r} (hxs : Computes xs a) (h : Value.transform? op a = some r) :
    Computes (xs ++ [.unary op]) r

lemma Computes.ne_nil {xs : List Instr} {v : Value} (h : Computes xs v) : xs ≠ [] := by
  cases h <;> simp

lemma Computes.label_not_mem {xs : List Instr} {v : Value} (h : Computes xs v) (name : Text) :
    .label name ∉ xs := by
  induction h with
  | const v => simp
  | binary _ _ _ ihx ihy => simp [ihx, ihy]
  | unary _ _ ihx => simp [ihx]

/-- The second body is the first one with some segments replaced by the constants they compute. -/
inductive Folds : List Instr → List Instr → Prop
  | nil : Folds [] []
  | keep (i : Instr) {xs ys} (h : Folds xs ys) : Folds (i :: xs) (i :: ys)
  | fold {segment v xs ys} (hsegment : Computes segment v) (h : Folds xs ys) :
    Folds (segment ++ xs) (.const v :: ys)

namespace Folds

lemma refl (xs : List Instr) : Folds xs xs := by
  induction xs with
  | nil => exact .nil
  | cons i xs ih => exact .keep i ih

lemma append {xs xs' ys ys' : List Instr} (h : Folds xs ys) (h' : Folds xs' ys') :
    Folds (xs ++ xs') (ys ++ ys') := by
  induction h with
  | nil => exact h'
  | keep i _ ih => exact .keep i ih
  | fold hsegment _ ih =>
    rw [List.append_assoc]
    exact .fold hsegment ih

lemma split {xs ys ys' : List Instr} (h : Folds xs (ys ++ ys')) :
    ∃ front back, xs = front ++ back ∧ Folds front ys ∧ Folds back ys' := by
  induction ys generalizing xs with
  | nil => exact ⟨[], xs, rfl, .nil, h⟩
  | cons y ys ih =>
    cases h with
    | keep _ h =>
      obtain ⟨front, back, rfl, hfront, hback⟩ := ih h
      exact ⟨y :: front, back, rfl, .keep y hfront, hback⟩
    | fold hsegment h =>
      obtain ⟨front, back, rfl, hfront, hback⟩ := ih h
      exact ⟨_ ++ front, back, by rw [List.append_assoc], .fold hsegment hfront, hback⟩

lemma eq_nil {xs : List Instr} (h : Folds xs []) : xs = [] := by
  cases h
  rfl

lemma computes {xs : List Instr} {v : Value} (h : Folds xs [.const v]) : Computes xs v := by
  cases h with
  | keep _ h =>
    rw [h.eq_nil]
    exact .const v
  | fold hsegment h =>
    rw [h.eq_nil, List.append_nil]
    exact hsegment

lemma of_computes {xs : List Instr} {v : Value} (h : Computes xs v) : Folds xs [.const v] := by
  simpa using Folds.fold h .nil

lemma label_mem {xs ys : List Instr} (h : Folds xs ys) (name : Text) :
    .label name ∈ xs ↔ .label name ∈ ys := by
  induction h with
  | nil => simp
  | keep i _ ih => simp [ih]
  | fold hsegment _ ih => simp [ih, hsegment.label_not_mem name]

lemma mem_or_const {xs ys : List Instr} (h : Folds xs ys) {i : Instr} (hi : i ∈ ys) :
    i ∈ xs ∨ ∃ v, i = .const v := by
  induction h with
  | nil => cases hi
  | keep j _ ih =>
    rcases List.mem_cons.mp hi with rfl | hi
    · exact .inl (by simp)
    · exact (ih hi).imp_left (List.mem_cons_of_mem j)
  | fold _ _ ih =>
    rcases List.mem_cons.mp hi with rfl | hi
    · exact .inr ⟨_, rfl⟩
    · exact (ih hi).imp_left fun hmem => by simp [hmem]

end Folds

/-! ### The passes -/

lemma Folds.binary {xs rest : List Instr} {op : BinOp} {a b r : Value}
    (h : Folds xs (.const b :: .const a :: rest).reverse) (hr : Value.combine? op a b = some r) :
    Folds (xs ++ [.binary op]) (.const r :: rest).reverse := by
  rw [List.reverse_cons, List.reverse_cons] at h
  obtain ⟨front, ys, rfl, hfront, hys⟩ := h.split
  obtain ⟨front, zs, rfl, hfront, hzs⟩ := hfront.split
  rw [List.reverse_cons, List.append_assoc, List.append_assoc, ← List.append_assoc zs]
  exact hfront.append (.of_computes (.binary hzs.computes hys.computes hr))

lemma Folds.unary {xs rest : List Instr} {op : UnOp} {a r : Value}
    (h : Folds xs (.const a :: rest).reverse) (hr : Value.transform? op a = some r) :
    Folds (xs ++ [.unary op]) (.const r :: rest).reverse := by
  rw [List.reverse_cons] at h
  obtain ⟨front, ys, rfl, hfront, hys⟩ := h.split
  rw [List.reverse_cons, List.append_assoc]
  exact hfront.append (.of_computes (.unary hys.computes hr))

lemma Folds.snoc {xs ys : List Instr} (h : Folds xs ys.reverse) (i : Instr) :
    Folds (xs ++ [i]) (i :: ys).reverse := by
  rw [List.reverse_cons]
  exact h.append (.refl [i])

open Optimize

/-- What the fold of an instruction makes of the body so far. -/
lemma folds_of_fold {xs before : List Instr} (h : Folds xs before.reverse) {i : Instr} {r : Value}
    {rest : List Instr} (hfold : fold before i = .unary r rest ∨ fold before i = .binary r rest) :
    Folds (xs ++ [i]) (.const r :: rest).reverse := by
  unfold fold at hfold
  split at hfold
  · rename_i op b a rest'
    cases hr : Value.combine? op a b with
    | none => simp [hr] at hfold
    | some v =>
      simp only [hr, Option.elim, reduceCtorEq, Fold.binary.injEq, false_or] at hfold
      obtain ⟨rfl, rfl⟩ := hfold
      exact h.binary hr
  · rename_i op a rest'
    cases hr : Value.transform? op a with
    | none => simp [hr] at hfold
    | some v =>
      simp only [hr, Option.elim, reduceCtorEq, Fold.unary.injEq, or_false] at hfold
      obtain ⟨rfl, rfl⟩ := hfold
      exact h.unary hr
  · simp at hfold

lemma folds_foldFrom {xs before : List Instr} (h : Folds xs before.reverse) (count : Nat)
    (body : List Instr) : Folds (xs ++ body) (foldFrom before count body).1 := by
  fun_induction foldFrom before count body generalizing xs with
  | case1 => simpa using h
  | case2 => exact h.snoc _
  | case3 _ _ _ _ _ hfold => exact folds_of_fold h (.inl hfold)
  | case4 _ _ _ _ _ hfold => exact folds_of_fold h (.inr hfold)
  | case5 before count i next body hfold ih => simpa using ih (h.snoc i)
  | case6 before count i next body r rest hfold ih =>
    simpa using ih (folds_of_fold h (.inl hfold))
  | case7 before count i next body r rest hfold ih =>
    simpa using ih ((folds_of_fold h (.inr hfold)).snoc next)

/-- An optimized body is a folded part of the body. What is left out stands after a return. -/
lemma folds_optimize (f : Function) :
    ∃ kept rest, f.body = kept ++ rest ∧ Folds kept f.optimize.1.body ∧
      (rest = [] ∨ ∃ front, f.optimize.1.body = front ++ [.ret]) := by
  have hfolds : Folds f.body (foldConstants f.body).1 := by
    have h : Folds [] (List.reverse []) := .nil
    exact folds_foldFrom h 0 f.body
  generalize hfolded : (foldConstants f.body).1 = folded at hfolds
  have hbody : f.optimize.1.body = upToReturn folded := by rw [← hfolded]; rfl
  have hparts : folded = upToReturn folded ++ (folded.dropWhile (· ≠ .ret)).drop 1 := by
    unfold upToReturn
    rw [List.append_assoc, List.take_append_drop, List.takeWhile_append_dropWhile]
  rw [hparts] at hfolds
  obtain ⟨kept, rest, heq, hkept, hrest⟩ := hfolds.split
  refine ⟨kept, rest, heq, by rwa [hbody], ?_⟩
  rw [hbody]
  unfold upToReturn
  cases hdrop : folded.dropWhile (· ≠ .ret) with
  | nil =>
    rw [hdrop] at hrest
    exact .inl hrest.eq_nil
  | cons i back =>
    have hret : i = .ret := by
      have hne : folded.dropWhile (· ≠ .ret) ≠ [] := by
        rw [hdrop]
        exact List.cons_ne_nil i back
      have hhead := List.head_dropWhile_not _ hne
      simp only [hdrop, List.head_cons] at hhead
      simpa using hhead
    exact .inr ⟨_, by rw [hret]; rfl⟩

end StackCode.Proofs
