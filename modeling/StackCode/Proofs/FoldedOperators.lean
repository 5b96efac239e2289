import StackCode.Proofs.Folding
import StackCode.Proofs.InstructionMeaning

/-!
# Operators before and during a run

An operator on constants is worked out before the program runs only where the machine would work it
out to the same constant. So what would stop the machine is left to it. Integers wrap around in both
places.
-/

namespace StackCode.Proofs

open Emit

/-- An operator applied to constants. -/
inductive Application where
  | binary (op : BinOp) (a b : Value)
  | unary (op : UnOp) (a : Value)

namespace Application

def instr : Application → Instr
  | binary op _ _ => .binary op
  | unary op _ => .unary op

/-- The result, if it is worked out before the program runs. -/
def folded? : Application → Option Value
  | binary op a b => Value.combine? op a b
  | unary op a => Value.transform? op a

/-- What the machine does at an opcode with these operands. -/
def resultAt (code : Opcode) : Application → Except Fault.Cause Datum
  | binary _ a b => Datum.arith code (.scalar a) (.scalar b)
  | unary _ a => Datum.unary code (.scalar a)

/-- What the machine does at the opcode that is emitted for the operator. -/
def Yields (app : Application) (result : Except Fault.Cause Datum) : Prop :=
  ∃ code, pieces app.instr = [.plain code] ∧ app.resultAt code = result

/-- The machine stops with a fault of this kind. -/
def Stops (app : Application) (kind : Fault.Kind) : Prop :=
  ∃ cause, app.Yields (.error cause) ∧ cause.kind = kind

end Application

open Application

/-- Zero of any sign. -/
def isNumericZero : Value → Bool
  | .int n => n = 0
  | .float x => x.isZero
  | _ => false

/-- The result of an operator on integers without a bound. A quotient is cut off toward zero. -/
def unbounded? : BinOp → Int → Int → Option Int
  | .add, x, y => some (x + y)
  | .sub, x, y => some (x - y)
  | .mul, x, y => some (x * y)
  | .div, x, y => if y = 0 then none else some (x.tdiv y)
  | .mod, x, y => if y = 0 then none else some (x.tmod y)
  | _, _, _ => none

section

variable {app : Application} {op : BinOp} {un : UnOp} {code : Opcode} {a b r : Value}

/-! ### What is folded -/

lemma pieces_binary (h : op.opcode? = some code) : pieces (.binary op) = [.plain code] := by
  simp [pieces, h]

lemma pieces_unary (h : un.opcode? = some code) : pieces (.unary un) = [.plain code] := by
  simp [pieces, h]

lemma yields_of_combine (h : Value.combine? op a b = some r) :
    (binary op a b).Yields (.ok (.scalar r)) := by
  obtain ⟨f, hf, hresult⟩ := arith_of_combine h
  cases hcode : op.opcode? with
  | none =>
    cases op <;> cases hcode
    cases hf
  | some code =>
    rw [binary_eq_arith hcode] at hf
    cases hf
    exact ⟨code, pieces_binary hcode, hresult⟩

lemma yields_of_transform (h : Value.transform? un a = some r) :
    (unary un a).Yields (.ok (.scalar r)) := by
  obtain ⟨f, hf, hresult⟩ := unary_of_transform h
  cases hcode : un.opcode? with
  | none =>
    cases un <;> cases hcode
    cases hf
  | some code =>
    rw [unary_eq hcode] at hf
    cases hf
    exact ⟨code, pieces_unary hcode, hresult⟩

/-- What is worked out before the run is what the machine would find. -/
lemma yields_of_folded (h : app.folded? = some r) : app.Yields (.ok (.scalar r)) := by
  cases app with
  | binary op a b => exact yields_of_combine h
  | unary un a => exact yields_of_transform h

lemma Application.Yields.unique {result result' : Except Fault.Cause Datum} (h : app.Yields result)
    (h' : app.Yields result') : result = result' := by
  obtain ⟨code, hcode, rfl⟩ := h
  obtain ⟨code', hcode', rfl⟩ := h'
  rw [hcode] at hcode'
  cases hcode'
  rfl

lemma folded_of_stops {kind : Fault.Kind} (h : app.Stops kind) : app.folded? = none := by
  obtain ⟨cause, hstops, -⟩ := h
  cases hr : app.folded? with
  | none => rfl
  | some r => cases hstops.unique (yields_of_folded hr)

/-! ### What stops the machine -/

lemma stops_by_zero (hop : op = .div ∨ op = .mod) (hkind : a.kind = b.kind)
    (hzero : isNumericZero b) : (binary op a b).Stops .divisionByZero := by
  cases b with
  | int y =>
    cases a <;> cases hkind
    obtain rfl : y = 0 := of_decide_eq_true hzero
    rcases hop with rfl | rfl <;> exact ⟨_, ⟨_, rfl, rfl⟩, rfl⟩
  | float y =>
    cases a <;> cases hkind
    have hy : y.isZero = true := hzero
    rcases hop with rfl | rfl
    · refine ⟨.byZero .floatQuotient, ⟨.div, rfl, ?_⟩, rfl⟩
      simp only [resultAt, Datum.arith, Datum.arith?, Datum.arithFloats, hy, if_true]
      rfl
    · refine ⟨.byZero .floatRemainder, ⟨.mod, rfl, ?_⟩, rfl⟩
      simp only [resultAt, Datum.arith, Datum.arith?, Datum.arithFloats, hy, if_true]
      rfl
  | null | bool | str => cases hzero

lemma arith?_of_kinds (code : Opcode) (h : a.kind ≠ b.kind) :
    Datum.arith? code (.scalar a) (.scalar b) = none := by
  cases a <;> cases b <;> simp_all [Datum.arith?, Value.kind]

/-- Every operator has an opcode of its own. -/
lemma opcode?_injective {op' : BinOp} (h : op.opcode? = some code) (h' : op'.opcode? = some code) :
    op = op' := by
  cases op <;> cases h <;> cases op' <;> simp_all [BinOp.opcode?]

lemma stops_by_kinds (hcode : op.opcode? = some code) (heq : op ≠ .eq) (hne : op ≠ .ne)
    (hkind : a.kind ≠ b.kind) : (binary op a b).Stops .typeMismatch := by
  refine ⟨.operands code a.kind.name b.kind.name, ⟨code, pieces_binary hcode, ?_⟩, rfl⟩
  have hnone := arith?_of_kinds code hkind
  simp only [resultAt]
  unfold Datum.arith
  split
  · exact absurd (opcode?_injective hcode rfl) heq
  · exact absurd (opcode?_injective hcode rfl) hne
  · rw [hnone]
    rfl

lemma stops_of_transform (hcode : un.opcode? = some code) (h : Value.transform? un a = none) :
    (unary un a).Stops .typeMismatch := by
  refine ⟨.operand code a.kind.name, ⟨code, pieces_unary hcode, ?_⟩, rfl⟩
  cases un <;> cases hcode <;> cases a <;>
    simp_all [Value.transform?, resultAt, Datum.unary, Datum.typeName, Value.kind]

end

/-! ### Integers -/

lemma ne_zero_of_toInt {y : Int64} (h : y.toInt ≠ 0) : y ≠ 0 := by
  rintro rfl
  exact h rfl

lemma folded_unbounded {op : BinOp} {x y : Int64} {n : Int} (hop : op ≠ .mod)
    (h : unbounded? op x.toInt y.toInt = some n) :
    ∃ r : Int64, r.toInt = n.bmod (2 ^ 64) ∧
      (binary op (.int x) (.int y)).folded? = some (.int r) := by
  cases op with
  | add =>
    cases h
    exact ⟨x + y, Int64.toInt_add x y, rfl⟩
  | sub =>
    cases h
    exact ⟨x - y, Int64.toInt_sub x y, rfl⟩
  | mul =>
    cases h
    exact ⟨x * y, Int64.toInt_mul x y, rfl⟩
  | div =>
    simp only [unbounded?] at h
    split_ifs at h with hy
    cases h
    exact ⟨x / y, Int64.toInt_div x y, if_neg (ne_zero_of_toInt hy)⟩
  | mod => exact absurd rfl hop
  | eq | ne | lt | le | gt | ge | and | or | undefined => cases h

/-- Remainders are left to the machine. They need no wrapping. -/
lemma yields_remainder {x y : Int64} {n : Int} (h : unbounded? .mod x.toInt y.toInt = some n) :
    ∃ r : Int64, r.toInt = n.bmod (2 ^ 64) ∧
      (binary .mod (.int x) (.int y)).Yields (.ok (.scalar (.int r))) := by
  simp only [unbounded?] at h
  split_ifs at h with hy
  cases h
  refine ⟨x % y, ?_, .mod, rfl, ?_⟩
  · rw [← Int64.toInt_mod]
    exact (Int64.toInt_bmod (x % y)).symm
  · simp only [resultAt, Datum.arith, Datum.arith?, Datum.arithInts, if_neg (ne_zero_of_toInt hy)]
    rfl

/-- Folding and the machine agree. What is worked out before the run is what the machine would find,
and what would stop the machine, as a division by zero or operands of two kinds do, is not worked
out. The integers of both wrap around at 64 bits. -/
theorem folding_agrees_with_machine :
    (∀ (app : Application) (r : Value), app.folded? = some r → app.Yields (.ok (.scalar r))) ∧
    (∀ (app : Application) (kind : Fault.Kind), app.Stops kind → app.folded? = none) ∧
    (∀ (op : BinOp) (a b : Value), op = .div ∨ op = .mod → a.kind = b.kind → isNumericZero b →
      (binary op a b).Stops .divisionByZero) ∧
    (∀ (op : BinOp) (a b : Value), op.opcode?.isSome → op ≠ .eq → op ≠ .ne → a.kind ≠ b.kind →
      (binary op a b).Stops .typeMismatch) ∧
    (∀ (op : UnOp) (a : Value), op.opcode?.isSome → (unary op a).folded? = none →
      (unary op a).Stops .typeMismatch) ∧
    (∀ (op : BinOp) (x y : Int64) (n : Int), unbounded? op x.toInt y.toInt = some n →
      ∃ r : Int64, r.toInt = n.bmod (2 ^ 64) ∧
        (binary op (.int x) (.int y)).Yields (.ok (.scalar (.int r))) ∧
        (op ≠ .mod → (binary op (.int x) (.int y)).folded? = some (.int r))) ∧
    (∀ x : Int64, ∃ r : Int64, r.toInt = (-x.toInt).bmod (2 ^ 64) ∧
      (unary .neg (.int x)).folded? = some (.int r)) ∧
    (binary .div (.int Int64.minValue) (.int (-1))).folded? = some (.int Int64.minValue) ∧
    (unary .neg (.int Int64.minValue)).folded? = some (.int Int64.minValue) := by
  refine ⟨fun app r => yields_of_folded, fun app kind => folded_of_stops,
    fun op a b => stops_by_zero, ?_, ?_, ?_, ?_, by decide, by decide⟩
  · intro op a b hcode
    obtain ⟨code, hcode⟩ := Option.isSome_iff_exists.mp hcode
    exact stops_by_kinds hcode
  · intro op a hcode
    obtain ⟨code, hcode⟩ := Option.isSome_iff_exists.mp hcode
    exact stops_of_transform hcode
  · intro op x y n h
    by_cases hop : op = .mod
    · subst hop
      obtain ⟨r, hr, hyields⟩ := yields_remainder h
      exact ⟨r, hr, hyields, fun hne => absurd rfl hne⟩
    · obtain ⟨r, hr, hfolded⟩ := folded_unbounded hop h
      exact ⟨r, hr, yields_of_folded hfolded, fun _ => hfolded⟩
  · exact fun x => ⟨-x, Int64.toInt_neg x, rfl⟩

end StackCode.Proofs
