import StackCode.Module.Basic

/-!
# Optimization

Two passes over a function body: operations on constants are replaced by their results, and what
stands after the first return is dropped.
-/

namespace StackCode

structure Stats where
  /-- Operations replaced by a constant. -/
  folded : Int64 := 0
  /-- Instructions dropped after the first return. -/
  removed : Int64 := 0
  deriving DecidableEq, Repr

instance : Add Stats := ⟨fun a b => ⟨a.folded + b.folded, a.removed + b.removed⟩⟩

namespace Value

/-- The result of an operator on two integers. Division by zero and the remaining operators have
none. -/
def combineInts? (op : BinOp) (x y : Int64) : Option Value :=
  match op with
  | .add => some (int (x + y))
  | .sub => some (int (x - y))
  | .mul => some (int (x * y))
  | .div => if y = 0 then none else some (int (x / y))
  | .eq => some (bool (x = y))
  | .ne => some (bool (x ≠ y))
  | .lt => some (bool (x < y))
  | .le => some (bool (x ≤ y))
  | .gt => some (bool (y < x))
  | .ge => some (bool (y ≤ x))
  | _ => none

/-- The result of an operator on two floating-point numbers; comparisons are left to the machine. -/
def combineFloats? (op : BinOp) (x y : Binary64) : Option Value :=
  match op with
  | .add => some (float (x.add y))
  | .sub => some (float (x.sub y))
  | .mul => some (float (x.mul y))
  | .div => if y.isZero then none else some (float (x.div y))
  | _ => none

/-- The result of an operator on two constants, if it is fixed before the program runs. -/
def combine? (op : BinOp) : Value → Value → Option Value
  | int x, int y => combineInts? op x y
  | float x, float y => combineFloats? op x y
  | _, _ => none

def transform? : UnOp → Value → Option Value
  | .neg, int x => some (int (-x))
  | .neg, float x => some (float x.neg)
  | .not, bool b => some (bool !b)
  | _, _ => none

end Value

namespace Optimize

/-- A fold that an instruction allows after those in `before`, the latest one first. -/
inductive Fold where
  | keep
  /-- The operator and its operand become one constant. -/
  | unary (r : Value) (before : List Instr)
  /-- The operator and its two operands become one constant. -/
  | binary (r : Value) (before : List Instr)
  deriving DecidableEq, Repr

/-- The fold of an instruction with the constants right before it. -/
def fold (before : List Instr) (i : Instr) : Fold :=
  match i, before with
  | .binary op, .const b :: .const a :: rest => (Value.combine? op a b).elim .keep (.binary · rest)
  | .unary op, .const a :: rest => (Value.transform? op a).elim .keep (.unary · rest)
  | _, _ => .keep

/-- Folds the instructions of a body after those in `before`, the latest one first, and counts the
folds. After the fold of two operands the next instruction is passed over: it is kept as it is. -/
def foldFrom (before : List Instr) (count : Nat) : List Instr → List Instr × Nat
  | [] => (before.reverse, count)
  | [i] =>
    match fold before i with
    | .keep => ((i :: before).reverse, count)
    | .unary r rest | .binary r rest => ((.const r :: rest).reverse, count + 1)
  | i :: next :: body =>
    match fold before i with
    | .keep => foldFrom (i :: before) count (next :: body)
    | .unary r rest => foldFrom (.const r :: rest) (count + 1) (next :: body)
    -- two instructions are gone and the position stays, so it is behind `next`
    | .binary r rest => foldFrom (next :: .const r :: rest) (count + 1) body

/-- The body in which operations on constants are replaced by their results, and how many were. -/
def foldConstants (body : List Instr) : List Instr × Nat := foldFrom [] 0 body

/-- The body up to and including its first return. -/
def upToReturn (body : List Instr) : List Instr :=
  body.takeWhile (· ≠ .ret) ++ (body.dropWhile (· ≠ .ret)).take 1

end Optimize

def Function.optimize (f : Function) : Function × Stats :=
  let (folded, count) := Optimize.foldConstants f.body
  let kept := Optimize.upToReturn folded
  ({ f with body := kept }, ⟨.ofNat count, .ofNat (folded.length - kept.length)⟩)

def Module.optimize (m : Module) : Module × Stats :=
  let results := m.functions.map (Option.map Function.optimize)
  ({ m with functions := results.map (Option.map Prod.fst) },
    (results.filterMap id).foldl (fun total r => total + r.2) {})

end StackCode
