import StackCode.Machine.Fault

/-!
# Operators of the machine

Operators take operands of one type. Integers wrap around, floating-point numbers follow the usual
rules except that a division by zero is a fault, strings are joined and ordered bytewise.
-/

namespace StackCode

open Text

namespace Value

/-- A comparison of two values by their order, which two numbers may lack. -/
def ordered? (op : Opcode) (o : Option Ordering) : Option Value :=
  match op with
  | .lt => some (bool (o = some .lt))
  | .le => some (bool (o = some .lt ∨ o = some .eq))
  | .gt => some (bool (o = some .gt))
  | .ge => some (bool (o = some .gt ∨ o = some .eq))
  | _ => none

end Value

namespace Datum

open Fault

def compareText (s t : Text) : Ordering :=
  if s.before t then .lt else if t.before s then .gt else .eq

/-- Equality as programs see it: by value for two floating-point numbers, else being the same. -/
def equal : Datum → Datum → Bool
  | scalar (.float x), scalar (.float y) => x.compare? y == some .eq
  | a, b => a = b

/-- An operator on two integers; none if it has no meaning for them. -/
def arithInts (op : Opcode) (x y : Int64) : Option (Except Cause Value) :=
  match op with
  | .add => some (.ok (.int (x + y)))
  | .sub => some (.ok (.int (x - y)))
  | .mul => some (.ok (.int (x * y)))
  | .div => some (if y = 0 then .error (.byZero .intQuotient) else .ok (.int (x / y)))
  | .mod => some (if y = 0 then .error (.byZero .intRemainder) else .ok (.int (x % y)))
  | op => (Value.ordered? op (some (compare x.toInt y.toInt))).map .ok

def arithFloats (op : Opcode) (x y : Binary64) : Option (Except Cause Value) :=
  match op with
  | .add => some (.ok (.float (x.add y)))
  | .sub => some (.ok (.float (x.sub y)))
  | .mul => some (.ok (.float (x.mul y)))
  | .div => some (if y.isZero then .error (.byZero .floatQuotient) else .ok (.float (x.div y)))
  | .mod => some (if y.isZero then .error (.byZero .floatRemainder) else .ok (.float (x.rem y)))
  | op => (Value.ordered? op (x.compare? y)).map .ok

def arithTexts (op : Opcode) (s t : Text) : Option (Except Cause Value) :=
  match op with
  | .add => some (.ok (.str (s ++ t)))
  | op => (Value.ordered? op (some (compareText s t))).map .ok

def arithBools (op : Opcode) (x y : Bool) : Option (Except Cause Value) :=
  match op with
  | .and => some (.ok (.bool (x && y)))
  | .or => some (.ok (.bool (x || y)))
  | _ => none

/-- An operator, other than equality, on two operands; none if it has no meaning for their types. -/
def arith? (op : Opcode) : Datum → Datum → Option (Except Cause Value)
  | scalar (.int x), scalar (.int y) => arithInts op x y
  | scalar (.float x), scalar (.float y) => arithFloats op x y
  | scalar (.str s), scalar (.str t) => arithTexts op s t
  | scalar (.bool x), scalar (.bool y) => arithBools op x y
  | _, _ => none

def arith (op : Opcode) (a b : Datum) : Except Cause Datum :=
  match op with
  | .eq => .ok (scalar (.bool (a.equal b)))
  | .ne => .ok (scalar (.bool !a.equal b))
  | op => ((arith? op a b).getD (.error (.operands op a.typeName b.typeName))).map scalar

def unary (op : Opcode) (a : Datum) : Except Cause Datum :=
  match op, a with
  | .neg, scalar (.int x) => .ok (scalar (.int (-x)))
  | .neg, scalar (.float x) => .ok (scalar (.float x.neg))
  | .not, scalar (.bool x) => .ok (scalar (.bool !x))
  | op, a => .error (.operand op a.typeName)

end Datum

end StackCode
