/-!
# Binary floating point

A number of 64 bits is kept as its bit pattern, so that every pattern, the payloads of NaNs
included, is told apart. Rounding is to nearest, ties to even.
-/

namespace StackCode

/-- A binary floating-point number of 64 bits, as its bit pattern. -/
structure Binary64 where
  bits : UInt64
  deriving DecidableEq, Repr, Hashable, Inhabited

namespace Binary64

/-- The NaN that the literal `nan` stands for. -/
def nan : Binary64 := ⟨0x7FF8000000000001⟩

/-- The NaN of an operation that has no value, such as the difference of two infinities. -/
def indefinite : Binary64 := ⟨0xFFF8000000000000⟩

def infinity (negative : Bool) : Binary64 :=
  if negative then ⟨0xFFF0000000000000⟩ else ⟨0x7FF0000000000000⟩

def isNegative (x : Binary64) : Bool := x.bits >>> 63 == 1

def exponentBits (x : Binary64) : Nat := ((x.bits >>> 52) &&& 0x7FF).toNat

def fractionBits (x : Binary64) : Nat := (x.bits &&& 0xFFFFFFFFFFFFF).toNat

def isNaN (x : Binary64) : Bool := x.exponentBits == 0x7FF && x.fractionBits != 0

def isInfinite (x : Binary64) : Bool := x.exponentBits == 0x7FF && x.fractionBits == 0

/-- Zero of either sign. -/
def isZero (x : Binary64) : Bool := x.exponentBits == 0 && x.fractionBits == 0

/-- The significand and exponent of a finite number: its size is `significand * 2 ^ exponent`. -/
def decompose (x : Binary64) : Nat × Int :=
  if x.exponentBits == 0 then (x.fractionBits, -1074)
  else (x.fractionBits + Nat.pow 2 52, (x.exponentBits : Int) - 1075)

/-- The number of the given sign and size `significand * 2 ^ (exponent - 1074)`, where the
significand has at most 53 bits, and 53 of them if the exponent is positive. -/
def compose (negative : Bool) (significand exponent : Nat) : Binary64 :=
  let size :=
    if significand < Nat.pow 2 52 then significand else exponent * Nat.pow 2 52 + significand
  ⟨size.toUInt64 ||| (if negative then 0x8000000000000000 else 0)⟩

/-- The quotient rounded to the nearest natural number, ties to even. -/
def roundDiv (num den : Nat) : Nat :=
  let q := num / den
  let r := num % den
  if 2 * r > den ∨ (2 * r = den ∧ q % 2 = 1) then q + 1 else q

/-- The number nearest to `num / den`, or none if that is beyond the largest finite one. -/
def ofRatio? (negative : Bool) (num den : Nat) : Option Binary64 :=
  if num = 0 then some (compose negative 0 0)
  else
    -- the quotient lies between `2 ^ (top - 1)` and `2 ^ (top + 1)`
    let top : Int := (Nat.log2 num : Int) - Nat.log2 den
    let low := max (top - 53) (-1074)
    let scaled (e : Int) : Nat :=
      if e < 0 then roundDiv (num * Nat.pow 2 (-e).toNat) den
      else roundDiv num (den * Nat.pow 2 e.toNat)
    let fit (e : Int) : Option Binary64 :=
      let m := scaled e
      -- rounding up may need one bit more
      let (m, e) := if m = Nat.pow 2 53 then (Nat.pow 2 52, e + 1) else (m, e)
      if e > 971 then none else some (compose negative m (e + 1074).toNat)
    if (num * Nat.pow 2 (-low).toNat) / (den * Nat.pow 2 low.toNat) < Nat.pow 2 53 then fit low
    else fit (low + 1)

/-- The negated number: only the sign bit changes, also for a NaN. -/
def neg (x : Binary64) : Binary64 := ⟨x.bits ^^^ 0x8000000000000000⟩

/-- A NaN as the result of an operation: the quiet bit is set. -/
def quiet (x : Binary64) : Binary64 := ⟨x.bits ||| 0x8000000000000⟩

/-- An arithmetic operation. The first NaN among the operands is the result if there is one. -/
def arith (op : Float → Float → Float) (x y : Binary64) : Binary64 :=
  if x.isNaN then x.quiet
  else if y.isNaN then y.quiet
  else
    let r := op (Float.ofBits x.bits) (Float.ofBits y.bits)
    if r.isNaN then indefinite else ⟨r.toBits⟩

def add : Binary64 → Binary64 → Binary64 := arith (· + ·)
def sub : Binary64 → Binary64 → Binary64 := arith (· - ·)
def mul : Binary64 → Binary64 → Binary64 := arith (· * ·)
def div : Binary64 → Binary64 → Binary64 := arith (· / ·)

/-- The remainder of truncated division, exact and with the sign of the dividend. -/
def rem (x y : Binary64) : Binary64 :=
  if x.isNaN || y.isNaN || x.isInfinite || y.isZero then nan
  else if y.isInfinite then x
  else
    let (m, e) := x.decompose
    let (n, f) := y.decompose
    let low := min e f
    let r := (m * Nat.pow 2 (e - low).toNat) % (n * Nat.pow 2 (f - low).toNat)
    (ofRatio? x.isNegative (r * Nat.pow 2 low.toNat) (Nat.pow 2 (-low).toNat)).getD nan

/-- The place of a number that is not a NaN among all such numbers, counted from zero. -/
def rank (x : Binary64) : Int :=
  let size : Int := (x.bits &&& 0x7FFFFFFFFFFFFFFF).toNat
  if x.isNegative then -size else size

/-- The order of two numbers, none if one is a NaN. Zeros of both signs are equal. -/
def compare? (x y : Binary64) : Option Ordering :=
  if x.isNaN || y.isNaN then none else some (compare x.rank y.rank)

end Binary64

end StackCode
