import StackCode.Number.Binary64
import StackCode.Text.Basic

/-!
# Shortest decimal text of a number

The fewest significant digits that read back as the number, and of those the nearest. Exponents from
-4 to 5 are written positionally.
-/

namespace StackCode

open Text

namespace Binary64

/-- A decimal number `digits * 10 ^ exponent`. -/
structure Decimal where
  digits : Nat
  exponent : Int
  deriving DecidableEq, Repr

/-- A quotient of natural numbers, kept as it is. -/
structure Ratio where
  num : Nat
  den : Nat

def Ratio.binary (n : Nat) (e : Int) : Ratio :=
  ⟨n * Nat.pow 2 e.toNat, Nat.pow 2 (-e).toNat⟩

def Ratio.decimal (n : Nat) (e : Int) : Ratio :=
  ⟨n * Nat.pow 10 e.toNat, Nat.pow 10 (-e).toNat⟩

def Ratio.lt (x y : Ratio) : Bool := x.num * y.den < y.num * x.den

def Ratio.le (x y : Ratio) : Bool := x.num * y.den ≤ y.num * x.den

/-- The largest `e` with `10 ^ e ≤ x`, for a positive `x` whose binary logarithm is about `log2`. -/
def decimalExponent (x : Ratio) (log2 : Int) : Int :=
  let guess := Int.fdiv (log2 * 30103) 100000
  if x.lt (Ratio.decimal 1 guess) then guess - 1
  else if (Ratio.decimal 1 (guess + 1)).le x then guess + 1
  else guess

/-- The numbers that round to `m * 2 ^ q`: an interval that holds its ends if `m` is even. -/
structure Rounding where
  low : Ratio
  high : Ratio
  closed : Bool

def Rounding.contains (i : Rounding) (x : Ratio) : Bool :=
  if i.closed then i.low.le x && x.le i.high else i.low.lt x && x.lt i.high

/-- The rounding interval of `m * 2 ^ q`. Below a power of two the neighbour is nearer. -/
def Rounding.of (m : Nat) (q : Int) : Rounding :=
  let below := if m = Nat.pow 2 52 ∧ q > -1074 then 1 else 2
  ⟨Ratio.binary (4 * m - below) (q - 2), Ratio.binary (4 * m + 2) (q - 2), m % 2 = 0⟩

/-- The multiple of `10 ^ e` that rounds to the interval's number `x`, if there is one: the nearest
to it, of two the even one. -/
def onGrid? (i : Rounding) (x : Ratio) (e : Int) : Option Decimal :=
  let num := x.num * Nat.pow 10 (-e).toNat
  let den := x.den * Nat.pow 10 e.toNat
  let near := roundDiv num den
  let far := if near * den ≤ num then near + 1 else near - 1
  if i.contains (Ratio.decimal near e) then some ⟨near, e⟩
  else if i.contains (Ratio.decimal far e) then some ⟨far, e⟩
  else none

/-- The first of `count` ever finer grids, the coarsest `10 ^ e`, that holds a fitting multiple. -/
def firstGrid (i : Rounding) (x : Ratio) : (count : Nat) → (e : Int) → Option Decimal
  | 0, _ => none
  | count + 1, e =>
    match onGrid? i x e with
    | some d => some d
    | none => firstGrid i x count (e - 1)

/-- The shortest decimal that reads back as the positive number `m * 2 ^ q`. Seventeen digits always
suffice. -/
def shortest (m : Nat) (q : Int) : Decimal :=
  let x := Ratio.binary m q
  let e := decimalExponent x (Nat.log2 m + q)
  (firstGrid (Rounding.of m q) x 17 e).getD ⟨0, 0⟩

def digitsOf (n : Nat) : Text :=
  ((Text.ofNat n).reverse.dropWhile (· = byte '0')).reverse

def exponentText (e : Int) : Text :=
  let digits := Text.ofNat e.natAbs
  byte 'e' :: (if e < 0 then byte '-' else byte '+') ::
    (if digits.length < 2 then byte '0' :: digits else digits)

/-- A decimal as text: positional if its exponent is from -4 to 5, otherwise with one digit before
the point and an exponent. -/
def Decimal.text (d : Decimal) : Text :=
  let ds := digitsOf d.digits
  let e : Int := (Text.ofNat d.digits).length - 1 + d.exponent
  let point (whole part : Text) : Text :=
    if part.isEmpty then whole else whole ++ byte '.' :: part
  if e < -4 ∨ 6 ≤ e then point (ds.take 1) (ds.drop 1) ++ exponentText e
  else if e < 0 then point [byte '0'] (List.replicate (-e - 1).toNat (byte '0') ++ ds)
  else
    let places := e.toNat + 1
    point (ds.take places ++ List.replicate (places - ds.length) (byte '0')) (ds.drop places)

def text (x : Binary64) : Text :=
  if x.isNaN then "NaN"
  else if x.isInfinite then (if x.isNegative then "-Inf" else "+Inf")
  else
    let sign : Text := if x.isNegative then "-" else ""
    if x.isZero then sign ++ "0"
    else
      let (m, q) := x.decompose
      sign ++ (shortest m q).text

end Binary64

end StackCode
