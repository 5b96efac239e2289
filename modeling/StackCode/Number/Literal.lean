import StackCode.Number.Binary64
import StackCode.Number.Integer

/-!
# Floating-point literals

Decimal and hexadecimal numbers with an optional fraction and exponent, digit separators, and the
names of the infinities and of NaN.
-/

namespace StackCode

open Text

namespace Binary64

/-- The digits read so far: their value, how many stand after the point, and whether a point and a
digit were seen. -/
structure Significand where
  value : Nat := 0
  fraction : Nat := 0
  sawPoint : Bool := false
  sawDigit : Bool := false

def Significand.push? (base : Nat) (s : Significand) (b : UInt8) : Option Significand :=
  if b = byte '_' then some s
  else if b = byte '.' then (if s.sawPoint then none else some { s with sawPoint := true })
  else
    match hexValue? b with
    | some d =>
      if d < base then
        some { s with
          value := s.value * base + d
          fraction := if s.sawPoint then s.fraction + 1 else s.fraction
          sawDigit := true }
      else none
    | none => none

/-- The longest significand that starts the text, and what follows it. -/
def Significand.take (base : Nat) (s : Significand) : Text → Significand × Text
  | [] => (s, [])
  | b :: t =>
    match s.push? base b with
    | some s => Significand.take base s t
    | none => (s, b :: t)

/-- The exponent with one more digit. Beyond 10000 its size no longer matters. -/
def pushExponent (e : Nat) (b : UInt8) : Nat :=
  if b = byte '_' then e else if e < 10000 then e * 10 + (b.toNat - 48) else e

/-- The exponent that a text spells out after its mark: a sign, a digit, then digits and separators
up to the end. -/
def exponent? (t : Text) : Option Int :=
  let (negative, digits) := Number.splitSign t
  match digits with
  | d :: _ =>
    if isDigitByte d && digits.all (fun b => isDigitByte b || b = byte '_') then
      let e : Nat := digits.foldl pushExponent 0
      some (if negative then -(e : Int) else e)
    else none
  | [] => none

/-- The number nearest to `value * base ^ e`, none if it is too large. Exponents far outside the
range are decided without the power: `3` bits are fewer than a decimal digit holds. -/
def scaled? (negative : Bool) (base value : Nat) (e : Int) : Option Binary64 :=
  let bits : Int := if base = 10 then 3 else 1
  if value = 0 ∨ (e < 0 ∧ Nat.log2 value + bits * e < -4000) then ofRatio? negative 0 1
  else if 40000 < e then none
  else ofRatio? negative (value * Nat.pow base e.toNat) (Nat.pow base (-e).toNat)

/-- A number of finite size, after its sign: decimal, or hexadecimal with a binary exponent. -/
def finite? (negative : Bool) (t : Text) : Option Binary64 :=
  let hex : Bool := match t with
    | z :: m :: _ :: _ => z = byte '0' && lowerByte m = byte 'x'
    | _ => false
  let base := if hex then 16 else 10
  let mark := if hex then byte 'p' else byte 'e'
  let (s, rest) := Significand.take base {} (if hex then t.drop 2 else t)
  if !s.sawDigit then none
  else
    let exponent : Option Int := match rest with
      | [] => if hex then none else some 0
      | b :: r => if lowerByte b = mark then exponent? r else none
    match exponent with
    | none => none
    | some e =>
      if hex then scaled? negative 2 s.value (e - 4 * s.fraction)
      else scaled? negative 10 s.value (e - s.fraction)

/-- A floating-point literal. None if it is malformed, or too large to be finite. -/
def literal? (t : Text) : Option Binary64 :=
  let (negative, rest) := Number.splitSign t
  let name := toLower rest
  if name = "inf" ∨ name = "infinity" then some (infinity negative)
  else if toLower t = "nan" then some nan
  else if t.contains (byte '_') && !Number.separatorsOk t then none
  else finite? negative rest

end Binary64

end StackCode
