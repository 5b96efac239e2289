import StackCode.Text.Basic

/-!
# Integers in text

Signed integers of 64 bits, in decimal or with a mark for another base, and digit separators.
-/

namespace StackCode

open Text

namespace Number

/-- What stood last in a number: nothing yet, a digit or base mark, a separator, something else. -/
inductive Last where
  | start
  | digit
  | separator
  | other
  deriving DecidableEq

/-- The state after one more byte, or none where a separator stands at a wrong place. -/
def Last.next (hex : Bool) (last : Last) (b : UInt8) : Option Last :=
  if isDigitByte b || (hex && (hexValue? b).isSome) then some .digit
  else if b = byte '_' then (if last = .digit then some .separator else none)
  else if last = .separator then none
  else some .other

/-- Whether the separators of a number stand between digits, or between its base mark and a digit.
-/
def separatorsOk (t : Text) : Bool :=
  let t := match t with
    | b :: rest => if b = byte '-' ∨ b = byte '+' then rest else t
    | [] => []
  match t with
  | z :: m :: rest =>
    let mark := lowerByte m
    if z = byte '0' ∧ (mark = byte 'b' ∨ mark = byte 'o' ∨ mark = byte 'x') then
      ends (mark = byte 'x') .digit rest
    else ends false .start t
  | _ => ends false .start t
where
  ends (hex : Bool) (last : Last) (t : Text) : Bool :=
    match t.foldlM (Last.next hex) last with
    | some last => last != .separator
    | none => false

/-- The value of a digit or letter: letters count from ten. -/
def digitValue? (b : UInt8) : Option Nat :=
  if isDigitByte b then some (b.toNat - 48)
  else
    let l := lowerByte b
    if byte 'a' ≤ l ∧ l ≤ byte 'z' then some (l.toNat - 87) else none

def appendDigit (base : Nat) (n : Nat) (b : UInt8) : Option Nat :=
  match digitValue? b with
  | some d => if d < base then some (n * base + d) else none
  | none => none

/-- The value of a sequence of digits in the given base. No digits give zero. -/
def ofDigits? (base : Nat) (t : Text) : Option Nat :=
  t.foldlM (appendDigit base) 0

/-- The base that a number's first bytes announce, and its digits. A zero alone announces octal. -/
def splitBase : Text → Nat × Text
  | z :: m :: d :: rest =>
    if z ≠ byte '0' then (10, z :: m :: d :: rest)
    else if lowerByte m = byte 'b' then (2, d :: rest)
    else if lowerByte m = byte 'o' then (8, d :: rest)
    else if lowerByte m = byte 'x' then (16, d :: rest)
    else (8, m :: d :: rest)
  | z :: rest => if z = byte '0' then (8, rest) else (10, z :: rest)
  | [] => (10, [])

def natLiteral? (t : Text) : Option Nat :=
  if t.isEmpty then none
  else
    let (base, digits) := splitBase t
    match ofDigits? base (digits.filter (· ≠ byte '_')) with
    | some n => if t.contains (byte '_') && !separatorsOk t then none else some n
    | none => none

/-- Whether the digits that a number starts with, after its base mark, are too many for 64 bits. -/
def overflows (t : Text) : Bool :=
  let (base, digits) := splitBase t
  let isDigit (b : UInt8) : Bool := (digitValue? b).any (· < base)
  let leading := (digits.filter (· ≠ byte '_')).takeWhile isDigit
  (ofDigits? base leading).any (Nat.pow 2 64 ≤ ·)

/-- Whether the number starts with a minus sign, and what follows its sign. -/
def splitSign : Text → Bool × Text
  | b :: rest =>
    if b = byte '-' then (true, rest)
    else if b = byte '+' then (false, rest)
    else (false, b :: rest)
  | [] => (false, [])

/-- The integer of the given sign and size, if 64 bits hold it. -/
def signed? (negative : Bool) (n : Nat) : Option Int64 :=
  if negative then (if n ≤ Nat.pow 2 63 then some (Int64.ofInt (-n)) else none)
  else (if n < Nat.pow 2 63 then some (Int64.ofNat n) else none)

def intLiteral? (t : Text) : Option Int64 :=
  let (negative, rest) := splitSign t
  (natLiteral? rest).bind (signed? negative)

/-- A signed integer in decimal, without separators. -/
def decimal? (t : Text) : Option Int64 :=
  let (negative, rest) := splitSign t
  if rest.isEmpty then none else (ofDigits? 10 rest).bind (signed? negative)

end Number

end StackCode
