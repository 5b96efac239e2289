import StackCode.Number.Integer

/-!
# Durations

Spans of time such as `1h30m` or `1.5s`: numbers with units, one after the other, after an optional
sign. A duration is a number of nanoseconds that fits 64 bits.
-/

namespace StackCode

open Text

namespace Duration

/-- The units with their nanoseconds. -/
def units : List (Text × Nat) :=
  [("ns", 1), ("us", 1000), ("µs", 1000), ("μs", 1000), ("ms", 1000000), ("s", 1000000000),
    ("m", 60000000000), ("h", 3600000000000)]

inductive ReadError where
  | invalid (t : Text)
  | missingUnit (t : Text)
  | unknownUnit (unit t : Text)
  deriving DecidableEq, Repr

def escapeByte (b : UInt8) : Text :=
  if b = byte '"' ∨ b = byte '\\' then [byte '\\', b]
  else if b < 0x20 ∨ 0x80 ≤ b then [byte '\\', byte 'x'] ++ hexOfByte b
  else [b]

def shown (t : Text) : Text := "\"" ++ t.flatMap escapeByte ++ "\""

def ReadError.message : ReadError → Text
  | invalid t => "time: invalid duration " ++ shown t
  | missingUnit t => "time: missing unit in duration " ++ shown t
  | unknownUnit unit t => "time: unknown unit " ++ shown unit ++ " in duration " ++ shown t

/-- The digits at the start, those after a point that follows them, and the rest. -/
def takeNumber (t : Text) : Text × Text × Text :=
  let whole := t.takeWhile isDigitByte
  match t.dropWhile isDigitByte with
  | b :: rest =>
    if b = byte '.' then (whole, rest.takeWhile isDigitByte, rest.dropWhile isDigitByte)
    else (whole, [], b :: rest)
  | [] => (whole, [], [])

/-- The first number with its unit, in nanoseconds, and the rest. `t` is the whole text. -/
def takeTerm (t : Text) (rest : Text) : Except ReadError (Nat × Text) :=
  let (whole, fraction, rest) := takeNumber rest
  let endsUnit (b : UInt8) : Bool := b = byte '.' || isDigitByte b
  let unit := rest.takeWhile (!endsUnit ·)
  let value := (Number.ofDigits? 10 whole).getD 0
  if (whole.isEmpty ∧ fraction.isEmpty) ∨ Nat.pow 2 63 < value then .error (.invalid t)
  else if unit.isEmpty then .error (.missingUnit t)
  else
    match units.lookup unit with
    | none => .error (.unknownUnit unit t)
    | some scale =>
      let part := (Number.ofDigits? 10 fraction).getD 0 * scale / Nat.pow 10 fraction.length
      if Nat.pow 2 63 < value * scale + part then .error (.invalid t)
      else .ok (value * scale + part, rest.dropWhile (!endsUnit ·))

def takeTerms (t : Text) : (fuel : Nat) → (total : Nat) → Text → Except ReadError Nat
  | _, total, [] => .ok total
  | 0, _, _ :: _ => .error (.invalid t)
  | fuel + 1, total, b :: rest =>
    match takeTerm t (b :: rest) with
    | .error e => .error e
    | .ok (n, rest) =>
      if Nat.pow 2 63 < total + n then .error (.invalid t) else takeTerms t fuel (total + n) rest

/-- Reads a duration, in nanoseconds. Zero needs no unit. -/
def read (t : Text) : Except ReadError Int :=
  let (negative, rest) := Number.splitSign t
  if rest = "0" then .ok 0
  else if rest.isEmpty then .error (.invalid t)
  else
    match takeTerms t rest.length 0 rest with
    | .error e => .error e
    | .ok n =>
      if negative then .ok (-n) else if n = Nat.pow 2 63 then .error (.invalid t) else .ok n

end Duration

end StackCode
