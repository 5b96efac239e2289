import StackCode.Number.Literal
import StackCode.Toml.Syntax

/-!
# Scalars of configuration documents

Numbers, dates and times, and strings.
-/

namespace StackCode

open Text

namespace Toml

/-- The bytes that a text starts with and that satisfy `p`, and the rest. -/
def spanBytes (p : UInt8 → Bool) (t : Text) : Text × Text := (t.takeWhile p, t.dropWhile p)

def isBlank (b : UInt8) : Bool := b == byte ' ' || b == byte '\t'

def isNewline (b : UInt8) : Bool := b == byte '\n' || b == byte '\r'

def isHexByte (b : UInt8) : Bool := (hexValue? b).isSome

/-- Whether every underscore stands between two digits, and the last byte is a digit. -/
def underscoresOk (t : Text) : Bool :=
  go false t
where
  go (afterDigit : Bool) : Text → Bool
    | [] => afterDigit
    | b :: t => (b != byte '_' || afterDigit) && go (isHexByte b) t

/-- Whether a number starts with a zero that it must not have. -/
def leadingZero (t : Text) : Bool :=
  match t with
  | a :: b :: rest =>
    (a == byte '0' && !(b == byte 'b' || b == byte 'o' || b == byte 'x')) ||
      ((a == byte '-' || a == byte '+') && b == byte '0' && !rest.isEmpty)
  | _ => false

/-- Whether every period is followed by a digit. -/
def periodsOk : Text → Bool
  | [] => true
  | [b] => b != byte '.'
  | a :: b :: t => (a != byte '.' || isDigitByte b) && periodsOk (b :: t)

def integer? (t : Text) : Option Term :=
  if underscoresOk t && !leadingZero t then (Number.intLiteral? t).map .int else none

/-- The parts of a number between its period and exponent marks. -/
def floatParts (t : Text) : List Text :=
  (t.splitBy fun a b => isMark a == isMark b).filter fun p => !p.any isMark
where
  isMark (b : UInt8) : Bool := b == byte '.' || b == byte 'e' || b == byte 'E'

def float? (t : Text) : Option Term :=
  let parts := floatParts t
  if parts.all underscoresOk && !(parts.head?.any leadingZero) && periodsOk t then
    (Binary64.literal? (t.filter (· != byte '_'))).map fun _ => .float
  else none

def twoDigits? (a b : UInt8) : Option Nat :=
  if isDigitByte a && isDigitByte b then
    some ((a - byte '0').toNat * 10 + (b - byte '0').toNat)
  else none

def daysInMonth (year month : Nat) : Nat :=
  if month = 2 then
    if year % 4 = 0 ∧ (year % 100 ≠ 0 ∨ year % 400 = 0) then 29 else 28
  else if month = 4 ∨ month = 6 ∨ month = 9 ∨ month = 11 then 30
  else 31

/-- What follows a date at the start of the text. -/
def afterDate? : Text → Option Text
  | a :: b :: c :: d :: h :: e :: f :: i :: g :: k :: rest => do
    let century ← twoDigits? a b
    let year ← twoDigits? c d
    let month ← twoDigits? e f
    let day ← twoDigits? g k
    if h = byte '-' ∧ i = byte '-' ∧ 1 ≤ month ∧ month ≤ 12 ∧ 1 ≤ day ∧
        day ≤ daysInMonth (century * 100 + year) month then some rest
    else none
  | _ => none

/-- What follows the seconds of a time, if there are any, with their fraction. -/
def afterSeconds? : Text → Option Text
  | c :: a :: b :: rest =>
    if c = byte ':' then do
      let s ← twoDigits? a b
      if 60 ≤ s then none
      else
        match rest with
        | p :: d :: _ =>
          if p = byte '.' ∧ isDigitByte d then some ((rest.drop 1).dropWhile isDigitByte)
          else some rest
        | _ => some rest
    else some (c :: a :: b :: rest)
  | t => some t

/-- What follows a time at the start of the text. -/
def afterTime? : Text → Option Text
  | a :: b :: c :: d :: e :: rest => do
    let hour ← twoDigits? a b
    let minute ← twoDigits? d e
    if c = byte ':' ∧ hour < 24 ∧ minute < 60 then afterSeconds? rest else none
  | _ => none

/-- Whether the text is empty or an offset from universal time. -/
def isOffset : Text → Bool
  | [] => true
  | [z] => z = byte 'Z'
  | [s, a, b, c, d, e] =>
    (s = byte '+' || s = byte '-') && c = byte ':' &&
      (twoDigits? a b).any (· ≤ 24) && (twoDigits? d e).any (· ≤ 60)
  | _ => false

/-- Whether a text is a date, a time, or both with or without an offset. -/
def isDatetime (t : Text) : Bool :=
  let t : Text := t.map fun b =>
    if b = byte 'z' then byte 'Z' else if b = byte 't' ∨ b = byte ' ' then byte 'T' else b
  match afterDate? t with
  | some [] => true
  | some (m :: rest) => m = byte 'T' && (afterTime? rest).any isOffset
  | none => afterTime? t == some []

def trimEnd (t : Text) : Text := (t.reverse.dropWhile isBlank).reverse

/-- A date or time, of which `head` is already read. -/
def datetime? (head t : Text) : Option (Term × Text) :=
  let isPart (b : UInt8) : Bool :=
    isDigitByte b || (Text.ofString "-:Tt .Zz+").contains b
  let (more, rest) := spanBytes isPart t
  if isDatetime (trimEnd (head ++ more)) then some (.datetime, rest) else none

/-- A number with a period or an exponent, of which `head` is already read. -/
def floatToken? (head t : Text) : Option (Term × Text) :=
  let (more, rest) := spanBytes (fun b => isDigitByte b || (Text.ofString "_.-+eE").contains b) t
  (float? (head ++ more)).map fun v => (v, rest)

def isFloatMark (b : UInt8) : Bool := b == byte '.' || b == byte 'e' || b == byte 'E'

/-- A decimal number, of which `head` is already read. -/
def decimal? (head t : Text) : Option (Term × Text) :=
  let (more, rest) := spanBytes (fun b => isDigitByte b || b == byte '_') t
  let head := head ++ more
  match rest with
  | b :: rest' =>
    if isFloatMark b then floatToken? (head ++ [b]) rest'
    else (integer? head).map fun v => (v, rest)
  | [] => (integer? head).map fun v => (v, [])

def digits? (t : Text) : Option (Term × Text) :=
  let (head, rest) := spanBytes isDigitByte t
  match rest with
  | [] => (integer? head).map fun v => (v, [])
  | b :: rest' =>
    if head = "0" ∧ (b = byte 'b' ∨ b = byte 'o' ∨ b = byte 'x') then
      let (more, rest'') := spanBytes (fun c => c == byte '_' || isDigitOf b c) rest'
      if more.head?.any (isDigitOf b) then
        (integer? (head ++ [b] ++ more)).map fun v => (v, rest'')
      else none
    else if b = byte '-' ∨ b = byte ':' then datetime? (head ++ [b]) rest'
    else if b = byte '_' then decimal? (head ++ [b]) rest'
    else if isFloatMark b then floatToken? (head ++ [b]) rest'
    else (integer? head).map fun v => (v, rest)
where
  isDigitOf (base c : UInt8) : Bool :=
    if base = byte 'x' then isHexByte c
    else if base = byte 'o' then byte '0' ≤ c && c ≤ byte '7'
    else c = byte '0' || c = byte '1'

def signed? (sign : UInt8) (t : Text) : Option (Term × Text) :=
  match afterPrefix? "inf" t, afterPrefix? "nan" t with
  | some rest, _ => some (.float, rest)
  | _, some rest => some (.float, rest)
  | none, none =>
    match t with
    | d :: rest =>
      let based := d = byte '0' ∧ rest.head?.any fun b => b = byte 'b' ∨ b = byte 'o' ∨ b = byte 'x'
      if isDigitByte d ∧ ¬ based then decimal? [sign, d] rest else none
    | [] => none

/-- The UTF-8 bytes of the character with the given code point, if there is one. -/
def encodeChar? (n : Nat) : Option Text :=
  if h : n.isValidChar then some (String.utf8EncodeChar (Char.ofNatAux n h)) else none

/-- The character whose code point the first `n` hexadecimal digits of the text spell. -/
def codePoint? (n : Nat) (t : Text) : Option (Text × Text) :=
  let digits := t.take n
  if digits.length = n ∧ digits.all isHexByte then
    (encodeChar? (digits.foldl (fun m b => m * 16 + (hexValue? b).getD 0) 0)).map
      fun c => (c, t.drop n)
  else none

/-- What stands for the escape sequence that follows a backslash. -/
def escape? : Text → Option (Text × Text)
  | [] => none
  | b :: t =>
    if b = byte 'b' then some ([0x08], t)
    else if b = byte 't' then some ([0x09], t)
    else if b = byte 'n' then some ([0x0A], t)
    else if b = byte 'f' then some ([0x0C], t)
    else if b = byte 'r' then some ([0x0D], t)
    else if b = byte 'e' then some ([0x1B], t)
    else if b = byte '"' then some ([b], t)
    else if b = byte '\\' then some ([b], t)
    else if b = byte 'x' then codePoint? 2 t
    else if b = byte 'u' then codePoint? 4 t
    else if b = byte 'U' then codePoint? 8 t
    else none

/-- A string up to its closing quote. The bound is the length of the text. -/
def basic? : (bound : Nat) → (done : List Text) → Text → Option (Text × Text)
  | 0, _, _ => none
  | _ + 1, _, [] => none
  | bound + 1, done, b :: t =>
    if b = byte '"' then some (done.reverse.flatten, t)
    else if isNewline b then none
    else if b = byte '\\' then
      match escape? t with
      | some (s, t) => basic? bound (s :: done) t
      | none => none
    else basic? bound ([b] :: done) t

/-- A string without escapes up to its closing quote. -/
def literal? (t : Text) : Option (Text × Text) :=
  let (s, rest) := spanBytes (fun b => b != byte '\'' && !isNewline b) t
  match rest with
  | b :: rest => if b = byte '\'' then some (s, rest) else none
  | [] => none

def dropNewline : Text → Text
  | a :: t =>
    if a = byte '\n' then t
    else
      match t with
      | b :: t' => if a = byte '\r' ∧ b = byte '\n' then t' else a :: t
      | [] => [a]
  | [] => []

/-- What a run of `n` quotes means in a string of several lines: up to two quotes belong to the
string; three close it, after up to two more that belong to it. -/
inductive QuoteRun where
  | content
  | close (content : Nat)
  | tooLong
  deriving DecidableEq

def quoteRun (n : Nat) : QuoteRun :=
  if n < 3 then .content else if n ≤ 5 then .close (n - 3) else .tooLong

/-- A string of several lines up to its three closing quotes. With `escapes`, a backslash starts an
escape, and one before the end of a line takes the white space that follows. The bound is the length
of the text. -/
def multiline? (escapes : Bool) (mark : UInt8) :
    (bound : Nat) → (done : List Text) → Text → Option (Text × Text)
  | 0, _, _ => none
  | _ + 1, _, [] => none
  | bound + 1, done, b :: t =>
    if b = mark then
      let (run, rest) := spanBytes (· == mark) (b :: t)
      match quoteRun run.length with
      | .content => multiline? escapes mark bound (run :: done) rest
      | .close n => some ((run.take n :: done).reverse.flatten, rest)
      | .tooLong => none
    else if escapes && b == byte '\\' then
      let (blank, rest) := spanBytes (fun c => isBlank c || isNewline c) t
      if blank.contains (byte '\n') then multiline? escapes mark bound done rest
      else
        match escape? t with
        | some (s, t) => multiline? escapes mark bound (s :: done) t
        | none => none
    else multiline? escapes mark bound ([b] :: done) t

def string? (mark : UInt8) (t : Text) : Option (Text × Text) :=
  let escapes := mark == byte '"'
  match afterPrefix? [mark, mark] t with
  | some t =>
    let t := dropNewline t
    multiline? escapes mark (t.length + 1) [] t
  | none => if escapes then basic? (t.length + 1) [] t else literal? t

def bool? (t : Text) : Option (Term × Text) :=
  match afterPrefix? "true" t, afterPrefix? "false" t with
  | some rest, _ => some (.bool true, rest)
  | _, some rest => some (.bool false, rest)
  | none, none => none

def scalar? (t : Text) : Option (Term × Text) :=
  match t with
  | [] => none
  | b :: rest =>
    if isDigitByte b then digits? t
    else if b = byte '"' ∨ b = byte '\'' then (string? b rest).map fun (s, rest) => (.str s, rest)
    else if b = byte '+' ∨ b = byte '-' then signed? b rest
    else
      match afterPrefix? "inf" t, afterPrefix? "nan" t with
      | some rest, _ => some (.float, rest)
      | _, some rest => some (.float, rest)
      | none, none => bool? t

end Toml

end StackCode
