import StackCode.Text.Printable

/-!
# Quoted text

A text between double quotes, with escapes for what cannot be shown. Reading also accepts a single
character between single quotes and raw text between backquotes.
-/

namespace StackCode

namespace Text

/-- The letter that follows the backslash in the short escape of a control character. -/
def shortEscape? (n : Nat) : Option Char :=
  match n with
  | 7 => some 'a'
  | 8 => some 'b'
  | 12 => some 'f'
  | 10 => some 'n'
  | 13 => some 'r'
  | 9 => some 't'
  | 11 => some 'v'
  | _ => none

/-- A rune as it stands between double quotes: a stray byte by its value, a quote or backslash after
a backslash, a printable character as it is, and any other by an escape. -/
def escapeRune : Rune → Text
  | .stray b => [byte '\\', byte 'x'] ++ hexOfByte b
  | .scalar c =>
    let n := c.toNat
    if c = '"' ∨ c = '\\' then [byte '\\', byte c]
    else if isPrintableCode n then String.utf8EncodeChar c
    else match shortEscape? n with
      | some e => [byte '\\', byte e]
      | none =>
        if n < 0x20 ∨ n = 0x7F then [byte '\\', byte 'x'] ++ hexOfNat 2 n
        else if n < 0x10000 then [byte '\\', byte 'u'] ++ hexOfNat 4 n
        else [byte '\\', byte 'U'] ++ hexOfNat 8 n

def quote (t : Text) : Text :=
  byte '"' :: (t.runes.flatMap escapeRune ++ [byte '"'])

/-- The value of the first `n` bytes, each a digit of the given base, and what follows them. -/
def takeDigits (base : Nat) : (n : Nat) → (acc : Nat) → Text → Option (Nat × Text)
  | 0, acc, t => some (acc, t)
  | _ + 1, _, [] => none
  | n + 1, acc, b :: t =>
    match hexValue? b with
    | some d => if d < base then takeDigits base n (acc * base + d) t else none
    | none => none

/-- Code points that are characters: neither surrogates nor beyond the last plane. -/
def isScalarCode (n : Nat) : Bool := n < 0xD800 || (0xDFFF < n && n ≤ 0x10FFFF)

/-- What an escape stands for, read after its backslash, and what follows it. -/
def takeEscape (quote : UInt8) : Text → Option (Text × Text)
  | [] => none
  | b :: t =>
    match Char.ofNat b.toNat with
    | 'a' => some ([7], t)
    | 'b' => some ([8], t)
    | 'f' => some ([12], t)
    | 'n' => some ([10], t)
    | 'r' => some ([13], t)
    | 't' => some ([9], t)
    | 'v' => some ([11], t)
    | '\\' => some ([b], t)
    | 'x' => (takeDigits 16 2 0 t).map fun (n, t) => ([n.toUInt8], t)
    | 'u' => (takeDigits 16 4 0 t).bind unicode
    | 'U' => (takeDigits 16 8 0 t).bind unicode
    | _ =>
      if b = byte '\'' ∨ b = byte '"' then (if b = quote then some ([b], t) else none)
      else (takeDigits 8 3 0 (b :: t)).bind fun (n, t) =>
        if n < 256 then some ([n.toUInt8], t) else none
where
  unicode : Nat × Text → Option (Text × Text)
    | (n, t) => if isScalarCode n then some (String.utf8EncodeChar (Char.ofNat n), t) else none

/-- What the first character or escape of a quoted text stands for, and what follows it. A stray
byte stands for the replacement character. -/
def takeUnit (quote : UInt8) : Text → Option (Text × Text)
  | [] => none
  | b :: t =>
    if b = byte '\n' then none
    else if b = byte '\\' then takeEscape quote t
    else match Rune.lead b t with
      | .scalar c => some (String.utf8EncodeChar c, t.drop ((Rune.scalar c).width - 1))
      | .stray _ => some (String.utf8EncodeChar (Char.ofNat 0xFFFD), t)

/-- At most `fuel` characters or escapes, then the closing quote: what they stand for, and what
follows the quote. -/
def takeUnits (quote : UInt8) : (fuel : Nat) → (acc : Text) → Text → Option (Text × Text)
  | _, _, [] => none
  | fuel, acc, b :: t =>
    if b = quote then some (acc.reverse, t)
    else match fuel with
      | 0 => none
      | fuel + 1 =>
        match takeUnit quote (b :: t) with
        | none => none
        | some (unit, rest) => takeUnits quote fuel (unit.reverse ++ acc) rest

/-- The literal that starts the text: what it stands for, and what follows it. Between single quotes
at most one character stands; between backquotes carriage returns are dropped. -/
def takeLiteral : Text → Option (Text × Text)
  | [] => none
  | q :: t =>
    if q = byte '"' then takeUnits q t.length [] t
    else if q = byte '\'' then takeUnits q 1 [] t
    else if q = byte '\x60' then
      (cut q t).map fun (raw, rest) => (raw.filter (· ≠ byte '\r'), rest)
    else none

/-- The literal that starts the text, as it is written there. -/
def leadingLiteral? (t : Text) : Option Text :=
  (takeLiteral t).map fun (_, rest) => t.take (t.length - rest.length)

/-- What a text stands for that is one literal and nothing else. -/
def unquote? (t : Text) : Option Text :=
  match takeLiteral t with
  | some (content, []) => some content
  | _ => none

end Text

end StackCode
