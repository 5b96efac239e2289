/-!
# Byte text

Names, messages and string constants are sequences of bytes. They are nearly always UTF-8, but every
byte sequence is allowed, so a text is a list of bytes and not a `String`.
-/

namespace StackCode

/-- A text: any sequence of bytes. -/
abbrev Text := List UInt8

namespace Text

def ofString (s : String) : Text :=
  s.toList.flatMap String.utf8EncodeChar

instance : Coe String Text := ⟨ofString⟩

/-- The byte of an ASCII character. -/
def byte (c : Char) : UInt8 := c.toNat.toUInt8

def ofNat (n : Nat) : Text :=
  (Nat.toDigits 10 n).map byte

/-- An integer in decimal, with a sign only when it is negative. -/
def ofInt (n : Int) : Text :=
  if n < 0 then byte '-' :: ofNat n.natAbs else ofNat n.natAbs

def hexDigit (n : Nat) : UInt8 :=
  if n < 10 then (48 + n).toUInt8 else (87 + n).toUInt8

/-- The lowest `width` hexadecimal digits of `n`, in lower case. -/
def hexOfNat : (width : Nat) → (n : Nat) → Text
  | 0, _ => []
  | width + 1, n => hexOfNat width (n / 16) ++ [hexDigit (n % 16)]

def hexOfByte (b : UInt8) : Text := hexOfNat 2 b.toNat

def toHex (t : Text) : Text := t.flatMap hexOfByte

/-- A natural number in upper-case hexadecimal, with zeros before it up to the given width. -/
def hexUpper (width : Nat) (n : Nat) : Text :=
  let digits := (Nat.toDigits 16 n).map fun c => byte c.toUpper
  List.replicate (width - digits.length) (byte '0') ++ digits

/-- An integer in upper-case hexadecimal; the width counts the sign too. -/
def hexUpperInt (width : Nat) (n : Int) : Text :=
  if n < 0 then byte '-' :: hexUpper (width - 1) n.natAbs else hexUpper width n.natAbs

/-- An integer in decimal, always with a sign. -/
def signed (n : Int) : Text :=
  if n < 0 then ofInt n else byte '+' :: ofInt n

/-- The value of a hexadecimal digit of either case. -/
def hexValue? (b : UInt8) : Option Nat :=
  if byte '0' ≤ b ∧ b ≤ byte '9' then some (b.toNat - 48)
  else if byte 'a' ≤ b ∧ b ≤ byte 'f' then some (b.toNat - 87)
  else if byte 'A' ≤ b ∧ b ≤ byte 'F' then some (b.toNat - 55)
  else none

def isDigitByte (b : UInt8) : Bool := byte '0' ≤ b && b ≤ byte '9'

/-- An ASCII letter in lower case; every other byte is kept. -/
def lowerByte (b : UInt8) : UInt8 :=
  if byte 'A' ≤ b ∧ b ≤ byte 'Z' then b + 32 else b

def toLower (t : Text) : Text := t.map lowerByte

/-- The texts one after the other, with `sep` between neighbours. -/
def join (sep : Text) : List Text → Text
  | [] => []
  | [t] => t
  | t :: ts => t ++ sep ++ join sep ts

/-- The pieces between the occurrences of a byte. There is always at least one piece. -/
def splitOn (sep : UInt8) (t : Text) : List Text :=
  let (piece, pieces) := t.foldr
    (fun b (piece, pieces) => if b = sep then ([], piece :: pieces) else (b :: piece, pieces))
    (([], []) : Text × List Text)
  piece :: pieces

/-- The part before the first occurrence of a byte and the part after it. -/
def cut (sep : UInt8) : Text → Option (Text × Text)
  | [] => none
  | b :: t => if b = sep then some ([], t) else (cut sep t).map fun (l, r) => (b :: l, r)

/-- The part before the last occurrence of a byte and the part after it. -/
def cutLast (sep : UInt8) (t : Text) : Option (Text × Text) :=
  (cut sep t.reverse).map fun (r, l) => (l.reverse, r.reverse)

/-- The text without `tail` if it ends so. -/
def dropSuffix (tail : Text) (t : Text) : Text :=
  if tail.isSuffixOf t then t.take (t.length - tail.length) else t

/-- What follows `head` in a text that starts so. -/
def afterPrefix? (head : Text) (t : Text) : Option Text :=
  if head.isPrefixOf t then some (t.drop head.length) else none

def hasPart (part : Text) : Text → Bool
  | [] => part.isEmpty
  | b :: t => part.isPrefixOf (b :: t) || hasPart part t

/-- The text with every occurrence of `old`, found from the left, replaced. -/
def replace (old new : Text) (t : Text) : Text :=
  if old.isEmpty then t else go 0 t
where
  go : Nat → Text → Text
    | _, [] => []
    | skip + 1, _ :: t => go skip t
    | 0, b :: t =>
      if old.isPrefixOf (b :: t) then new ++ go (old.length - 1) t else b :: go 0 t

/-- Bytewise order: a text comes before every text that it starts. -/
def before : Text → Text → Bool
  | _, [] => false
  | [], _ :: _ => true
  | a :: s, b :: t => a < b || (a = b && before s t)

def sort (ts : List Text) : List Text :=
  ts.mergeSort fun s t => !before t s

/-- The text followed by blanks up to the given width. -/
def padRight (width : Nat) (t : Text) : Text :=
  t ++ List.replicate (width - t.length) (byte ' ')

/-- The text after blanks up to the given width. -/
def padLeft (width : Nat) (t : Text) : Text :=
  List.replicate (width - t.length) (byte ' ') ++ t

end Text

end StackCode
