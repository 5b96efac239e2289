import StackCode.Text.Basic

/-!
# Characters of a text

Reading a text as UTF-8 gives a character for every well-formed sequence and keeps each byte that
belongs to none as a stray byte, so that the runes of a text spell it again.
-/

namespace StackCode

/-- A character of a text, or a byte that is part of none. -/
inductive Rune where
  | scalar (c : Char)
  | stray (b : UInt8)
  deriving DecidableEq, Repr

namespace Rune

def bytes : Rune → Text
  | scalar c => String.utf8EncodeChar c
  | stray b => [b]

def width (r : Rune) : Nat := r.bytes.length

def isScalar : Rune → Bool
  | scalar _ => true
  | stray _ => false

/-- A byte that continues a character. -/
def isTail (b : UInt8) : Bool := 0x80 ≤ b && b ≤ 0xBF

def startsThree (b c : UInt8) : Bool :=
  isTail c && (0xE0 ≤ b && b ≤ 0xEF) && !(b == 0xE0 && c < 0xA0) && !(b == 0xED && c > 0x9F)

def startsFour (b c : UInt8) : Bool :=
  isTail c && (0xF0 ≤ b && b ≤ 0xF4) && !(b == 0xF0 && c < 0x90) && !(b == 0xF4 && c > 0x8F)

/-- The code point with the given leading bits and six bits from each further byte. -/
def assemble (lead : Nat) (tail : List UInt8) : Char :=
  Char.ofNat (tail.foldl (fun n b => n * 64 + (b.toNat - 0x80)) lead)

/-- The first rune of the text `b :: rest`. -/
def lead (b : UInt8) (rest : Text) : Rune :=
  if b < 0x80 then scalar (assemble b.toNat [])
  else match rest with
    | [] => stray b
    | c :: rest =>
      if 0xC2 ≤ b && b ≤ 0xDF && isTail c then scalar (assemble (b.toNat - 0xC0) [c])
      else match rest with
        | [] => stray b
        | d :: rest =>
          if startsThree b c && isTail d then scalar (assemble (b.toNat - 0xE0) [c, d])
          else match rest with
            | [] => stray b
            | e :: _ =>
              if startsFour b c && isTail d && isTail e then
                scalar (assemble (b.toNat - 0xF0) [c, d, e])
              else stray b

end Rune

namespace Text

/-- The runes of a text after `skip` bytes of it. -/
def runesFrom : (skip : Nat) → Text → List Rune
  | _, [] => []
  | skip + 1, _ :: t => runesFrom skip t
  | 0, b :: t => Rune.lead b t :: runesFrom ((Rune.lead b t).width - 1) t

def runes (t : Text) : List Rune := runesFrom 0 t

def isUtf8 (t : Text) : Bool := t.runes.all Rune.isScalar

/-- White space: the ASCII blanks, next line, no-break space and the spaces and separators of
other scripts. -/
def isSpaceCode (n : Nat) : Bool :=
  (9 ≤ n && n ≤ 13) || n == 32 || n == 0x85 || n == 0xA0 || n == 0x1680 ||
    (0x2000 ≤ n && n ≤ 0x200A) || n == 0x2028 || n == 0x2029 || n == 0x202F || n == 0x205F ||
    n == 0x3000

def isSpaceRune : Rune → Bool
  | .scalar c => isSpaceCode c.toNat
  | .stray _ => false

def trim (t : Text) : Text :=
  ((((t.runes.dropWhile isSpaceRune).reverse).dropWhile isSpaceRune).reverse).flatMap Rune.bytes

end Text

end StackCode
