import StackCode.Text.Basic

/-!
# Taking bytes from the front

Fixed-width numbers and runs of bytes at the start of a text.
-/

namespace StackCode

namespace Text

/-- The first `n` bytes and what follows them, if there are so many. -/
def takeExact? (n : Nat) (t : Text) : Option (Text × Text) :=
  let (front, rest) := t.splitAt n
  if front.length = n then some (front, rest) else none

/-- The number whose bytes stand with the highest first. -/
def bigEndian (t : Text) : Nat := t.foldl (fun n b => n * 256 + b.toNat) 0

/-- The number whose bytes stand with the lowest first. -/
def littleEndian (t : Text) : Nat := t.foldr (fun b n => n * 256 + b.toNat) 0

/-- The lowest `width` bytes of a number, the lowest first. -/
def littleEndianBytes : (width : Nat) → (n : Nat) → Text
  | 0, _ => []
  | width + 1, n => n.toUInt8 :: littleEndianBytes width (n / 256)

/-- The lowest `width` bytes of a number, the highest first. -/
def bigEndianBytes (width : Nat) (n : Nat) : Text := (littleEndianBytes width n).reverse

/-- What `step` reads `n` times, in reverse before `acc`, and what follows. -/
def takeMany {α : Type} (step : Text → Option (α × Text)) :
    (n : Nat) → (acc : List α) → Text → Option (List α × Text)
  | 0, acc, t => some (acc.reverse, t)
  | n + 1, acc, t =>
    match step t with
    | none => none
    | some (a, t) => takeMany step n (a :: acc) t

end Text

end StackCode
