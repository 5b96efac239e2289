import StackCode.Text.Quoted

/-!
# Words of a line

A line of a module's text is split at blanks. A text between double quotes is one word, whatever it
holds, and a comment runs from `#` or `;` to the end of the line.
-/

namespace StackCode

open Text

namespace Words

def isBlank (b : UInt8) : Bool := b = byte ' ' || b = byte '\t' || b = byte '\r'

def startsComment (b : UInt8) : Bool := b = byte '#' || b = byte ';'

def isPlain (b : UInt8) : Bool := !isBlank b && !startsComment b && b != byte '"'

/-- The words of a text, in at most `fuel` steps. None if a quoted word does not end. -/
def scanWith : (fuel : Nat) → Text → Option (List Text)
  | _, [] => some []
  | 0, _ :: _ => none
  | fuel + 1, b :: t =>
    if isBlank b then scanWith fuel t
    else if startsComment b then some []
    else if b = byte '"' then
      match leadingLiteral? (b :: t) with
      | none => none
      | some w => (scanWith fuel ((b :: t).drop w.length)).map (w :: ·)
    else
      (scanWith fuel (t.dropWhile isPlain)).map ((b :: t.takeWhile isPlain) :: ·)

/-- The words of a line, none if a quoted word does not end. Each step takes at least one byte. -/
def scan (line : Text) : Option (List Text) := scanWith line.length line

end Words

end StackCode
