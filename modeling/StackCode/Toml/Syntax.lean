import StackCode.Text.Rune

/-!
# Configuration documents

The shape of a configuration document as it is written: lines that open tables and lines that give
keys a value.
-/

namespace StackCode

namespace Toml

abbrev Key := List Text

inductive Term where
  | str (s : Text)
  | int (n : Int64)
  | float
  | bool (b : Bool)
  | datetime
  | array (elems : List Term)
  | inline (pairs : List (Key × Term))

inductive Line where
  | table (key : Key)
  /-- Opens a further table of a list. -/
  | element (key : Key)
  | assign (key : Key) (value : Term)

end Toml

end StackCode
