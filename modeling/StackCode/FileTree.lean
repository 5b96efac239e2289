import StackCode.Path

/-!
# File trees

Files and directories by their places. A place is the list of names from the root down.
-/

namespace StackCode

open Text

/-- What stands at a place: a directory, or a file with its content. -/
inductive Node where
  | directory
  | file (content : Text)
  deriving DecidableEq, Repr

/-- The nodes of a file system. The root is a directory and is not listed. -/
structure FileTree where
  nodes : List (List Text × Node) := []
  deriving DecidableEq, Repr

namespace FileTree

def node? (t : FileTree) (place : List Text) : Option Node :=
  if place = [] then some .directory else t.nodes.lookup place

def put (t : FileTree) (place : List Text) (n : Node) : FileTree :=
  ⟨(place, n) :: t.nodes.filter fun (q, _) => q ≠ place⟩

/-- The tree without a place and all that is below it. -/
def erase (t : FileTree) (place : List Text) : FileTree :=
  ⟨t.nodes.filter fun (q, _) => !place.isPrefixOf q⟩

def hasEntries (t : FileTree) (place : List Text) : Bool :=
  t.nodes.any fun (q, _) => place.isPrefixOf q && q ≠ place

/-- The order of a walk: a directory comes before what it holds, and its entries come in the order
of their names. -/
def walksBefore : List Text → List Text → Bool
  | _, [] => false
  | [], _ :: _ => true
  | a :: s, b :: t => before a b || (a = b && walksBefore s t)

/-- The places below `base` that `p` selects, in the order of a walk. -/
def walk (t : FileTree) (base : List Text) (p : List Text → Node → Bool) : List (List Text) :=
  ((t.nodes.filter fun (q, n) => base.isPrefixOf q && q ≠ base && p q n).map Prod.fst).mergeSort
    fun a b => !walksBefore b a

end FileTree

end StackCode
