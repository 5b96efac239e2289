import StackCode.Disk
import StackCode.Manifest

/-!
# Finding manifests

The manifest of a directory is the one in it, or else the nearest one above it.
-/

namespace StackCode

open Text

namespace Manifest

inductive LoadError where
  | unreadable (path : Text) (e : FileError)
  | refused (path : Text) (e : ReadError)
  deriving DecidableEq, Repr

def LoadError.message : LoadError → Text
  | unreadable path e => "cannot read " ++ path ++ ": " ++ e.message
  | refused path e => path ++ ": " ++ e.message

def load (d : Disk) (dir : Text) : Except LoadError Manifest :=
  let path := Path.join [dir, fileName]
  match d.read path with
  | .error e => .error (.unreadable path e)
  | .ok content =>
    match read content with
    | .error e => .error (.refused path e)
    | .ok m => .ok { m with dir := Path.absolute d.cwd dir }

/-- The manifest in a directory or in the nearest one above it, if there is one. -/
def find (d : Disk) (start : Text) : Except LoadError (Option Manifest) :=
  let dirs := Path.ancestors (Path.absolute d.cwd start)
  match dirs.find? fun dir => d.isPresent (Path.join [dir, fileName]) with
  | none => .ok none
  | some dir => (load d dir).map some

end Manifest

end StackCode
