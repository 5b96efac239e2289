import StackCode.Disk
import StackCode.Program.Format
import StackCode.Resolver.Basic

/-!
# Loader

A loader turns module names into verified programs. What it has loaded it keeps, whatever happens to
the files.
-/

namespace StackCode

open Text

/-- A verified program that was loaded by name. -/
structure LoadedModule where
  name : Text
  path : Text
  format : Format
  program : Program
  /-- The exported symbols with the numbers of their functions. -/
  exports : List (Text × Nat)

namespace LoadedModule

def export? (m : LoadedModule) (symbol : Text) : Option Nat := m.exports.lookup symbol

def sortedExports (m : LoadedModule) : List (Text × Nat) :=
  m.exports.mergeSort fun a b => !before b.1 a.1

end LoadedModule

/-- The symbols of a program with the numbers of their functions, each symbol once; the error is the
first symbol without a function. -/
def Program.exports (p : Program) : Except Text (List (Text × Nat)) :=
  p.symbols.foldlM (fun exports symbol =>
    match p.indexOf? symbol with
    | none => .error symbol
    | some i =>
      .ok (if exports.any fun (s, _) => s = symbol then exports else exports ++ [(symbol, i)])) []

structure Loader where
  resolver : Resolver
  modules : List LoadedModule := []

namespace Loader

inductive Error where
  | resolve (e : ResolveError)
  | read (name : Text) (e : FileError)
  | decode (name path : Text) (e : Program.LoadError)
  | verify (name path : Text) (e : Program.VerifyError)
  | missingFunction (name symbol : Text)

def Error.message : Error → Text
  | resolve e => e.message
  | read name e => "loading " ++ name ++ ": " ++ e.message
  | decode name path e => "loading " ++ name ++ " from " ++ path ++ ": " ++ e.message
  | verify name path e => "loading " ++ name ++ " from " ++ path ++ ": " ++ e.message
  | missingFunction name symbol =>
    "loading " ++ name ++ ": exported symbol " ++ quote symbol ++ " has no function"

def loadFrom (d : Disk) (name path : Text) : Except Error LoadedModule := do
  let data ← (d.read path).mapError (.read name)
  let (program, format) ← (Program.load data).mapError (.decode name path)
  program.verify.mapError (.verify name path)
  let exports ← program.exports.mapError (.missingFunction name)
  return { name, path, format, program, exports }

def loaded? (l : Loader) (name : Text) : Option LoadedModule := l.modules.find? (·.name = name)

/-- The module of a name. A name that was loaded before has the module of then. -/
def load (l : Loader) (d : Disk) (name : Text) : Except Error LoadedModule × Loader :=
  match l.loaded? name with
  | some m => (.ok m, l)
  | none =>
    match l.resolver.resolve d.isPresent name with
    | (.error e, r) => (.error (.resolve e), { l with resolver := r })
    | (.ok path, r) =>
      match loadFrom d name path with
      | .error e => (.error e, { l with resolver := r })
      | .ok m => (.ok m, ⟨r, m :: l.modules⟩)

def loaded (l : Loader) : List Text := Text.sort (l.modules.map (·.name))

/-- The loader that has forgotten its modules and their paths. -/
def clear (l : Loader) : Loader := ⟨l.resolver.clear, []⟩

end Loader

end StackCode
