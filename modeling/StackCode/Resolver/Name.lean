import StackCode.Text.Quoted

/-!
# Names of modules

A module is named by a kind and a path, as in `library:text/lines`, or directly by a path.
-/

namespace StackCode

open Text

inductive ModuleKind where
  | module
  | library
  | package
  | system
  | extension
  | assets
  deriving DecidableEq, Repr

namespace ModuleKind

def all : List ModuleKind := [module, library, package, system, extension, assets]

def name : ModuleKind → Text
  | module => "module"
  | library => "library"
  | package => "package"
  | system => "system"
  | extension => "extension"
  | assets => "assets"

def ofName? (w : Text) : Option ModuleKind := all.find? fun k => k.name = w

/-- The directories below the root of a project that are searched first, in order. -/
def defaultRoots : ModuleKind → List Text
  | module => ["src", "modules"]
  | library => ["lib", "libraries"]
  | package => ["packages", "node_modules", "vendor"]
  | system => ["runtime", "stdlib"]
  | extension => ["extensions", "packages"]
  | assets => ["assets", "public", "static"]

end ModuleKind

inductive ResolveError where
  | unknownPrefix (name kind : Text)
  | notInRoots (name : Text) (kind : ModuleKind) (path : Text)
  | notBelow (name cwd : Text)
  deriving DecidableEq, Repr

namespace ResolveError

inductive Kind where
  | unknownPrefix
  | moduleNotFound
  deriving DecidableEq, Repr

/-- All kinds in the order of their numbers, which start at one. -/
def Kind.all : List Kind := [.unknownPrefix, .moduleNotFound]

def Kind.name : Kind → Text
  | unknownPrefix => "UnknownPrefix"
  | moduleNotFound => "ModuleNotFound"

def Kind.ofNumber? (n : Int) : Option Kind := if n < 1 then none else Kind.all[(n - 1).toNat]?

def Kind.nameOfNumber (n : Int) : Text :=
  match Kind.ofNumber? n with
  | some k => k.name
  | none => "ResolveErrorKind(" ++ Text.ofInt n ++ ")"

def kind : ResolveError → Kind
  | unknownPrefix _ _ => .unknownPrefix
  | notInRoots _ _ _ | notBelow _ _ => .moduleNotFound

def name : ResolveError → Text
  | unknownPrefix name _ | notInRoots name _ _ | notBelow name _ => name

/-- What the name has before its first colon, empty if it has none. -/
def kindWord : ResolveError → Text
  | unknownPrefix _ word => word
  | notInRoots _ kind _ => kind.name
  | notBelow _ _ => []

def reason : ResolveError → Text
  | unknownPrefix name word => "unknown module prefix " ++ quote word ++ " in " ++ quote name
  | notInRoots _ kind path => "module " ++ quote path ++ " not found in " ++ kind.name ++ " paths"
  | notBelow name cwd => "module " ++ quote name ++ " not found relative to " ++ cwd

def message (e : ResolveError) : Text := "resolve: " ++ e.kind.name ++ ": " ++ e.reason

end ResolveError

/-- A module name taken apart. -/
inductive ModuleName where
  /-- A path relative to the working directory. -/
  | direct (path : Text)
  | qualified (kind : ModuleKind) (path : Text)
  deriving DecidableEq, Repr

namespace ModuleName

/-- Reads a name; what stands before its first colon has to be a kind. -/
def read (name : Text) : Except ResolveError ModuleName :=
  match cut (byte ':') name with
  | none => .ok (.direct name)
  | some (word, path) =>
    match ModuleKind.ofName? word with
    | some kind => .ok (.qualified kind path)
    | none => .error (.unknownPrefix name word)

/-- The name of the kind, empty for a direct name. -/
def kindName : ModuleName → Text
  | direct _ => []
  | qualified kind _ => kind.name

def path : ModuleName → Text
  | direct path | qualified _ path => path

end ModuleName

end StackCode
