import StackCode.Path
import StackCode.Resolver.Name

/-!
# Resolver

A resolver finds the file of a module: it probes the roots of the module's kind in order, and in
each root a fixed list of file names. What it has found it keeps, whatever happens to the files.
-/

namespace StackCode

open Text

def programSuffix : Text := ".velac"

def sourceSuffix : Text := ".vela"

structure Resolver where
  root : Text
  /-- The directory that direct names are relative to. -/
  cwd : Text
  /-- The roots to search, by the name of a kind, in order of precedence. -/
  roots : List (Text × List Text)
  /-- The names found so far, with their paths. -/
  found : List (Text × Text) := []
  deriving DecidableEq, Repr

namespace Resolver

/-- A resolver with the default roots below the given one. Relative paths count from `cwd`. -/
def new (cwd root : Text) : Resolver :=
  let root := Path.absolute cwd root
  { root, cwd
    roots := ModuleKind.all.map fun k =>
      (k.name, k.defaultRoots.map fun d => Path.join [root, d]) }

def withCwd (r : Resolver) (base dir : Text) : Resolver := { r with cwd := Path.absolute base dir }

def searchPaths (r : Resolver) (kind : Text) : List Text := (r.roots.lookup kind).getD []

/-- The resolver with a further root for a kind, below the project if it is relative. -/
def addSearchPath (r : Resolver) (kind dir : Text) : Resolver :=
  let dir := if Path.isAbsolute dir then Path.clean dir else Path.join [r.root, dir]
  let rest := r.roots.filter fun (k, _) => k ≠ kind
  { r with roots := (kind, r.searchPaths kind ++ [dir]) :: rest }

/-- The file names probed in a root, in order. -/
def probeNames (path : Text) : List Text :=
  [path ++ programSuffix, Path.join [path, "mod" ++ programSuffix],
    Path.join [path, "index" ++ programSuffix], path ++ sourceSuffix, path]

/-- The paths where a module may be, in the order of probing. -/
def candidates (r : Resolver) : ModuleName → List Text
  | .direct path =>
    let base := if Path.isAbsolute path then path else Path.join [r.cwd, path]
    [base, base ++ programSuffix]
  | .qualified .assets path =>
    (r.searchPaths ModuleKind.assets.name).map fun root => Path.join [root, path]
  | .qualified kind path =>
    (r.searchPaths kind.name).flatMap fun root =>
      (probeNames path).map fun name => Path.join [root, name]

/-- The candidate as the answer to a resolution. -/
def answer : ModuleName → Text → Text
  | .direct _, p => Path.clean p
  | .qualified _ _, p => p

def missing (r : Resolver) (name : Text) : ModuleName → ResolveError
  | .direct _ => .notBelow name r.cwd
  | .qualified kind path => .notInRoots name kind path

/-- The path of a module by probing alone. -/
def search (r : Resolver) (present : Text → Bool) (name : Text) : Except ResolveError Text := do
  let n ← ModuleName.read name
  match (r.candidates n).find? present with
  | some p => return answer n p
  | none => throw (r.missing name n)

/-- The path of a module. A name that was found before has the path of then. -/
def resolve (r : Resolver) (present : Text → Bool) (name : Text) :
    Except ResolveError Text × Resolver :=
  match r.found.lookup name with
  | some p => (.ok p, r)
  | none =>
    match r.search present name with
    | .ok p => (.ok p, { r with found := (name, p) :: r.found })
    -- a name that is not found is looked for again the next time
    | .error e => (.error e, r)

/-- Whether a module has a path. A path that is found is kept here too. -/
def canResolve (r : Resolver) (present : Text → Bool) (name : Text) : Bool × Resolver :=
  let (result, r) := r.resolve present name
  (result.isOk, r)

/-- The paths that a resolution of the name looks at, in order: all candidates up to the first that
is present. -/
def probed (r : Resolver) (present : Text → Bool) (name : Text) : List Text :=
  match r.found.lookup name, ModuleName.read name with
  | none, .ok n =>
    let cs := r.candidates n
    let absent := cs.takeWhile fun p => !present p
    absent ++ (cs.drop absent.length).take 1
  | _, _ => []

def clear (r : Resolver) : Resolver := { r with found := [] }

/-- The names found so far with their paths, in the order of the names. -/
def cached (r : Resolver) : List (Text × Text) :=
  r.found.mergeSort fun a b => !before b.1 a.1

end Resolver

end StackCode
