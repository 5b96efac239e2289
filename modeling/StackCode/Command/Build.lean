import StackCode.Command.Project

/-!
# Building

Sources become stored programs. Below an output directory the programs of a project have the layout
of its sources; elsewhere each one stands beside its source.
-/

namespace StackCode

open Text

namespace Command

/-- The names that lead from a directory to a place below it, the last one left out. -/
def folders (base place : List Text) : List Text := (place.drop base.length).dropLast

/-- The sources below a directory, in the order of a walk. Hidden directories are left out. -/
def sourceFiles (t : FileTree) (dir : Text) : List Text :=
  let base := Path.parts dir
  let isSource (place : List Text) (n : Node) : Bool :=
    n ≠ .directory && Path.extension (place.getLastD []) = sourceSuffix &&
      (folders base place).all fun name => name.head? != some (byte '.')
  (t.walk base isSource).map fun place => Path.join (dir :: place.drop base.length)

/-- Where the program of a source goes. A single source may have its output file named; otherwise
the name is that of a directory. -/
def outputPath (cwd : Text) (p : Project) (output : Text) (single : Bool) (source : Text) : Text :=
  let beside := dropSuffix (Path.extension source) source ++ programSuffix
  let dir := if output.isEmpty then
      match p.manifest with
      | some m => if m.output.isEmpty then [] else Path.join [p.dir, m.output]
      | none => []
    else output
  if single && !output.isEmpty then output
  else if dir.isEmpty then beside
  else
    let absolute := Path.absolute cwd beside
    let below := Path.relative p.dir absolute
    -- also a name that starts with two dots is taken for a way up
    Path.join [dir, if (Text.ofString "..").isPrefixOf below then Path.base absolute else below]

def compileModules (optimize : Bool) (cache : Option Cache) (ms : List Module) :
    List Compile.Outcome × Option Cache :=
  match cache with
  | none => ((Module.compileEach optimize ms).map Prod.snd, none)
  | some c =>
    let (outcomes, c) := ms.foldl
      (fun (outcomes, c) m =>
        let (r, c) := Cache.compile c optimize m
        (r.outcome :: outcomes, c)) (([] : List Compile.Outcome), c)
    (outcomes.reverse, some c)

/-- Stores the program of a source. The result says whether that was possible. -/
def storeProgram (o : Options) (p : Project) (format : Format) (single : Bool) (source : Text)
    (outcome : Compile.Outcome) : Action Bool := do
  match outcome.result.mapError Server.diagnostics with
  | .error problems =>
    report o.colours source problems
    return false
  | .ok program =>
    let d ← disk
    let target := outputPath d.cwd p ((o.settings.text? "output").getD []) single source
    match program.store format with
    | .error e =>
      report o.colours source [e.message]
      return false
    | .ok data =>
      let d ← orFail FileError.message (d.makeDirectories (Path.parent target))
      setDisk d
      setDisk (← orFail (fun e => "writing " ++ target ++ ": " ++ FileError.message e)
        (d.write target data))
      print (paint o.colours .green "built" ++ " " ++ source ++ " -> " ++ target ++ "\n")
      return true

def build (o : Options) (arguments : List Text) : Action Unit := do
  let p ← Project.load o
  let files ← if !arguments.isEmpty then pure arguments else do
    if p.manifest.isNone then
      throw ("no input files and no " ++ Manifest.fileName ++ " found")
    match sourceFiles (← disk).tree p.dir with
    | [] => throw ("no " ++ sourceSuffix ++ " files under " ++ p.dir)
    | files => pure files
  let format ← p.format o
  let cache ← p.openCache o
  let d ← disk
  let mut sources : List (Text × Module) := []
  let mut failed := 0
  for file in files do
    match readModule d file with
    | .ok m => sources := sources ++ [(file, m)]
    | .error problems =>
      report o.colours file problems
      failed := failed + 1
  let (outcomes, cache) := compileModules (p.optimize o) cache (sources.map Prod.snd)
  Project.saveCache cache
  for ((source, _), outcome) in sources.zip outcomes do
    unless ← storeProgram o p format (files.length = 1) source outcome do
      failed := failed + 1
  if failed ≠ 0 then
    throw (Text.ofNat failed ++ " of " ++ Text.ofNat files.length ++ " modules failed to build")

end Command

end StackCode
