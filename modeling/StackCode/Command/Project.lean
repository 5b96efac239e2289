import StackCode.Cache.File
import StackCode.Command.Flag
import StackCode.Command.Session
import StackCode.Manifest.Load
import StackCode.Module.Reader

/-!
# Projects

Commands work on a project: a directory, and the manifest in it or above it if there is one. What
flags say wins over what the manifest says.
-/

namespace StackCode

open Text

namespace Command

structure Options where
  settings : Settings := []
  colours : Bool := false

structure Project where
  /-- The directory of the manifest, or the one that was asked for. -/
  dir : Text
  manifest : Option Manifest := none

namespace Project

/-- The project of the directory that the flags name, or of the working directory. -/
def load (o : Options) : Action Project := do
  let d ← disk
  let dir := Path.absolute d.cwd ((o.settings.text? "dir").getD ".")
  match ← orFail Manifest.LoadError.message (Manifest.find d dir) with
  | some m => return { dir := m.dir, manifest := some m }
  | none => return { dir }

def resolver (p : Project) : Action Resolver := do
  let cwd := (← disk).cwd
  match p.manifest with
  | none => return Resolver.new cwd p.dir
  | some m => orFail Manifest.unknownKindMessage (m.resolver cwd)

def optimize (p : Project) (o : Options) : Bool :=
  match o.settings.lookup (Text.ofString "optimize") with
  | some v => v = .bool true
  | none => p.manifest.all (·.optimize)

def format (p : Project) (o : Options) : Action Format :=
  let name := (o.settings.text? "format").getD ((p.manifest.map (·.format)).getD [])
  match Format.ofName? name with
  | some f => pure f
  | none => throw (Format.unknownNameMessage name)

def openCache (p : Project) (o : Options) : Action (Option Cache) := do
  let path := (o.settings.text? "cache").getD ((p.manifest.map (·.cachePath)).getD [])
  if o.settings.isOn "no-cache" || path.isEmpty then return none
  let (c, d) ← orFail Cache.OpenError.message (Cache.openFile (← disk) path)
  setDisk d
  return some c

def saveCache (c : Option Cache) : Action Unit := do
  if let some c := c then setDisk (c.save (← disk))

end Project

/-- The module in a source file, or the lines that say what is wrong with it. -/
def readModule (d : Disk) (path : Text) : Except (List Text) Module := do
  let source ← (d.read path).mapError fun e => [e.message]
  (Module.read source).mapError fun mistakes => mistakes.map (·.message)

/-- The program in a file: stored, or compiled from a source. -/
def loadProgram (o : Options) (p : Project) (path : Text) : Action Program := do
  if Path.extension path = sourceSuffix then
    let refuse (problems : List Text) : Action Program := do
      report o.colours path problems
      throw ("cannot compile " ++ path)
    match readModule (← disk) path with
    | .error problems => refuse problems
    | .ok m =>
      let cache ← p.openCache o
      let (c, cache) := Cache.compileWith cache (p.optimize o) m
      Project.saveCache cache
      match c.outcome.result with
      | .ok program => return program
      | .error e => refuse (Server.diagnostics e)
  else
    let data ← orFail FileError.message ((← disk).read path)
    let about (e : Program.LoadError) : Text := path ++ ": " ++ e.message
    let (program, _) ← orFail about (Program.load data)
    return program

end Command

end StackCode
