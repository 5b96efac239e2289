import StackCode.Command.Line
import StackCode.Command.Project

/-!
# Inputs of a command

Which files a command may look at. They follow from the command line and from the manifest of the
project, so that they can be fetched before the command is performed.
-/

namespace StackCode

open Text

namespace Command

/-- Which files a command may look at. -/
structure Inputs where
  files : List Text := []
  sources : Option Text := none

def projectDir (cwd : Text) (s : Settings) : Text := Path.absolute cwd ((s.text? "dir").getD ".")

def manifestFiles (dir : Text) : List Text :=
  (Path.ancestors dir).map fun d => Path.join [d, Manifest.fileName]

def namedFiles (cwd : Text) (r : Resolver) (name : Text) : List Text :=
  let candidates := match ModuleName.read name with
    | .ok n => r.candidates n
    | .error _ => []
  Path.absolute cwd name :: candidates

/-- What a command may look at, apart from the manifest that was found. -/
def inputs (d : Disk) (task : Task) (s : Settings) (arguments : List Text) : Inputs :=
  let dir := projectDir d.cwd s
  let manifest := ((Manifest.find d dir).toOption.getD none).getD { dir }
  let r := (manifest.resolver d.cwd).toOption.getD (Resolver.new d.cwd manifest.dir)
  let cache := (s.text? "cache").getD manifest.cachePath
  { files := (if cache.isEmpty then [] else [Path.absolute d.cwd cache]) ++
      arguments.flatMap (namedFiles d.cwd r)
    sources := if task = .build && arguments.isEmpty then some manifest.dir else none }

end Command

end StackCode
