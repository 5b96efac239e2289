import StackCode.Command.Inputs
import StackCode.Command.Perform

/-!
# The command line tool

The files that a command may look at are fetched, the command is performed on them, and the files
that it changed are written back.
-/

namespace StackCode

open Text

def Text.toName (t : Text) : String := (String.fromUTF8? ⟨t.toArray⟩).getD ""

/-- Puts a directory and those above it on the disk. -/
def Disk.withDirectory (d : Disk) (p : Text) : Disk := (d.makeDirectories p).toOption.getD d

def fetch (d : Disk) (p : Text) : IO Disk := do
  let path := (← IO.currentDir) / p.toName
  if ← path.isDir then return d.withDirectory p
  else if ← path.pathExists then
    let content := (← IO.FS.readBinFile path).data.toList
    let d := d.withDirectory (Path.parent p)
    return (d.write p content).toOption.getD d
  else return d

/-- Fetches the sources below a directory, down to the given depth. -/
def fetchSources : (depth : Nat) → Disk → Text → IO Disk
  | 0, d, _ => return d
  | depth + 1, d, dir => do
    let path := (← IO.currentDir) / dir.toName
    let mut d := d.withDirectory dir
    for entry in ← path.readDir do
      let p := Path.join [dir, Text.ofString entry.fileName]
      if ← entry.path.isDir then
        unless entry.fileName.startsWith "." do d ← fetchSources depth d p
      else if Path.extension p = sourceSuffix then d ← fetch d p
    return d

/-- Writes the files that differ from what they were. -/
def writeBack (before after : Disk) : IO Unit := do
  for (place, node) in after.tree.nodes.reverse do
    if before.tree.node? place ≠ some node then
      let name := Text.toName (Path.slash :: Text.join "/" place)
      match node with
      | .directory => IO.FS.createDirAll name
      | .file content => IO.FS.writeBinFile name ⟨content.toArray⟩

def fetchInputs (line : List Text) : IO Disk := do
  let cwd := Text.ofString (← IO.currentDir).toString
  let mut d := Disk.withDirectory { cwd } cwd
  if let .ok (.perform task settings arguments) := Command.read line then
    for p in Command.manifestFiles (Command.projectDir cwd settings) do d ← fetch d p
    let inputs := Command.inputs d task settings arguments
    for p in inputs.files do d ← fetch d p
    if let some dir := inputs.sources then d ← fetchSources 64 d dir
  return d

def emitBytes (stream : IO.FS.Stream) (t : Text) : IO Unit := stream.write ⟨t.toArray⟩

end StackCode

open StackCode in
def main (args : List String) : IO UInt32 := do
  let line := args.map Text.ofString
  let before ← fetchInputs line
  let (result, after) := Command.runLine {} { disk := before } line
  writeBack before after.disk
  emitBytes (← IO.getStdout) result.out
  emitBytes (← IO.getStderr) result.err
  match result.failure with
  | none => return 0
  | some message =>
    emitBytes (← IO.getStderr) ("error: " ++ message ++ "\n")
    return 1
