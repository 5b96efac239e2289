import StackCode.Command.Project
import StackCode.Loader
import StackCode.Machine.Run

/-!
# Running and listing programs
-/

namespace StackCode

open Text

namespace Command

/-- The value that an argument spells: a truth value, null, an integer, a floating-point number or a
quoted text; all else is a text as it is, without blanks at its ends. -/
def argumentValue (t : Text) : Value :=
  if t = "true" then .bool true
  else if t = "false" then .bool false
  else if t = "null" then .null
  else
    match Number.decimal? t, Binary64.literal? t, unquote? t with
    | some n, _, _ => .int n
    | none, some x, _ => .float x
    | none, none, some s => .str s
    | none, none, none => .str (trim t)

/-- The program that a name stands for: a file, or a module of the project. -/
def runTarget (o : Options) (p : Project) (target : Text) : Action Program := do
  let d ← disk
  if d.isPresent target then loadProgram o p target
  else
    let r ← p.resolver
    let (found, r) := r.resolve d.isPresent target
    let path ← orFail ResolveError.message found
    if Path.extension path = sourceSuffix then loadProgram o p path
    else
      let (m, _) := Loader.load { resolver := r } d target
      return (← orFail Loader.Error.message m).program

def entryOf (o : Options) (p : Project) : Text :=
  match o.settings.text? "entry", p.manifest with
  | some (b :: name), _ => b :: name
  | _, some m => if m.entry.isEmpty then "main" else m.entry
  | _, none => "main"

/-- A text followed by blanks up to a number of characters. -/
def padCharacters (width : Nat) (t : Text) : Text :=
  t ++ List.replicate (width - t.runes.length) (byte ' ')

def traceLine (r : Routine) (i : Instruction) (stack : List Datum) (_ : Heap) : Text :=
  padCharacters 12 r.name ++ " " ++ hexUpper 4 i.offset ++ " " ++ padRight 14 i.op.name ++
    " depth=" ++ Text.ofNat stack.length ++ "\n"

/-- More steps than any run takes. -/
def stepLimit : Nat := Nat.pow 2 64

def run (o : Options) (arguments : List Text) : Action Unit := do
  let p ← Project.load o
  let program ← runTarget o p (arguments.headD [])
  let machine ← orFail Machine.loadMessage (Machine.load program)
  let settings : Machine.Settings :=
    { maxFrames := (o.settings.int? "max-frames").getD Machine.defaultMaxFrames }
  let time := (o.settings.duration? "timeout").getD 0
  let settings := if 0 < time then settings.within time.toNat else settings
  let entry := entryOf o p
  let values := arguments.tail.map fun a => Datum.scalar (argumentValue a)
  let final ←
    if o.settings.isOn "trace" then
      match machine.runWatched traceLine settings stepLimit entry {} values with
      | some (final, lines) =>
        lines.forM warn
        pure (some final)
      | none => pure none
    else pure (machine.run settings stepLimit entry {} values)
  match final with
  | some ⟨.value v, heap, _⟩ => print ((heap.text? v).getD [] ++ "\n")
  | some ⟨.fault f, _, _⟩ => throw f.message
  | _ => throw Machine.deadlineMessage

def disasm (o : Options) (arguments : List Text) : Action Unit := do
  let p ← Project.load o
  let path := arguments.headD []
  let program ← loadProgram o p path
  match (o.settings.text? "function").getD [] with
  | [] => print program.listing
  | name =>
    match program.functions.find? fun f => f.name = name with
    | some f => print (program.functionListing f)
    | none => throw (path ++ " has no function " ++ quote name)

end Command

end StackCode
