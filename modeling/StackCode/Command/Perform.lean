import StackCode.Command.Build
import StackCode.Command.Line
import StackCode.Command.Run
import StackCode.Command.Serve

/-!
# Commands

A command line is read and performed. What is wrong with the line is found before anything is done.
-/

namespace StackCode

open Text

namespace Command

structure About where
  version : Text := "0.1.0-dev"
  commit : Text := "unknown"
  date : Text := "unknown"
  builtWith : Text := []

/-- The version of the tool, with all that is known about it if that is asked for. -/
def versionText (about : About) (full colours : Bool) : Text :=
  let line := tool ++ " " ++ paint colours .green about.version ++ " (bytecode format " ++
    Text.ofNat Program.version.toNat ++ ")\n"
  if full then
    line ++ "commit: " ++ about.commit ++ "\nbuilt:  " ++ about.date ++ "\ngo:     " ++
      about.builtWith ++ "\n"
  else line

/-- The version of the tool as a JSON record. -/
def versionRecord (about : About) (full : Bool) : Text :=
  let basic : List (Text × Text) :=
    [("tool", quote tool), ("version", quote about.version),
      ("format_version", Text.ofNat Program.version.toNat)]
  let more : List (Text × Text) :=
    [("git_commit", quote about.commit), ("build_date", quote about.date),
      ("go_version", quote about.builtWith)]
  let fields := if full then basic ++ more else basic
  let line (field : Text × Text) : Text := "  " ++ quote field.1 ++ ": " ++ field.2
  "\x7b\n" ++ Text.join ",\n" (fields.map line) ++ "\n\x7d\n"

def version (about : About) (o : Options) : Action Unit :=
  let format := (o.settings.text? "format").getD "pretty"
  let full := o.settings.isOn "full"
  if toLower format = "pretty" then print (versionText about full o.colours)
  else if toLower format = "json" then print (versionRecord about full)
  else throw ("unsupported format " ++ quote format ++ " (must be pretty or json)")

def helpText : Text :=
  let line (c : Spec) : Text := "  " ++ Text.join " " c.words ++ "\n"
  "Usage: " ++ tool ++ " [command]\n\nCommands:\n" ++ commands.flatMap line

def performTask (about : About) (o : Options) (arguments : List Text) : Task → Action Unit
  | .build => build o arguments
  | .disasm => disasm o arguments
  | .resolve => resolve o arguments
  | .run => run o arguments
  | .serve => serve o
  | .cacheStats => cacheStats o
  | .cachePurge => cachePurge o
  | .version => version about o
  | .help => print helpText

def coloursOf (s : Settings) : Action Bool :=
  let word := (s.text? "color").getD "auto"
  if word = "on" then pure true
  else if word = "auto" ∨ word = "off" then pure false
  else throw ("invalid --color value " ++ quote word ++ " (expected auto|on|off)")

def perform (about : About) (line : List Text) : Action Unit := do
  match ← orFail LineError.message (read line) with
  | .help => print helpText
  | .toolVersion => print (tool ++ " version " ++ about.version ++ "\n")
  | .perform task settings arguments =>
    let colours ← coloursOf settings
    performTask about { settings, colours } arguments task

structure Result where
  out : Text
  err : Text
  failure : Option Text

/-- The result of a command line, and the surroundings after it. -/
def runLine (about : About) (s : Session) (line : List Text) : Result × Session :=
  let (r, s) := (perform about line).run { s with out := [], err := [] }
  let failure := match r with
    | .ok _ => none
    | .error message => some message
  (⟨s.out.reverse.flatten, s.err.reverse.flatten, failure⟩, s)

end Command

end StackCode
