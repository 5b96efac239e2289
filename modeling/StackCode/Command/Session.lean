import StackCode.Disk
import StackCode.Server.Service

/-!
# Sessions

What a command reads and changes: the files, and what it has written so far. A command that fails
keeps what it did before.
-/

namespace StackCode

open Text

namespace Command

structure Session where
  disk : Disk
  servers : List (Text × Server) := []
  /-- What was written to the output, the latest piece first. -/
  out : List Text := []
  err : List Text := []

/-- A part of a command. It may fail with a message. -/
abbrev Action (α : Type) := ExceptT Text (StateM Session) α

def orFail {ε α : Type} (message : ε → Text) : Except ε α → Action α
  | .ok a => pure a
  | .error e => throw (message e)

def print (t : Text) : Action Unit := modify fun s => { s with out := t :: s.out }

def warn (t : Text) : Action Unit := modify fun s => { s with err := t :: s.err }

def disk : Action Disk := return (← get).disk

def setDisk (d : Disk) : Action Unit := modify fun s => { s with disk := d }

inductive Colour where
  | red
  | yellow
  | green
  deriving DecidableEq, Repr

/-- The codes that turn a colour on and off. Red words are bold as well. -/
def Colour.codes : Colour → Text × Text
  | red => ("31;1", "0;22")
  | yellow => ("33", "0")
  | green => ("32", "0")

def paint (colours : Bool) (c : Colour) (t : Text) : Text :=
  if colours then "\x1b[" ++ c.codes.1 ++ "m" ++ t ++ "\x1b[" ++ c.codes.2 ++ "m" else t

def report (colours : Bool) (subject : Text) (problems : List Text) : Action Unit :=
  for p in problems do
    warn (subject ++ ": " ++ paint colours .red "error:" ++ " " ++ p ++ "\n")

end Command

end StackCode
