import StackCode.Module.Basic

/-!
# Modules as text

The text form of a module: its name, its exports, then its functions, each between braces with one
instruction a line.
-/

namespace StackCode

open Text

/-- A variable and, if it has one, its type. -/
def Var.text (v : Var) : Text :=
  if v.type.isEmpty then v.name else v.name ++ ": " ++ v.type

def Var.line (v : Var) : Text := "  local " ++ v.text ++ "\n"

/-- The line of an instruction in a body. Labels stand at the margin. -/
def Instr.line : Instr → Text
  | .label name => name ++ ":\n"
  | i => "  " ++ i.text ++ "\n"

def Function.text (f : Function) : Text :=
  "func " ++ f.name ++ "(" ++ join ", " (f.params.map Var.text) ++ ") \x7b\n" ++
    f.locals.flatMap Var.line ++
    f.body.flatMap Instr.line ++ "\x7d\n"

namespace Module

def nameLine (name : Text) : Text :=
  if name.isEmpty then [] else "module " ++ name ++ "\n"

def exportLine (name : Text) : Text := "export " ++ name ++ "\n"

def header (m : Module) : Text :=
  nameLine m.name ++ m.exports.flatMap exportLine

/-- The text of functions, with an empty line before each but one that starts the text. -/
def functionsText (first : Bool) : List Function → Text
  | [] => []
  | f :: fs => (if first then [] else "\n") ++ f.text ++ functionsText false fs

/-- A module as text. There is none if the module has an empty slot. -/
def text? (m : Module) : Option Text :=
  (m.functions.mapM id).map fun fs => m.header ++ functionsText m.header.isEmpty fs

end Module

end StackCode
