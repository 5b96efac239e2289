import StackCode.Module.Basic
import StackCode.Module.Words

/-!
# Reading modules

The text form of a module is read line by line. Every line with a mistake is reported, so a text has
a list of mistakes rather than one.
-/

namespace StackCode

open Text

namespace Module

inductive Mistake where
  | unterminatedString
  | usageModule
  | usageExport
  | usageFunction
  | outsideFunction (word : Text)
  | badFunctionName (name : Text)
  | badVariableName (name : Text)
  | badType (name type : Text)
  | badLabel (name : Text)
  | instruction (e : Instr.ReadError)
  | rejected (e : AddError)
  | missingBrace (function : Text)
  deriving Repr

def Mistake.message : Mistake → Text
  | unterminatedString => "unterminated string literal"
  | usageModule => "usage: module <name>"
  | usageExport => "usage: export <name>..."
  | usageFunction => "usage: func <name>(<params>) \x7b"
  | outsideFunction word => "unexpected " ++ quote word ++ " outside a function"
  | badFunctionName name => "invalid function name " ++ quote name
  | badVariableName name => "invalid variable name " ++ quote name
  | badType name type => "invalid type for " ++ name ++ ": " ++ quote type
  | badLabel name => "invalid label name " ++ quote name
  | instruction e => e.message
  | rejected e => e.message
  | missingBrace function => "function " ++ function ++ " is missing a closing brace"

structure LineMistake where
  line : Nat
  mistake : Mistake
  deriving Repr

def LineMistake.message (e : LineMistake) : Text :=
  "line " ++ Text.ofNat e.line ++ ": " ++ e.mistake.message

def mistakesMessage (es : List LineMistake) : Text :=
  match es with
  | [e] => "ir: " ++ e.message
  | _ => "ir: " ++ Text.ofNat es.length ++ " errors: " ++ join "; " (es.map LineMistake.message)

/-- The variable of a declaration `name` or `name: type`. -/
def readVar (t : Text) : Except Mistake Var :=
  let (name, type, typed) := match cut (byte ':') t with
    | some (name, type) => (name.trim, type.trim, true)
    | none => (t.trim, [], false)
  if !isIdent name then .error (.badVariableName name)
  else if typed && !isIdent type then .error (.badType name type)
  else .ok ⟨name, type⟩

/-- The function that a line `func name(params) {` opens, read from what follows `func`. -/
def readHeader (header : Text) : Except Mistake Function :=
  match cut (byte '(') header, cutLast (byte ')') header with
  | some (name, afterOpen), some (beforeClose, rest) =>
    if header.length - afterOpen.length ≤ beforeClose.length + 1 && rest.trim = "\x7b" then
      let name := name.trim
      if !isIdent name then .error (.badFunctionName name)
      else
        let params := Text.trim (beforeClose.drop (header.length - afterOpen.length))
        if params.isEmpty then .ok { name }
        else do
          let vars ← (splitOn (byte ',') params).mapM readVar
          .ok { name, params := vars }
    else .error .usageFunction
  | _, _ => .error .usageFunction

/-- What has been read so far: the module, the function that is open, and the mistakes in reverse.
-/
structure Reading where
  module : Module := {}
  current : Option Function := none
  mistakes : List LineMistake := []

namespace Reading

def fail (r : Reading) (line : Nat) (m : Mistake) : Reading :=
  { r with mistakes := ⟨line, m⟩ :: r.mistakes }

def topLevel (r : Reading) (line : Nat) : List Text → Reading
  | [] => r
  | w :: ws =>
    if w = "module" then
      match ws with
      | [name] => { r with module := { r.module with name } }
      | _ => r.fail line .usageModule
    else if w = "export" then
      if ws.isEmpty then r.fail line .usageExport
      -- one comma behind each name is dropped, and what is left is not checked
      else { r with module := ws.foldl (fun m n => m.addExport (dropSuffix "," n)) r.module }
    else if w = "func" then
      match readHeader (join " " ws) with
      | .ok f => { r with current := some f }
      | .error m => r.fail line m
    else r.fail line (.outsideFunction w)

/-- The name of the label that the words of a line define. -/
def labelOf? : List Text → Option Text
  | [w] => if List.isSuffixOf (":" : Text) w && w.length > 1 then some (dropSuffix ":" w) else none
  | _ => none

/-- The reading after the words of a line inside the function `f`. -/
def inFunction (r : Reading) (line : Nat) (f : Function) (ws : List Text) : Reading :=
  if ws = [Text.ofString "\x7d"] then
    match r.module.add (some f) with
    | .ok m => { r with module := m, current := none }
    | .error e => { r.fail line (.rejected e) with current := none }
  else if ws.head? = some (Text.ofString "local") then
    match readVar (join " " (ws.drop 1)) with
    | .ok v => { r with current := some { f with locals := f.locals ++ [v] } }
    | .error m => r.fail line m
  else
    match labelOf? ws with
    | some name =>
      if isIdent name then { r with current := some { f with body := f.body ++ [.label name] } }
      else r.fail line (.badLabel name)
    | none =>
      match Instr.read ws with
      | .ok i => { r with current := some { f with body := f.body ++ [i] } }
      | .error e => r.fail line (.instruction e)

def push (r : Reading) (line : Nat) (t : Text) : Reading :=
  match Words.scan t with
  | none => r.fail line .unterminatedString
  | some [] => r
  | some ws =>
    match r.current with
    | none => r.topLevel line ws
    | some f => r.inFunction line f ws

/-- The reading after the given lines, the first of which has the given number. -/
def pushAll (r : Reading) : (line : Nat) → List Text → Reading
  | _, [] => r
  | line, t :: ts => (r.push line t).pushAll (line + 1) ts

/-- The reading at the end of a text of the given number of lines. -/
def finish (r : Reading) (lines : Nat) : Except (List LineMistake) Module :=
  let r := match r.current with
    | some f => r.fail lines (.missingBrace f.name)
    | none => r
  if r.mistakes.isEmpty then .ok r.module else .error r.mistakes.reverse

end Reading

/-- The module that a text describes, or all its mistakes. -/
def read (t : Text) : Except (List LineMistake) Module :=
  let lines := splitOn (byte '\n') t
  (({} : Reading).pushAll 1 lines).finish lines.length

end Module

namespace Instr

/-- Why a line on its own is no instruction. -/
inductive LineError where
  | unterminatedString
  | words (e : ReadError)
  deriving Repr

def LineError.message : LineError → Text
  | unterminatedString => "unterminated string literal"
  | words e => e.message

def readLine (line : Text) : Except LineError Instr :=
  match Words.scan line with
  | none => .error .unterminatedString
  | some ws =>
    match read ws with
    | .ok i => .ok i
    | .error e => .error (.words e)

end Instr

end StackCode
