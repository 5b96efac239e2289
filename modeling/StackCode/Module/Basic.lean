import StackCode.Instr

/-!
# Modules

A module is a named collection of functions in the order of their registration. A slot of that order
may be empty in a module built by hand.
-/

namespace StackCode

open Text

/-- A parameter or local; the type may be empty. -/
structure Var where
  name : Text
  type : Text := []
  deriving DecidableEq, Repr

structure Function where
  name : Text
  params : List Var := []
  locals : List Var := []
  body : List Instr := []
  deriving DecidableEq, Repr

structure Module where
  name : Text := []
  exports : List Text := []
  functions : List (Option Function) := []
  deriving DecidableEq, Repr

namespace Function

/-- The variables of a function in the order of their slots: parameters, then locals. -/
def vars (f : Function) : List Var := f.params ++ f.locals

def labels (f : Function) : List Text :=
  f.body.filterMap fun
    | .label name => some name
    | _ => none

end Function

namespace Module

inductive AddError where
  | noFunction (module : Text)
  | duplicate (module name : Text)
  deriving DecidableEq, Repr

def AddError.message : AddError → Text
  | noFunction module => "module " ++ module ++ ": nil function"
  | duplicate module name => "module " ++ module ++ ": duplicate function " ++ quote name

def lookup? (m : Module) (name : Text) : Option Function :=
  (m.functions.filterMap id).find? fun f => f.name = name

/-- The module with one more function. Names are unique. -/
def add (m : Module) : Option Function → Except AddError Module
  | none => .error (.noFunction m.name)
  | some f =>
    if (m.lookup? f.name).isSome then .error (.duplicate m.name f.name)
    else .ok { m with functions := m.functions ++ [some f] }

/-- The module with one more export, unless it exports that name already. -/
def addExport (m : Module) (name : Text) : Module :=
  if m.exports.contains name then m else { m with exports := m.exports ++ [name] }

inductive Problem where
  | noFunction
  | duplicateFunction (name : Text)
  | duplicateVariable (function name : Text)
  | noInstruction (function : Text) (position : Nat)
  | duplicateLabel (function name : Text)
  | assignWithoutValue (function name : Text) (position : Nat)
  | unknownExport (name : Text)
  deriving DecidableEq, Repr

def Problem.message : Problem → Text
  | noFunction => "nil function"
  | duplicateFunction name => "duplicate function " ++ quote name
  | duplicateVariable function name => function ++ ": duplicate variable " ++ quote name
  | noInstruction function i => function ++ ": nil instruction at " ++ Text.ofNat i
  | duplicateLabel function name =>
    function ++ ": label " ++ quote name ++ " defined more than once"
  | assignWithoutValue function name i =>
    function ++ ": assign " ++ name ++ " at " ++ Text.ofNat i ++ " has no value"
  | unknownExport name => "export of unknown function " ++ quote name

def problemsMessage (ps : List Problem) : Text :=
  "invalid IR: " ++ join "; " (ps.map Problem.message)

/-- The names that occurred before in the list, in order. -/
def repeated (names : List Text) : List Text :=
  (names.foldl (fun (seen, again) n =>
    if seen.contains n then (seen, n :: again) else (n :: seen, again)) ([], [])).2.reverse

/-- What checking a body has found after some of its instructions. -/
structure BodyCheck where
  position : Nat := 0
  labels : List Text := []
  found : List Problem := []

/-- The check after one more instruction of the named function. -/
def BodyCheck.push (function : Text) (c : BodyCheck) (i : Instr) : BodyCheck :=
  let c' := { c with position := c.position + 1 }
  match i with
  | .missing => { c' with found := .noInstruction function c.position :: c.found }
  | .label name =>
    if c.labels.contains name then { c' with found := .duplicateLabel function name :: c.found }
    else { c' with labels := name :: c.labels }
  | .assign name .missing =>
    { c' with found := .assignWithoutValue function name c.position :: c.found }
  | _ => c'

def functionProblems (f : Function) : List Problem :=
  (repeated (f.vars.map Var.name)).map (.duplicateVariable f.name) ++
    (f.body.foldl (BodyCheck.push f.name) {}).found.reverse

/-- The problems of a module: unique function, variable and label names, no empty slots, and exports
that name functions. -/
def problems (m : Module) : List Problem :=
  let (names, found) := m.functions.foldl
    (fun (names, found) slot => match slot with
      | none => (names, found ++ [.noFunction])
      | some f =>
        let again := if names.contains f.name then [Problem.duplicateFunction f.name] else []
        (f.name :: names, found ++ again ++ functionProblems f))
    (([], []) : List Text × List Problem)
  found ++ (m.exports.filter fun e => !names.contains e).map .unknownExport

end Module

end StackCode
