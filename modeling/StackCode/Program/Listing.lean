import StackCode.Program.Basic

/-!
# Listings

A program in readable form: its constants, then the instructions of each function with their
operands resolved.
-/

namespace StackCode

open Text

namespace Program

/-- A text cut to at most `n` bytes, line ends and tabs made visible. -/
def shorten (n : Nat) (t : Text) : Text :=
  let t := replace "\t" "\\t" (replace "\n" "\\n" t)
  if n < t.length then t.take (n - 3) ++ "..." else t

def constantText (p : Program) (i : Nat) : Text :=
  match p.constants[i]? with
  | some v => shorten 24 v.text
  | none => "<out of range>"

def instructionText (p : Program) (i : Instruction) : Text :=
  let name := padRight 12 i.op.name ++ " "
  if i.op.usesConstant then
    name ++ Text.ofNat i.operand ++ " ; " ++ p.constantText i.operand
  else if i.op.isJump then
    name ++ signed i.jump ++ " ; -> " ++ hexUpperInt 4 i.target
  else if i.op = .call then
    let callee : Text := (p.functions[i.operand]?).elim "?" Routine.name
    name ++ Text.ofNat i.operand ++ " " ++ Text.ofNat i.argc ++ " ; " ++ callee
  else if i.op.operandLength = 1 then name ++ Text.ofNat i.operand
  else i.op.name

def functionListing (p : Program) (f : Routine) : Text :=
  let (is, fault) := f.bytes.walk
  let line (i : Instruction) : Text :=
    hexUpper 4 i.offset ++ "  " ++ p.instructionText i ++ "\n"
  "; === " ++ f.name ++ " === params=" ++ Text.ofNat f.params.toNat ++ " locals=" ++
    Text.ofNat f.locals.toNat ++ " size=" ++ Text.ofNat f.bytes.size ++ "\n" ++ is.flatMap line ++
    match fault with
    | some e => "; error: " ++ e.message ++ "\n"
    | none => []

def constantLines (constants : List Value) : Text :=
  if constants.isEmpty then []
  else
    let line (v : Value) (i : Nat) : Text :=
      ";   [" ++ padLeft 3 (Text.ofNat i) ++ "] " ++ shorten 48 v.text ++ "\n"
    "; Constants:\n" ++ (constants.zipIdx.flatMap fun (v, i) => line v i) ++ "\n"

/-- The line of the exports, none if there are none. -/
def exportLine (symbols : List Text) : Text :=
  if symbols.isEmpty then [] else "; Exports: " ++ join ", " symbols ++ "\n"

def listing (p : Program) : Text :=
  "; Vela Bytecode v" ++ Text.ofNat version.toNat ++ "\n; Functions: " ++
    Text.ofNat p.functions.length ++ ", Constants: " ++ Text.ofNat p.constants.length ++ "\n" ++
    exportLine p.symbols ++ "\n" ++ constantLines p.constants ++
    join "\n" (p.functions.map p.functionListing)

end Program

end StackCode
