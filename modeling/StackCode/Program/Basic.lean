import Std.Data.HashMap
import Std.Data.HashSet
import StackCode.Code.Basic
import StackCode.Value

/-!
# Programs

A program is what is stored, loaded and run: compiled functions, the constants that they share, and
the names that it exports. A call names its function by position.
-/

namespace StackCode

open Text

/-- A compiled function. Parameters take the first slots of a frame, locals the next. -/
structure Routine where
  name : Text
  /-- The code. Having none is kept apart from having empty code, because stored forms tell the two
  apart. -/
  code : Option Code := none
  locals : UInt16 := 0
  params : UInt16 := 0
  deriving DecidableEq, Repr, Inhabited

namespace Routine

def bytes (r : Routine) : Code := r.code.getD #[]

def slots (r : Routine) : Nat := r.params.toNat + r.locals.toNat

end Routine

structure Program where
  functions : List Routine := []
  constants : List Value := []
  symbols : List Text := []
  deriving DecidableEq, Repr

namespace Program

def version : UInt16 := 1

def magic : Text := "VELA"

def indexOf? (p : Program) (name : Text) : Option Nat :=
  p.functions.findIdx? fun f => f.name = name

/-- What makes an instruction of a function unsafe to run. -/
inductive Defect where
  | code (e : Code.Fault)
  | tooManySlots (n : Nat)
  | constantOutOfRange (offset index : Nat)
  | slotOutOfRange (offset slot : Nat)
  | functionOutOfRange (offset index : Nat)
  | jumpOutside (offset : Nat) (target : Int) (size : Nat)
  | jumpInside (offset : Nat) (target : Int)
  deriving DecidableEq, Repr

def Defect.message : Defect → Text
  | code e => e.message
  | tooManySlots n => Text.ofNat n ++ " local slots, max 256"
  | constantOutOfRange offset index =>
    "offset " ++ Text.ofNat offset ++ ": constant index " ++ Text.ofNat index ++ " out of range"
  | slotOutOfRange offset slot =>
    "offset " ++ Text.ofNat offset ++ ": slot " ++ Text.ofNat slot ++ " out of range"
  | functionOutOfRange offset index =>
    "offset " ++ Text.ofNat offset ++ ": function index " ++ Text.ofNat index ++ " out of range"
  | jumpOutside offset target size =>
    "offset " ++ Text.ofNat offset ++ ": jump target " ++ Text.ofInt target ++ " outside [0, " ++
      Text.ofNat size ++ ")"
  | jumpInside offset target =>
    "offset " ++ Text.ofNat offset ++ ": jump target " ++ Text.ofInt target ++
      " is inside an instruction"

/-- What makes a program unsafe to run. -/
inductive VerifyError where
  | noFunctions
  | tooManyFunctions (n : Nat)
  | tooManyConstants (n : Nat)
  | equalConstants (i j : Nat) (v : Value)
  | inFunction (name : Text) (e : Defect)
  deriving DecidableEq, Repr

def VerifyError.message : VerifyError → Text
  | noFunctions => "program contains no functions"
  | tooManyFunctions n => "program has " ++ Text.ofNat n ++ " functions, max 256"
  | tooManyConstants n => "constant pool overflow: " ++ Text.ofNat n ++ " entries"
  | equalConstants i j v =>
    "constants " ++ Text.ofNat i ++ " and " ++ Text.ofNat j ++ " are equal (" ++ v.text ++ ")"
  | inFunction name e => "function " ++ name ++ ": " ++ e.message

/-- The first constant that occurred before: both positions and the value. -/
def repeatedConstant? (constants : List Value) : Option (Nat × Nat × Value) :=
  go {} 0 constants
where
  go (seen : Std.HashMap Value Nat) (j : Nat) : List Value → Option (Nat × Nat × Value)
    | [] => none
    | v :: vs =>
      match seen[v]? with
      | some i => some (i, j, v)
      | none => go (seen.insert v j) (j + 1) vs

/-- What is wrong with an instruction of the function in a program with so many constants and
functions, apart from landing inside another instruction. -/
def defect? (constants functions : Nat) (f : Routine) (i : Instruction) : Option Defect :=
  if i.op.usesConstant then
    if constants ≤ i.operand then some (.constantOutOfRange i.offset i.operand) else none
  else if i.op = .loadLocal ∨ i.op = .storeLocal then
    if f.slots ≤ i.operand then some (.slotOutOfRange i.offset i.operand) else none
  else if i.op = .call then
    if functions ≤ i.operand then some (.functionOutOfRange i.offset i.operand) else none
  else if i.op.isJump then
    if i.target < 0 ∨ f.bytes.size ≤ i.target then
      some (.jumpOutside i.offset i.target f.bytes.size)
    else none
  else none

/-- The first jump that leads into the middle of an instruction. -/
def jumpInside? (is : List Instruction) : Option Defect :=
  let starts : Std.HashSet Int := is.foldl (fun s i => s.insert (i.offset : Int)) {}
  is.findSome? fun i =>
    if i.op.isJump && !starts.contains i.target then some (.jumpInside i.offset i.target) else none

/-- The first defect of a function: of its slots, of an instruction, of its end, of a jump. -/
def functionDefect? (constants functions : Nat) (f : Routine) : Option Defect :=
  if 256 < f.slots then some (.tooManySlots f.slots)
  else
    let (is, fault) := f.bytes.walk
    -- instructions before the one that cannot be read are checked first
    match is.findSome? (defect? constants functions f) with
    | some d => some d
    | none =>
      match fault with
      | some e => some (.code e)
      | none => jumpInside? is

/-- Checks what running a program relies on: at least one function, constants that are all
different, every operand in range, and every jump at the start of an instruction of its own
function. -/
def verify (p : Program) : Except VerifyError Unit :=
  if p.functions.isEmpty then .error .noFunctions
  else if 256 < p.functions.length then .error (.tooManyFunctions p.functions.length)
  else if 65536 < p.constants.length then .error (.tooManyConstants p.constants.length)
  else
    match repeatedConstant? p.constants with
    | some (i, j, v) => .error (.equalConstants i j v)
    | none =>
      let constants := p.constants.length
      let functions := p.functions.length
      let error? (f : Routine) := (functionDefect? constants functions f).map (.inFunction f.name)
      match p.functions.findSome? error? with
      | some e => .error e
      | none => .ok ()

end Program

end StackCode
