import StackCode.Emit.Piece
import StackCode.Program.Basic

/-!
# Emission

A module becomes a program function by function: pieces are placed one after the other, and the
jumps are patched when all labels of the function are known. Constants are shared by the whole
program.
-/

namespace StackCode

open Text

namespace Emit

/-- What the names of a function body stand for. -/
structure Scope where
  /-- The functions of the module; a call holds the position. -/
  functions : List Text := []
  /-- The variables of the function; an access holds the position. -/
  vars : List Text := []

/-- The slot of a variable. Of equal names the last one counts. -/
def Scope.slot? (s : Scope) (name : Text) : Option Nat :=
  (s.vars.reverse.idxOf? name).map fun i => s.vars.length - 1 - i

def byteOperand? (n : Int) : Option UInt8 :=
  if 0 ≤ n ∧ n < 256 then some (UInt8.ofInt n) else none

end Emit

/-- What emission works on. An emitter may serve one module after the other: each emission starts by
clearing what the last one left. -/
structure Emitter where
  pool : Pool := {}
  code : Code := #[]
  /-- The labels of the function so far, each with the offset that follows it. -/
  labels : List (Text × Nat) := []
  /-- The jumps to patch, the latest one first: where the placeholder stands, and the label. -/
  pending : List (Nat × Text) := []
  /-- The functions of the module and the variables of the function. -/
  scope : Emit.Scope := {}
  function : Text := []

namespace Emitter

open Emit

/-- A stopped emission: the cause, and what the emitter then holds. -/
abbrev Step := Except (Cause × Emitter) Emitter

def placeConstant (e : Emitter) (op : Opcode) (v : Value) : Step :=
  let ⟨pool, code, labels, pending, scope, function⟩ := e
  match pool.intern v with
  | (some i, pool) =>
    .ok ⟨pool, code.emitWord op.byte i, labels, pending, scope, function⟩
  | (none, pool) => .error (.constantOverflow v, ⟨pool, code, labels, pending, scope, function⟩)

def place (s : Scope) (e : Emitter) : Piece → Step
  | .plain op => .ok { e with code := e.code.emit op.byte }
  | .slot op name =>
    match s.slot? name with
    | some i => .ok { e with code := e.code.emitByte op.byte (UInt8.ofNat i) }
    | none => .error (.undefinedVariable name, e)
  | .constant op v => e.placeConstant op v
  | .call function argc =>
    match s.functions.idxOf? function with
    | none => .error (.undefinedFunction function, e)
    | some i =>
      match byteOperand? argc with
      | some n => .ok { e with code := e.code.emitCall (UInt8.ofNat i) n }
      | none => .error (.operandOverflow .argumentCount argc, e)
  | .newArray size =>
    match byteOperand? size with
    | some n => .ok { e with code := e.code.emitByte Opcode.newArray.byte n }
    | none => .error (.operandOverflow .arraySize size, e)
  | .jump op name =>
    let ⟨pool, code, labels, pending, scope, function⟩ := e
    let placeholder := code.size + 1
    .ok ⟨pool, code.emitJump op.byte, labels, (placeholder, name) :: pending, scope, function⟩
  | .label name =>
    match e.labels.lookup name with
    | some _ => .error (.duplicateLabel name, e)
    | none => .ok { e with labels := (name, e.code.size) :: e.labels }
  | .refused cause => .error (cause, e)

/-- Patches a jump, in code that ends at `size`. -/
def patch (size : Nat) (e : Emitter) (jump : Nat × Text) : Step :=
  match e.labels.lookup jump.2 with
  | none => .error (.undefinedLabel jump.2, e)
  | some target =>
    if target = size then .error (.labelAtEnd jump.2, e)
    else
      let ⟨pool, code, labels, pending, scope, function⟩ := e
      match code.patchJump jump.1 target with
      | .ok code => .ok ⟨pool, code, labels, pending, scope, function⟩
      | .error cause =>
        .error (.jumpTooFar jump.2 cause, ⟨pool, #[], labels, pending, scope, function⟩)

def placeAll (e : Emitter) (body : List Instr) : Step :=
  body.foldlM (fun e i => (pieces i).foldlM (fun e p => e.place e.scope p) e) e

/-- Emits a function: its body, then the targets of its jumps. -/
def emitBody (e : Emitter) (f : Function) : Step :=
  let n := f.params.length + f.locals.length
  -- a function whose emission failed may have left labels and pending jumps
  let e := { e with code := #[], labels := [], pending := [], function := f.name }
  if 256 < n then .error (.tooManyVariables n, e)
  else do
    let e := { e with scope.vars := f.vars.map Var.name }
    let e ← e.placeAll f.body
    -- patching keeps the length, so the end of the code is known by now
    let size := e.code.size
    e.pending.reverse.foldlM (patch size) e

/-- Emits a function and takes the code out of the emitter. -/
def emitFunction (e : Emitter) (f : Function) : Except (Error × Emitter) (Routine × Emitter) :=
  match e.emitBody f with
  | .error (cause, e) => .error (⟨e.function, cause⟩, e)
  | .ok ⟨pool, code, labels, pending, scope, function⟩ =>
    .ok (⟨f.name, some code, UInt16.ofNat f.locals.length, UInt16.ofNat f.params.length⟩,
      ⟨pool, #[], labels, pending, scope, function⟩)

/-- Emits functions one after the other. The routines before them are in `done`, the latest first.
-/
def emitFunctions (done : List Routine) (e : Emitter) :
    List Function → Except (Error × Emitter) (List Routine × Emitter)
  | [] => .ok (done.reverse, e)
  | f :: fs => do
    let (r, e) ← e.emitFunction f
    emitFunctions (r :: done) e fs

/-- The functions of a module, if it has no empty slot and no name twice. -/
def register (seen : List Text) (done : List Function) (position : Nat) :
    List (Option Function) → Except Error (List Function)
  | [] => .ok done.reverse
  | none :: _ => .error ⟨[], .noFunction position⟩
  | some f :: fs =>
    if seen.contains f.name then .error ⟨f.name, .duplicateFunction f.name⟩
    else register (f.name :: seen) (f :: done) (position + 1) fs

def registered (m : Module) : Except Error (List Function) := do
  let n := m.functions.length
  if 256 < n then .error ⟨[], .tooManyFunctions n⟩
  let fs ← register [] [] 0 m.functions
  match m.exports.find? fun name => fs.all fun f => f.name ≠ name with
  | some name => .error ⟨[], .unknownExport name⟩
  | none => .ok fs

/-- The program of a module, and what the emitter holds afterwards. -/
def emit (e : Emitter) (m : Module) : Except Error Program × Emitter :=
  let e := { e with pool := {}, scope.functions := [] }
  match registered m with
  | .error cause => (.error cause, e)
  | .ok fs =>
    let e := { e with scope.functions := fs.map Function.name }
    match e.emitFunctions [] fs with
    | .error (cause, e) => (.error cause, e)
    | .ok (routines, e) => (.ok ⟨routines, e.pool.values.toList, m.exports⟩, e)

end Emitter

def Module.emit (m : Module) : Except Emit.Error Program := (({} : Emitter).emit m).1

end StackCode
