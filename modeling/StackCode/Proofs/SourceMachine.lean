import StackCode.Machine.Run
import StackCode.Module.Basic
import StackCode.Proofs.Process

/-!
# Running bodies directly

A machine that runs the bodies of a module as they are written. Variables, labels and functions go by
their names, constants are immediates. It is the reference for what a program made of the module has
to do.
-/

namespace StackCode.Proofs.Source

open Fault (Kind Cause)

/-- The variables of an activation with their values. -/
abbrev Bindings := List (Text × Datum)

/-- The arguments go to the first variables, the others are null. -/
def bindings (f : Function) (arguments : List Datum) : Bindings :=
  (f.vars.map Var.name).zip
    (arguments ++ List.replicate (f.vars.length - arguments.length) Datum.null)

def Bindings.set (vars : Bindings) (name : Text) (d : Datum) : Bindings :=
  vars.map fun v => (v.1, if v.1 = name then d else v.2)

/-- What an instruction does to the activation that runs it. -/
inductive Effect where
  /-- The body goes on behind the instruction. -/
  | next (vars : Bindings) (stack : List Datum) (h : Heap)
  /-- The body goes on at a label. -/
  | jump (label : Text) (stack : List Datum) (h : Heap)
  /-- The body waits for a function. The result goes to the target, else to the operands. -/
  | call (function : Text) (arguments : List Datum) (target : Option Text) (stack : List Datum)
    (h : Heap)
  | leave (result : Datum) (h : Heap)
  | fault (kind : Kind) (h : Heap)
  /-- Something that is not there: a variable, an operator, an array, an object or its table. -/
  | stuck (h : Heap)

/-- What an operator on two operands computes. -/
def binary? : BinOp → Option (Datum → Datum → Except Cause Datum)
  | .add => some (Datum.arith .add)
  | .sub => some (Datum.arith .sub)
  | .mul => some (Datum.arith .mul)
  | .div => some (Datum.arith .div)
  | .mod => some (Datum.arith .mod)
  | .eq => some (Datum.arith .eq)
  | .ne => some (Datum.arith .ne)
  | .lt => some (Datum.arith .lt)
  | .le => some (Datum.arith .le)
  | .gt => some (Datum.arith .gt)
  | .ge => some (Datum.arith .ge)
  | .and => some (Datum.arith .and)
  | .or => some (Datum.arith .or)
  | .undefined _ _ => none

/-- What an operator on one operand computes. -/
def unary? : UnOp → Option (Datum → Except Cause Datum)
  | .neg => some (Datum.unary .neg)
  | .not => some (Datum.unary .not)
  | .undefined _ _ => none

def push (vars : Bindings) (stack : List Datum) (h : Heap) : Except Cause Datum → Effect
  | .ok d => .next vars (d :: stack) h
  | .error e => .fault e.kind h

def store (vars : Bindings) (name : Text) (d : Datum) (stack : List Datum) (h : Heap) : Effect :=
  if (vars.lookup name).isSome then .next (vars.set name d) stack h else .stuck h

/-- The effect in which the result goes to a variable instead of the operands. -/
def Effect.storing (name : Text) : Effect → Effect
  | .next vars (d :: stack) h => store vars name d stack h
  | .next _ [] h => .stuck h
  | .call function arguments none stack h => .call function arguments (some name) stack h
  | e => e

/-- The effect of an instruction whose operands are there. -/
def execute (vars : Bindings) (stack : List Datum) (h : Heap) : Instr → Effect
  | .missing => .stuck h
  | .const v => .next vars (.scalar v :: stack) h
  | .load name =>
    match vars.lookup name with
    | some d => .next vars (d :: stack) h
    | none => .stuck h
  | .store name =>
    match stack with
    | d :: rest => store vars name d rest h
    | _ => .stuck h
  | .assign name inner => (execute vars stack h inner).storing name
  | .declare _ _ | .label _ => .next vars stack h
  | .binary op =>
    match binary? op, stack with
    | some f, b :: a :: rest => push vars rest h (f a b)
    | _, _ => .stuck h
  | .unary op =>
    match unary? op, stack with
    | some f, a :: rest => push vars rest h (f a)
    | _, _ => .stuck h
  | .call function argc =>
    .call function (stack.take argc.toNat).reverse none (stack.drop argc.toNat) h
  | .ret =>
    match stack with
    | d :: _ => .leave d h
    | _ => .stuck h
  | .jump label => .jump label stack h
  | .jumpIf label =>
    match stack with
    | .scalar (.bool b) :: rest => if b then .next vars rest h else .jump label rest h
    | _ :: _ => .fault .typeMismatch h
    | _ => .stuck h
  | .newArray _ _ => .next vars ((h.addArray #[]).2 :: stack) (h.addArray #[]).1
  | .arrayLoad =>
    match stack with
    | index :: array :: rest =>
      match Frame.loadElement h array index with
      | .ok (some d) => .next vars (d :: rest) h
      | .ok none => .stuck h
      | .error e => .fault e.kind h
    | _ => .stuck h
  | .arrayStore =>
    match stack with
    | d :: index :: array :: rest =>
      match Frame.storePlace h array index with
      | .ok (some (a, k)) =>
        .next vars rest { h with arrays := h.arrays.modify a (Frame.putElement k d) }
      | .ok none => .stuck h
      | .error e => .fault e.kind h
    | _ => .stuck h
  | .newObject className =>
    .next vars ((h.addObject { className }).2 :: stack) (h.addObject { className }).1
  | .getProp name =>
    match stack with
    | .object a :: rest =>
      match h.objects[a]? with
      | some o => .next vars (o.get name :: rest) h
      | none => .stuck h
    | _ :: _ => .fault .typeMismatch h
    | _ => .stuck h
  | .setProp name =>
    match stack with
    | d :: .object a :: rest =>
      if h.objects[a]?.any Object.hasTable then
        .next vars rest { h with objects := h.objects.modify a (·.set name d) }
      else .stuck h
    | _ :: _ :: _ => .fault .typeMismatch h
    | _ => .stuck h

/-- The effect of an instruction. It needs as many operands as it pops. -/
def perform (vars : Bindings) (stack : List Datum) (h : Heap) (i : Instr) : Effect :=
  if (stack.length : Int) < i.stackEffect.1 then .fault .stackUnderflow h
  else execute vars stack h i

/-- The activation of a function. -/
structure Activation where
  function : Function
  /-- The position of the next instruction in the body. -/
  position : Nat := 0
  vars : Bindings
  /-- The operands, the topmost one first. -/
  stack : List Datum := []

/-- A run under way. -/
structure State where
  running : Activation
  /-- The activations that wait, each with the target of the result it waits for. -/
  callers : List (Activation × Option Text) := []
  depth : Nat := 1
  heap : Heap

inductive Outcome where
  | value (d : Datum)
  | fault (kind : Kind) (function : Text)
  | stuck
  deriving DecidableEq

/-- A finished run. -/
structure Final where
  outcome : Outcome
  heap : Heap
  deriving DecidableEq

inductive Next where
  | running (s : State)
  | done (f : Final)

/-- Starts a function above the given callers. -/
def enter (maxFrames : Int) (f : Function) (arguments : List Datum)
    (callers : List (Activation × Option Text)) (depth : Nat) (heap : Heap) : Next :=
  if maxFrames ≤ depth then .done ⟨.fault .stackOverflow f.name, heap⟩
  else if f.vars.length < arguments.length then .done ⟨.fault .arityMismatch f.name, heap⟩
  else .running ⟨⟨f, 0, bindings f arguments, []⟩, callers, depth + 1, heap⟩

/-- Leaves the running activation with a result. -/
def leave (d : Datum) (callers : List (Activation × Option Text)) (depth : Nat) (heap : Heap) :
    Next :=
  match callers with
  | [] => .done ⟨.value d, heap⟩
  | (a, none) :: callers => .running ⟨{ a with stack := d :: a.stack }, callers, depth - 1, heap⟩
  | (a, some name) :: callers =>
    if (a.vars.lookup name).isSome then
      .running ⟨{ a with vars := a.vars.set name d }, callers, depth - 1, heap⟩
    else .done ⟨.stuck, heap⟩

/-- The step that the effect of an instruction makes. -/
def stepOf (m : Module) (maxFrames : Int) (s : State) : Effect → Next
  | .next vars stack h =>
    .running { s with
      running := ⟨s.running.function, s.running.position + 1, vars, stack⟩, heap := h }
  | .jump label stack h =>
    match s.running.function.body.idxOf? (.label label) with
    | some k =>
      .running { s with running := ⟨s.running.function, k, s.running.vars, stack⟩, heap := h }
    | none => .done ⟨.stuck, h⟩
  | .call name arguments target stack h =>
    match m.lookup? name with
    | some f =>
      let caller : Activation :=
        ⟨s.running.function, s.running.position + 1, s.running.vars, stack⟩
      enter maxFrames f arguments ((caller, target) :: s.callers) s.depth h
    | none => .done ⟨.stuck, h⟩
  | .leave d h => leave d s.callers s.depth h
  | .fault kind h => .done ⟨.fault kind s.running.function.name, h⟩
  | .stuck h => .done ⟨.stuck, h⟩

/-- One step. A function whose body has ended returns null. -/
def step (m : Module) (maxFrames : Int) (s : State) : Next :=
  match s.running.function.body[s.running.position]? with
  | none => leave .null s.callers s.depth s.heap
  | some i => stepOf m maxFrames s (perform s.running.vars s.running.stack s.heap i)

/-- The state in which a run of the named function starts. -/
def start (m : Module) (maxFrames : Int) (entry : Text) (heap : Heap) (arguments : List Datum) :
    Next :=
  match m.lookup? entry with
  | none => .done ⟨.fault .unknownFunction [], heap⟩
  | some f => enter maxFrames f arguments [] 0 heap

def advance (m : Module) (maxFrames : Int) : Next → Next
  | .running s => step m maxFrames s
  | .done f => .done f

def outcome? : Next → Option Final
  | .running _ => none
  | .done f => some f

/-- The machine on the bodies of a module. -/
def process (m : Module) (maxFrames : Int) : Process Next Final where
  advance := advance m maxFrames
  outcome? := outcome?
  advance_of_outcome := by
    intro c o h
    cases c with
    | running s => cases h
    | done f => rfl

/-- Runs the named function; none if it takes more than `limit` steps. -/
def run (m : Module) (maxFrames : Int) (limit : Nat) (entry : Text) (heap : Heap)
    (arguments : List Datum) : Option Final :=
  outcome? ((advance m maxFrames)^[limit] (start m maxFrames entry heap arguments))

end StackCode.Proofs.Source
