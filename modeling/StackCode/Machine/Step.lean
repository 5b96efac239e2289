import StackCode.Machine.Arith
import StackCode.Program.Basic

/-!
# One step of the machine

The machine holds a stack of frames. A step runs one instruction of the topmost frame, or leaves
that frame if its code has ended.
-/

namespace StackCode

open Text

structure Image where
  routines : Array Routine
  constants : Array Value

def Program.image (p : Program) : Image := ⟨p.functions.toArray, p.constants.toArray⟩

structure Frame where
  routine : Routine
  /-- The offset of the next instruction. Only unverified code can make it negative. -/
  ip : Int := 0
  slots : Array Datum
  /-- The operands, the topmost one first. -/
  stack : List Datum := []

namespace Frame

open Fault

/-- What an instruction does to its frame. -/
inductive Action where
  | next (f : Frame) (h : Heap)
  /-- The frame waits for a function that takes the arguments. -/
  | call (function : Nat) (arguments : List Datum) (f : Frame) (h : Heap)
  | leave (result : Datum) (h : Heap)
  | fault (cause : Cause) (h : Heap)
  /-- An access out of bounds, which verified code never makes, or a store in an object without a
  table of fields. -/
  | crash (h : Heap)

def hasAtLeast {α : Type} : (n : Nat) → List α → Bool
  | 0, _ => true
  | _ + 1, [] => false
  | n + 1, _ :: l => hasAtLeast n l

/-- The text of a constant that names a class or field, empty if it is not a string. -/
def nameOf : Value → Text
  | .str s => s
  | _ => []

/-- The address of an array and an index that may lie in it. -/
def arrayIndex (array index : Datum) : Except Cause (Nat × Nat) :=
  match array with
  | .array a =>
    match index with
    | .scalar (.int i) =>
      if i.toInt < 0 ∨ 2147483647 < i.toInt then .error (.index i.toInt)
      else .ok (a, i.toInt.toNat)
    | d => .error (.indexType d.typeName)
  | d => .error (.notArray d.typeName)

def loadElement (h : Heap) (array index : Datum) : Except Cause (Option Datum) := do
  let (a, i) ← arrayIndex array index
  match h.arrays[a]? with
  | none => return none
  | some elems =>
    match elems[i]? with
    | some d => return some d
    | none => throw (.loadIndex i elems.size)

/-- The address of an array and the place of a store in it: one of its elements, or the end. -/
def storePlace (h : Heap) (array index : Datum) : Except Cause (Option (Nat × Nat)) := do
  let (a, i) ← arrayIndex array index
  match h.arrays[a]? with
  | none => return none
  | some elems => if elems.size < i then throw (.storeIndex i elems.size) else return some (a, i)

def putElement (i : Nat) (d : Datum) (elems : Array Datum) : Array Datum :=
  if i < elems.size then elems.setIfInBounds i d else elems.push d

/-- Runs an instruction, after which the frame goes on at `next`. -/
def execute (image : Image) (h : Heap) (f : Frame) (i : Instruction) : Action :=
  let ⟨routine, _, slots, stack⟩ := f
  let next : Int := (i.offset + i.length : Nat)
  let underflow (need : Nat) : Action := .fault (.underflow i.op need stack.length) h
  -- too few operands are found before a constant, a slot or the heap is looked at
  match i.op with
  | .nop => .next ⟨routine, next, slots, stack⟩ h
  | .pop =>
    match stack with
    | _ :: rest => .next ⟨routine, next, slots, rest⟩ h
    | _ => underflow 1
  | .loadConst =>
    match image.constants[i.operand]? with
    | some v => .next ⟨routine, next, slots, .scalar v :: stack⟩ h
    | none => .crash h
  | .loadLocal =>
    match slots[i.operand]? with
    | some d => .next ⟨routine, next, slots, d :: stack⟩ h
    | none => .crash h
  | .storeLocal =>
    match stack with
    | d :: rest =>
      if i.operand < slots.size then
        .next ⟨routine, next, slots.setIfInBounds i.operand d, rest⟩ h
      else .crash h
    | _ => underflow 1
  | .add | .sub | .mul | .div | .mod | .eq | .ne | .lt | .le | .gt | .ge | .and | .or =>
    match stack with
    | b :: a :: rest =>
      match a.arith i.op b with
      | .ok d => .next ⟨routine, next, slots, d :: rest⟩ h
      | .error e => .fault e h
    | _ => underflow 2
  | .neg | .not =>
    match stack with
    | a :: rest =>
      match a.unary i.op with
      | .ok d => .next ⟨routine, next, slots, d :: rest⟩ h
      | .error e => .fault e h
    | _ => underflow 1
  | .jump => .next ⟨routine, next + i.jump, slots, stack⟩ h
  | .jumpIf =>
    match stack with
    | .scalar (.bool b) :: rest =>
      .next ⟨routine, if b then next else next + i.jump, slots, rest⟩ h
    | d :: _ => .fault (.condition d.typeName) h
    | _ => underflow 1
  | .call =>
    if hasAtLeast i.argc stack then
      .call i.operand (stack.take i.argc).reverse ⟨routine, next, slots, stack.drop i.argc⟩ h
    else underflow i.argc
  | .ret =>
    match stack with
    | d :: _ => .leave d h
    | _ => underflow 1
  | .newArray =>
    let (h, d) := h.addArray #[]
    .next ⟨routine, next, slots, d :: stack⟩ h
  | .loadArray =>
    match stack with
    | index :: array :: rest =>
      match loadElement h array index with
      | .ok (some d) => .next ⟨routine, next, slots, d :: rest⟩ h
      | .ok none => .crash h
      | .error e => .fault e h
    | _ => underflow 2
  | .storeArray =>
    match stack with
    | d :: index :: array :: rest =>
      match storePlace h array index with
      | .ok (some (a, k)) =>
        let ⟨arrays, objects⟩ := h
        .next ⟨routine, next, slots, rest⟩ ⟨arrays.modify a (putElement k d), objects⟩
      | .ok none => .crash h
      | .error e => .fault e h
    | _ => underflow 3
  | .newObject =>
    match image.constants[i.operand]? with
    | some v =>
      let (h, d) := h.addObject { className := nameOf v }
      .next ⟨routine, next, slots, d :: stack⟩ h
    | none => .crash h
  | .loadField =>
    match stack with
    | object :: rest =>
      match image.constants[i.operand]? with
      | none => .crash h
      | some v =>
        match object with
        | .object a =>
          match h.objects[a]? with
          | some o => .next ⟨routine, next, slots, o.get (nameOf v) :: rest⟩ h
          | none => .crash h
        | d => .fault (.notObject (nameOf v) d.typeName) h
    | _ => underflow 1
  | .storeField =>
    match stack with
    | d :: object :: rest =>
      match image.constants[i.operand]? with
      | none => .crash h
      | some v =>
        match object with
        | .object a =>
          let ⟨arrays, objects⟩ := h
          if objects[a]?.any Object.hasTable then
            .next ⟨routine, next, slots, rest⟩ ⟨arrays, objects.modify a (·.set (nameOf v) d)⟩
          else .crash ⟨arrays, objects⟩
        | d => .fault (.notObject (nameOf v) d.typeName) h
    | _ => underflow 2

end Frame

inductive Outcome where
  | value (d : Datum)
  | fault (f : Fault)
  | cancelled
  /-- An access out of bounds, which verified code never makes, or a store in an object without a
  table of fields. -/
  | crash
  deriving DecidableEq, Repr

/-- A finished run: how it ended, the heap it left, and the count of steps by then. -/
structure Final where
  outcome : Outcome
  heap : Heap
  steps : Nat
  deriving DecidableEq, Repr

structure State where
  frame : Frame
  /-- The frames that wait, the one to return to first. -/
  callers : List Frame := []
  /-- The number of frames, the running one included. -/
  depth : Nat := 1
  heap : Heap
  /-- The instructions counted so far, those of earlier runs included. -/
  steps : Nat
  /-- How many more times the run may ask whether to stop before it is told to; none if it never
  is. -/
  polls : Option Nat := none

namespace State

inductive Next where
  | running (s : State)
  | done (f : Final)

/-- Every so many instructions a run asks whether to stop. -/
def pollInterval : Nat := 1024

/-- The slots of a new frame: the arguments, then nulls. -/
def slotsOf (n : Nat) (arguments : List Datum) : Array Datum :=
  (arguments ++ List.replicate (n - arguments.length) Datum.null).toArray

/-- Starts a function above the given callers. -/
def enter (image : Image) (maxFrames : Int) (function : Nat) (arguments : List Datum)
    (callers : List Frame) (depth : Nat) (heap : Heap) (steps : Nat) (polls : Option Nat) : Next :=
  match image.routines[function]? with
  | none => .done ⟨.crash, heap, steps⟩
  | some r =>
    if maxFrames ≤ depth then .done ⟨.fault ⟨.stackOverflow maxFrames, r.name, 0⟩, heap, steps⟩
    else if r.slots < arguments.length then
      .done ⟨.fault ⟨.arity arguments.length r.slots, r.name, 0⟩, heap, steps⟩
    else
      .running ⟨⟨r, 0, slotsOf r.slots arguments, []⟩, callers, depth + 1, heap, steps, polls⟩

/-- Leaves the running frame: the result goes to the frame that waits for it. -/
def leave (d : Datum) (callers : List Frame) (depth : Nat) (heap : Heap) (steps : Nat)
    (polls : Option Nat) : Next :=
  match callers with
  | [] => .done ⟨.value d, heap, steps⟩
  | ⟨r, ip, slots, stack⟩ :: callers =>
    .running ⟨⟨r, ip, slots, d :: stack⟩, callers, depth - 1, heap, steps, polls⟩

/-- The polls left after counting instruction number `steps`, none if the run is told to stop. -/
def poll? (steps : Nat) (polls : Option Nat) : Option (Option Nat) :=
  if steps % pollInterval ≠ 0 then some polls
  else
    match polls with
    | none => some none
    | some 0 => none
    | some (n + 1) => some (some n)

def operandByte (code : Code) (start position : Nat) : UInt8 := code.getD (start + 1 + position) 0

/-- The word behind an opcode, its higher byte first. -/
def operandWord (code : Code) (start : Nat) : UInt16 :=
  (operandByte code start 0).toUInt16 <<< 8 ||| (operandByte code start 1).toUInt16

/-- The instruction that the machine takes from the bytes at the start of one. The opcode says how
many operand bytes follow, and each operation takes the operands that it uses. -/
def fetch (code : Code) (start : Nat) : Except Fault.Cause Instruction :=
  let b := code.getD start 0
  match Opcode.ofByte? b with
  | none => .error (.unknownOpcode b)
  | some op =>
    let next := start + op.length
    if code.size < next then .error (.truncated op)
    else .ok <| match op with
      | .loadConst | .newObject | .loadField | .storeField =>
        { op, offset := start, operand := (operandWord code start).toNat }
      | .loadLocal | .storeLocal | .newArray =>
        { op, offset := start, operand := (operandByte code start 0).toNat }
      | .jump | .jumpIf =>
        let jump := (operandWord code start).toInt16.toInt
        { op, offset := start, jump, target := next + jump }
      | .call =>
        { op, offset := start, operand := (operandByte code start 0).toNat
          argc := (operandByte code start 1).toNat }
      | _ => { op, offset := start }

/-- One step. A function whose code has ended returns null. -/
def step (image : Image) (maxFrames : Int) (s : State) : Next :=
  let ⟨frame, callers, depth, heap, steps, polls⟩ := s
  let code := frame.routine.bytes
  if code.size ≤ frame.ip then leave .null callers depth heap steps polls
  else if frame.ip < 0 then .done ⟨.crash, heap, steps⟩
  else
    -- an instruction that the run is told to stop at is counted but not run
    let steps := steps + 1
    match poll? steps polls with
    | none => .done ⟨.cancelled, heap, steps⟩
    | some polls =>
      let name := frame.routine.name
      let start := frame.ip.toNat
      match fetch code start with
      | .error cause => .done ⟨.fault ⟨cause, name, start⟩, heap, steps⟩
      | .ok i =>
        match frame.execute image heap i with
        | .next frame heap => .running ⟨frame, callers, depth, heap, steps, polls⟩
        | .call function arguments frame heap =>
          enter image maxFrames function arguments (frame :: callers) depth heap steps polls
        | .leave d heap => leave d callers depth heap steps polls
        | .fault cause heap => .done ⟨.fault ⟨cause, name, i.offset⟩, heap, steps⟩
        | .crash heap => .done ⟨.crash, heap, steps⟩

/-- The instruction that a watcher is shown before the next step, none if that step runs none. -/
def upcoming (s : State) : Option (Except Code.Fault Instruction) :=
  let code := s.frame.routine.bytes
  if s.frame.ip < 0 ∨ code.size ≤ s.frame.ip then none else some (code.decodeAt s.frame.ip)

end State

end StackCode
