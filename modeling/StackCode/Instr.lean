import StackCode.Value

/-!
# Instructions

A function body is a flat sequence of instructions for a machine with an operand stack. Branch
targets are symbolic: a label marks its own position in the body.
-/

namespace StackCode

open Text

/-- Operators on two operands. An operator code without a meaning is kept, so that it can be
reported. -/
inductive BinOp where
  | add
  | sub
  | mul
  | div
  | mod
  | eq
  | ne
  | lt
  | le
  | gt
  | ge
  | and
  | or
  | undefined (code : UInt8) (h : 13 ≤ code.toNat)
  deriving DecidableEq, Repr

namespace BinOp

/-- The operators that have a meaning, in the order of their codes. -/
def all : List BinOp := [add, sub, mul, div, mod, eq, ne, lt, le, gt, ge, and, or]

def code : BinOp → UInt8
  | add => 0
  | sub => 1
  | mul => 2
  | div => 3
  | mod => 4
  | eq => 5
  | ne => 6
  | lt => 7
  | le => 8
  | gt => 9
  | ge => 10
  | and => 11
  | or => 12
  | undefined code _ => code

def ofCode (code : UInt8) : BinOp :=
  if h : 13 ≤ code.toNat then undefined code h else all.getD code.toNat add

def name : BinOp → Text
  | add => "add"
  | sub => "sub"
  | mul => "mul"
  | div => "div"
  | mod => "mod"
  | eq => "eq"
  | ne => "ne"
  | lt => "lt"
  | le => "le"
  | gt => "gt"
  | ge => "ge"
  | and => "and"
  | or => "or"
  | undefined code _ => "binop(" ++ Text.ofNat code.toNat ++ ")"

def ofName? (w : Text) : Option BinOp := all.find? fun op => op.name = w

def isComparison : BinOp → Bool
  | eq | ne | lt | le | gt | ge => true
  | _ => false

end BinOp

inductive UnOp where
  | neg
  | not
  | undefined (code : UInt8) (h : 2 ≤ code.toNat)
  deriving DecidableEq, Repr

namespace UnOp

def code : UnOp → UInt8
  | neg => 0
  | not => 1
  | undefined code _ => code

def ofCode (code : UInt8) : UnOp :=
  if h : 2 ≤ code.toNat then undefined code h else if code = 0 then neg else not

def name : UnOp → Text
  | neg => "neg"
  | not => "not"
  | undefined code _ => "unop(" ++ Text.ofNat code.toNat ++ ")"

end UnOp

inductive Instr where
  /-- No instruction at all: an empty slot of a body built by hand. -/
  | missing
  | const (v : Value)
  | load (name : Text)
  /-- Pops into a parameter or local. -/
  | store (name : Text)
  /-- Runs an instruction that pushes one value, and stores that. -/
  | assign (name : Text) (inner : Instr)
  /-- Names a local and its type inside the body; no code. -/
  | declare (name type : Text)
  | binary (op : BinOp)
  | unary (op : UnOp)
  /-- Calls a function of the module with the topmost operands. -/
  | call (function : Text) (argc : Int)
  /-- Pops the result and leaves the function. -/
  | ret
  | jump (label : Text)
  /-- Pops a truth value and jumps if it is false. -/
  | jumpIf (label : Text)
  | label (name : Text)
  /-- Pushes a new array; `size` is the capacity it starts with. -/
  | newArray (elemType : Text) (size : Int)
  | arrayLoad
  | arrayStore
  | newObject (className : Text)
  | getProp (name : Text)
  | setProp (name : Text)
  deriving DecidableEq, Repr, Inhabited

namespace Instr

/-- How many operands an instruction pops and how many values it pushes. -/
def stackEffect : Instr → Int × Int
  | const _ | load _ | newArray _ _ | newObject _ => (0, 1)
  | store _ | ret | jumpIf _ => (1, 0)
  | assign _ inner => (inner.stackEffect.1, 0)
  | binary _ | arrayLoad => (2, 1)
  | unary _ | getProp _ => (1, 1)
  | call _ argc => (argc, 1)
  | arrayStore => (3, 0)
  | setProp _ => (2, 0)
  | missing | declare _ _ | jump _ | label _ => (0, 0)

def text : Instr → Text
  | missing => "<nil>"
  | const v => "const " ++ v.text
  | load name => "load " ++ name
  | store name => "store " ++ name
  | assign name missing => "assign " ++ name
  | assign name inner => "assign " ++ name ++ " " ++ inner.text
  | declare name type =>
    if type.isEmpty then "declare " ++ name else "declare " ++ name ++ " " ++ type
  | binary op => op.name
  | unary op => op.name
  | call function argc => "call " ++ function ++ " " ++ Text.ofInt argc
  | ret => "ret"
  | jump target => "jump " ++ target
  | jumpIf target => "jumpif " ++ target
  | label name => name ++ ":"
  | newArray elemType size =>
    if elemType.isEmpty then "newarray " ++ Text.ofInt size
    else "newarray " ++ elemType ++ " " ++ Text.ofInt size
  | arrayLoad => "aload"
  | arrayStore => "astore"
  | newObject className => "new " ++ className
  | getProp name => "getprop " ++ name
  | setProp name => "setprop " ++ name

inductive ReadError where
  | empty
  | operandCount (op : Text) (want got : Nat)
  | constant (e : Value.ReadError)
  | badName (op name : Text)
  | usageDeclare
  | usageAssign
  | inAssign (name : Text) (e : ReadError)
  | badArgumentCount (t : Text)
  | usageNewArray
  | badSize (t : Text)
  | unknown (op : Text)
  deriving Repr

def ReadError.message : ReadError → Text
  | empty => "empty instruction"
  | operandCount op want got =>
    op ++ " takes " ++ Text.ofNat want ++ " operand(s), got " ++ Text.ofNat got
  | constant e => e.message
  | badName op name => op ++ ": invalid name " ++ quote name
  | usageDeclare => "usage: declare <name> [type]"
  | usageAssign => "usage: assign <name> <instruction>"
  | inAssign name e => "assign " ++ name ++ ": " ++ e.message
  | badArgumentCount t => "call: invalid argument count " ++ quote t
  | usageNewArray => "usage: newarray [type] <size>"
  | badSize t => "newarray: invalid size " ++ quote t
  | unknown op => "unknown instruction " ++ quote op

/-- The instruction that a word alone spells. -/
def ofWord? (w : Text) : Option Instr :=
  match BinOp.ofName? w with
  | some op => some (binary op)
  | none =>
    if w = "neg" then some (unary .neg)
    else if w = "not" then some (unary .not)
    else if w = "ret" ∨ w = "return" then some ret
    else if w = "aload" then some arrayLoad
    else if w = "astore" then some arrayStore
    else none

/-- What a word makes of the name that follows it. -/
def ofNamed? (w : Text) : Option (Text → Instr) :=
  if w = "load" then some load
  else if w = "store" then some store
  else if w = "jump" then some jump
  else if w = "jumpif" then some jumpIf
  else if w = "new" then some newObject
  else if w = "getprop" then some getProp
  else if w = "setprop" then some setProp
  else none

/-- A count: a decimal integer that is not negative. -/
def count? (t : Text) : Option Int :=
  (Number.decimal? t).bind fun n => if n.toInt < 0 then none else some n.toInt

/-- The instruction that a sequence of words spells. -/
def read : List Text → Except ReadError Instr
  | [] => .error .empty
  | op :: args =>
    match ofWord? op with
    | some i => if args.isEmpty then .ok i else .error (.operandCount op 0 args.length)
    | none =>
    match ofNamed? op with
    | some make =>
      match args with
      | [name] => if isIdent name then .ok (make name) else .error (.badName op name)
      | _ => .error (.operandCount op 1 args.length)
    | none =>
    if op = "const" then
      match Value.read args with
      | .ok v => .ok (const v)
      | .error e => .error (.constant e)
    else if op = "declare" then
      match args with
      | [name] => .ok (declare name [])
      | [name, type] => .ok (declare name type)
      | _ => .error .usageDeclare
    else if op = "assign" then
      match args with
      | name :: w :: ws =>
        match read (w :: ws) with
        | .ok inner => .ok (assign name inner)
        | .error e => .error (.inAssign name e)
      | _ => .error .usageAssign
    else if op = "call" then
      match args with
      | [function, n] =>
        match count? n with
        | some argc => .ok (call function argc)
        | none => .error (.badArgumentCount n)
      | _ => .error (.operandCount op 2 args.length)
    else if op = "newarray" then
      match args with
      | [n] => array [] n
      | [type, n] => array type n
      | _ => .error .usageNewArray
    else .error (.unknown op)
where
  array (type n : Text) : Except ReadError Instr :=
    match count? n with
    | some size => .ok (newArray type size)
    | none => .error (.badSize n)

end Instr

end StackCode
