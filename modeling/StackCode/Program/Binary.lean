import StackCode.Program.Basic
import StackCode.Text.Quoted
import StackCode.Text.Reader

/-!
# Binary form

The compact stored form of a program: a mark and a version, then functions, constants and symbols,
each list after its length. Numbers stand with the lowest byte first.
-/

namespace StackCode

open Text

namespace Program

namespace Binary

inductive EncodeError where
  | functionCount (n : Nat)
  | functionName
  | codeLength (function : Text)
  | constantCount (n : Nat)
  | stringLength
  | symbolCount (n : Nat)
  | symbol
  deriving DecidableEq, Repr

def EncodeError.message : EncodeError → Text
  | functionCount n => "function count " ++ Text.ofNat n ++ ": out of range"
  | functionName => "function name: out of range"
  | codeLength function => "function " ++ function ++ " code length: out of range"
  | constantCount n =>
    "constant count " ++ Text.ofNat n ++ " does not fit the binary form: out of range"
  | stringLength => "string constant length: out of range"
  | symbolCount n => "symbol count " ++ Text.ofNat n ++ ": out of range"
  | symbol => "symbol: out of range"

/-- A number in `width` bytes, if it fits. -/
def number (width : Nat) (n : Nat) (e : EncodeError) : Except EncodeError Text :=
  if n < Nat.pow 256 width then .ok (littleEndianBytes width n) else .error e

/-- The bytes of each element, one after the other. -/
def concatM {α : Type} (f : α → Except EncodeError Text) (xs : List α) : Except EncodeError Text :=
  (xs.mapM f).map List.flatten

def encodeFunction (f : Routine) : Except EncodeError Text := do
  let nameLength ← number 2 f.name.length .functionName
  let codeLength ← number 4 f.bytes.size (.codeLength f.name)
  return nameLength ++ f.name ++ littleEndianBytes 2 f.locals.toNat ++
    littleEndianBytes 2 f.params.toNat ++ codeLength ++ f.bytes.toList

def encodeConstant : Value → Except EncodeError Text
  | .null => .ok [0]
  | .bool b => .ok [1, if b then 1 else 0]
  | .int n => .ok (2 :: littleEndianBytes 8 n.toUInt64.toNat)
  | .float x => .ok (3 :: littleEndianBytes 8 x.bits.toNat)
  | .str s => do return 4 :: (← number 4 s.length .stringLength) ++ s

def encodeSymbol (s : Text) : Except EncodeError Text := do
  return (← number 2 s.length .symbol) ++ s

def encode (p : Program) : Except EncodeError Text := do
  let functionCount ← number 2 p.functions.length (.functionCount p.functions.length)
  let functions ← concatM encodeFunction p.functions
  let constantCount ← number 2 p.constants.length (.constantCount p.constants.length)
  let constants ← concatM encodeConstant p.constants
  let symbolCount ← number 2 p.symbols.length (.symbolCount p.symbols.length)
  let symbols ← concatM encodeSymbol p.symbols
  return magic ++ littleEndianBytes 2 version.toNat ++ functionCount ++ functions ++
    constantCount ++ constants ++ symbolCount ++ symbols

inductive DecodeError where
  | tooShort (size : Nat)
  | badMagic (head : Text)
  | newerVersion (n : Nat)
  | shortRead (what : Text) (position : Nat)
  | unknownTag (constant : Nat) (tag : UInt8)
  | trailing (n : Nat)
  deriving DecidableEq, Repr

def DecodeError.message : DecodeError → Text
  | tooShort size =>
    "bytecode too short: need at least 8 bytes, got " ++ Text.ofNat size
  | badMagic head => "invalid bytecode magic: expected " ++ quote magic ++ ", got " ++ quote head
  | newerVersion n =>
    "bytecode version " ++ Text.ofNat n ++ " is newer than supported version " ++
      Text.ofNat version.toNat
  | shortRead what position =>
    "unexpected end of bytecode reading " ++ what ++ " at pos " ++ Text.ofNat position
  | unknownTag constant tag =>
    "constant " ++ Text.ofNat constant ++ ": unknown tag 0x" ++ hexUpper 2 tag.toNat
  | trailing n => Text.ofNat n ++ " trailing bytes after symbol table"

/-- The bytes that are left, and how many were read before them. -/
structure Input where
  rest : Text
  position : Nat

abbrev Reader (α : Type) := Input → Except DecodeError (α × Input)

def bytes (n : Nat) (what : Text) : Reader Text := fun i =>
  match takeExact? n i.rest with
  | some (front, rest) => .ok (front, ⟨rest, i.position + n⟩)
  | none => .error (.shortRead what i.position)

def readNumber (width : Nat) (what : Text) : Reader Nat := fun i => do
  let (front, i) ← bytes width what i
  return (littleEndian front, i)

/-- What `step` reads, given its position in the list, `n` times from position `k` on, in reverse
before `acc`. -/
def readMany {α : Type} (step : Nat → Reader α) (k : Nat) :
    (n : Nat) → (acc : List α) → Reader (List α)
  | 0, acc, i => .ok (acc.reverse, i)
  | n + 1, acc, i =>
    match step k i with
    | .error e => .error e
    | .ok (a, i) => readMany step (k + 1) n (a :: acc) i

def readList {α : Type} (what : Text) (step : Nat → Reader α) : Reader (List α) := fun i => do
  let (n, i) ← readNumber 2 what i
  readMany step 0 n [] i

def readFunction : Reader Routine := fun i => do
  let (n, i) ← readNumber 2 "function name length" i
  let (name, i) ← bytes n "function name" i
  let (locals, i) ← readNumber 2 "local count" i
  let (params, i) ← readNumber 2 "param count" i
  let (n, i) ← readNumber 4 "code length" i
  let (code, i) ← bytes n "code" i
  return ({
    name
    code := if code.isEmpty then none else some code.toArray
    locals := locals.toUInt16
    params := params.toUInt16 }, i)

def readConstant (k : Nat) : Reader Value := fun i => do
  let (tag, i) ← readNumber 1 "constant tag" i
  match Value.Kind.ofTag? tag.toUInt8 with
  | some .null => return (.null, i)
  | some .bool => do
    let (b, i) ← readNumber 1 "bool constant" i
    return (.bool (b != 0), i)
  | some .int => do
    let (n, i) ← readNumber 8 "int constant" i
    return (.int n.toUInt64.toInt64, i)
  | some .float => do
    let (n, i) ← readNumber 8 "float constant" i
    return (.float ⟨n.toUInt64⟩, i)
  | some .str => do
    let (n, i) ← readNumber 4 "string length" i
    let (s, i) ← bytes n "string constant" i
    return (.str s, i)
  | none => .error (.unknownTag k tag.toUInt8)

def readSymbol : Reader Text := fun i => do
  let (n, i) ← readNumber 2 "symbol length" i
  bytes n "symbol" i

def isBinary (data : Text) : Bool := magic.isPrefixOf data

def decode (data : Text) : Except DecodeError Program := do
  if data.length < 8 then .error (.tooShort data.length)
  else if !isBinary data then .error (.badMagic (data.take 4))
  else
    let (v, i) ← readNumber 2 "version" ⟨data.drop 4, 4⟩
    if version.toNat < v then .error (.newerVersion v)
    else
      let (functions, i) ← readList "function count" (fun _ => readFunction) i
      let (constants, i) ← readList "constant count" readConstant i
      let (symbols, i) ← readList "symbol count" (fun _ => readSymbol) i
      if i.rest.isEmpty then return { functions, constants, symbols }
      else .error (.trailing i.rest.length)

end Binary

end Program

end StackCode
