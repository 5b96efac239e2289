import StackCode.MessagePack.Item
import StackCode.Program.Envelope

/-!
# MessagePack form

The envelope of a program in MessagePack. A record is a map in the order of its fields. Reading also
accepts a record as an array of all its fields; numbers are cut to the width of their field, and of
two entries for a field the later one counts.
-/

namespace StackCode

open Text

namespace Program

namespace MessagePackForm

open MessagePack (Item)

/-- A field that is left out if it is empty. -/
def unlessEmpty (isEmpty : Bool) (name : Text) (t : Text) : List (Text × Text) :=
  if isEmpty then [] else [(name, t)]

def ofFunction (f : Routine) : Text :=
  MessagePack.ofFields [
    ("name", MessagePack.ofText f.name),
    ("locals", MessagePack.ofUInt16 f.locals),
    ("params", MessagePack.ofUInt16 f.params),
    ("code", (f.code.map fun c => MessagePack.ofBytes c.toList).getD MessagePack.nil)]

def ofConstant (c : Tagged) : Text :=
  MessagePack.ofFields (
    [(Text.ofString "k", MessagePack.ofUInt8 c.kind)] ++
    unlessEmpty (!c.bool) "b" (MessagePack.ofBool c.bool) ++
    unlessEmpty (c.int == 0) "i" (MessagePack.ofInt64 c.int) ++
    unlessEmpty (c.bits == 0) "f" (MessagePack.ofUInt64 c.bits) ++
    unlessEmpty c.str.isEmpty "s" (MessagePack.ofText c.str))

def ofEnvelope (e : Envelope) : Text :=
  MessagePack.ofFields (
    [(Text.ofString "magic", MessagePack.ofText e.magic),
      (Text.ofString "version", MessagePack.ofUInt16 e.version),
      (Text.ofString "functions", MessagePack.ofList (e.functions.map ofFunction)),
      (Text.ofString "constants", MessagePack.ofList (e.constants.map ofConstant))] ++
    unlessEmpty e.symbols.isEmpty "symbols"
      (MessagePack.ofList (e.symbols.map MessagePack.ofText)))

def encode (p : Program) : Text := ofEnvelope (Envelope.ofProgram p)

/-- The lowest 64 bits of an integer, zero for nil. -/
def toBits? : Item → Option UInt64
  | .int n => some (UInt64.ofInt n)
  | .nil => some 0
  | _ => none

def toBool? : Item → Option Bool
  | .bool b => some b
  | .nil => some false
  | _ => none

/-- A string, none for nil. -/
def toBytes? : Item → Option (Option Text)
  | .str t => some (some t)
  | .nil => some none
  | _ => none

/-- A string, empty for nil. -/
def toText? (i : Item) : Option Text := (toBytes? i).map fun t => t.getD []

/-- A record as changes to what its fields held before: `set` makes the change for a field. -/
def toRecord? {α : Type} [Inhabited α] (fields : List Text) (set : Text → Item → α → Option α)
    (before : α) : Item → Option α
  | .nil => some default
  | .map entries => entries.foldlM (fun a (k, v) => (toText? k).bind fun name =>
      if fields.contains name then set name v a else some a) before
  | .array items =>
    if items.isEmpty then some default
    else if items.length = fields.length then
      (fields.zip items).foldlM (fun a (name, v) => set name v a) before
    else none
  | _ => none

/-- An array. Elements that stood at the same positions before are changed, not replaced. -/
def toList? {α : Type} [Inhabited α] (element : α → Item → Option α) (before : List α) :
    Item → Option (List α)
  | .nil => some []
  | .array items => items.zipIdx.mapM fun (i, k) => element (before.getD k default) i
  | _ => none

def functionFields : List Text := ["name", "locals", "params", "code"].map Text.ofString

def setFunction (name : Text) (i : Item) (f : Routine) : Option Routine :=
  if name = "name" then (toText? i).map fun name => { f with name }
  else if name = "locals" then (toBits? i).map fun n => { f with locals := n.toUInt16 }
  else if name = "params" then (toBits? i).map fun n => { f with params := n.toUInt16 }
  else (toBytes? i).map fun code => { f with code := code.map List.toArray }

def constantFields : List Text := ["k", "b", "i", "f", "s"].map Text.ofString

def setConstant (name : Text) (i : Item) (c : Tagged) : Option Tagged :=
  if name = "k" then (toBits? i).map fun n => { c with kind := n.toUInt8 }
  else if name = "b" then (toBool? i).map fun bool => { c with bool }
  else if name = "i" then (toBits? i).map fun n => { c with int := n.toInt64 }
  else if name = "f" then (toBits? i).map fun bits => { c with bits }
  else (toText? i).map fun str => { c with str }

def envelopeFields : List Text :=
  ["magic", "version", "functions", "constants", "symbols"].map Text.ofString

def setEnvelope (name : Text) (i : Item) (e : Envelope) : Option Envelope :=
  if name = "magic" then (toText? i).map fun magic => { e with magic }
  -- a wider number is cut to the sixteen bits of the field before anything checks it
  else if name = "version" then (toBits? i).map fun n => { e with version := n.toUInt16 }
  else if name = "functions" then
    (toList? (toRecord? functionFields setFunction) e.functions i).map
      fun functions => { e with functions }
  else if name = "constants" then
    (toList? (toRecord? constantFields setConstant) e.constants i).map
      fun constants => { e with constants }
  else match i with
    -- unlike the other lists, the symbols stay as they were
    | .nil => some e
    | _ => (toList? (fun _ => toText?) e.symbols i).map fun symbols => { e with symbols }

def toEnvelope? (i : Item) : Option Envelope := toRecord? envelopeFields setEnvelope {} i

inductive DecodeError where
  /-- The bytes are not MessagePack, or not of the shape of an envelope. -/
  | malformed
  | envelope (e : Envelope.OpenError)
  deriving DecidableEq, Repr

def decode (data : Text) : Except DecodeError Program :=
  match (MessagePack.read data).bind toEnvelope? with
  | none => .error .malformed
  | some e => e.open.mapError .envelope

end MessagePackForm

end Program

end StackCode
