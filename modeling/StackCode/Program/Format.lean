import StackCode.Program.Binary
import StackCode.Program.Cbor
import StackCode.Program.MessagePack

/-!
# Stored forms

A program is stored in one of three forms. Reading finds out which: the binary form by its mark,
then CBOR, then MessagePack.
-/

namespace StackCode

open Text

inductive Format where
  | binary
  | cbor
  | msgpack
  deriving DecidableEq, Repr

namespace Format

def name : Format → Text
  | binary => "binary"
  | cbor => "cbor"
  | msgpack => "msgpack"

/-- The form of a name; the binary form also has the empty name. -/
def ofName? (t : Text) : Option Format :=
  if t = "binary" ∨ t.isEmpty then some binary
  else if t = "cbor" then some cbor
  else if t = "msgpack" then some msgpack
  else none

/-- The message for a name that is no form's, with the names that are. -/
def unknownNameMessage (t : Text) : Text :=
  "unknown program format " ++ quote t ++ " (want binary, cbor or msgpack)"

end Format

namespace Program

inductive StoreError where
  | unknownFormat (name : Text)
  | binary (e : Binary.EncodeError)
  deriving DecidableEq, Repr

def StoreError.message : StoreError → Text
  | unknownFormat name => "unknown program format " ++ quote name
  | binary e => e.message

def store (p : Program) : Format → Except StoreError Text
  | .binary => (Binary.encode p).mapError .binary
  | .cbor => .ok (CborForm.encode p)
  | .msgpack => .ok (MessagePackForm.encode p)

def storeNamed (p : Program) (name : Text) : Except StoreError Text :=
  match Format.ofName? name with
  | some f => p.store f
  | none => .error (.unknownFormat name)

inductive LoadError where
  | binary (e : Binary.DecodeError)
  | unrecognised (head : Text)
  deriving DecidableEq, Repr

def LoadError.message : LoadError → Text
  | binary e => e.message
  | unrecognised head =>
    "unrecognised program encoding (leading bytes " ++ join " " (head.map hexOfByte) ++ ")"

/-- The program that bytes hold, and the form they hold it in. -/
def load (data : Text) : Except LoadError (Program × Format) :=
  if Binary.isBinary data then
    match Binary.decode data with
    | .ok p => .ok (p, .binary)
    | .error e => .error (.binary e)
  else
    match CborForm.decode data with
    | .ok p => .ok (p, .cbor)
    | .error _ =>
      match MessagePackForm.decode data with
      | .ok p => .ok (p, .msgpack)
      | .error _ => .error (.unrecognised (data.take 8))

end Program

end StackCode
