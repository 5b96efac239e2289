import StackCode.Cbor.Decode
import StackCode.Program.Envelope

/-!
# CBOR form

The envelope of a program in CBOR. Writing is canonical: the fields of a record stand in the order
of their names, shorter names first, and empty fields are left out where a reader can tell.
-/

namespace StackCode

open Text

namespace Program

namespace CborForm

def ofFunction (f : Routine) : Text :=
  Cbor.ofFields [
    ("code", (f.code.map fun c => Cbor.ofBytes c.toList).getD Cbor.null),
    ("name", Cbor.ofText f.name),
    ("locals", Cbor.ofNat f.locals.toNat),
    ("params", Cbor.ofNat f.params.toNat)]

/-- A field that is left out if it is empty. -/
def unlessEmpty (isEmpty : Bool) (name : Text) (t : Text) : List (Text × Text) :=
  if isEmpty then [] else [(name, t)]

def ofConstant (c : Tagged) : Text :=
  Cbor.ofFields (
    unlessEmpty (!c.bool) "b" (Cbor.ofBool c.bool) ++
    unlessEmpty (c.bits == 0) "f" (Cbor.ofNat c.bits.toNat) ++
    unlessEmpty (c.int == 0) "i" (Cbor.ofInt64 c.int) ++
    [(Text.ofString "k", Cbor.ofNat c.kind.toNat)] ++
    unlessEmpty c.str.isEmpty "s" (Cbor.ofText c.str))

def ofEnvelope (e : Envelope) : Text :=
  Cbor.ofFields (
    [(Text.ofString "magic", Cbor.ofText e.magic)] ++
    unlessEmpty e.symbols.isEmpty "symbols" (Cbor.ofList (e.symbols.map Cbor.ofText)) ++
    [(Text.ofString "version", Cbor.ofNat e.version.toNat),
      (Text.ofString "constants", Cbor.ofList (e.constants.map ofConstant)),
      (Text.ofString "functions", Cbor.ofList (e.functions.map ofFunction))])

def encode (p : Program) : Text := ofEnvelope (Envelope.ofProgram p)

def key (name : String) : Cbor.Key := .name name

def functionFields : List Cbor.Key := ["name", "locals", "params", "code"].map key

def constantFields : List Cbor.Key := ["k", "b", "i", "f", "s"].map key

def envelopeFields : List Cbor.Key :=
  ["magic", "version", "functions", "constants", "symbols"].map key

def toFunction? (i : Cbor.Item) : Option Routine := do
  let r ← Cbor.toRecord? functionFields i
  let name ← Cbor.field? r (key "name") [] Cbor.toText?
  let locals ← Cbor.field? r (key "locals") 0 (Cbor.toNat? 65536)
  let params ← Cbor.field? r (key "params") 0 (Cbor.toNat? 65536)
  let code ← Cbor.field? r (key "code") none Cbor.toBytes?
  return {
    name
    code := code.map List.toArray
    locals := locals.toUInt16
    params := params.toUInt16 }

def toConstant? (i : Cbor.Item) : Option Tagged := do
  let r ← Cbor.toRecord? constantFields i
  let kind ← Cbor.field? r (key "k") 0 (Cbor.toNat? 256)
  let bool ← Cbor.field? r (key "b") false Cbor.toBool?
  let int ← Cbor.field? r (key "i") 0 Cbor.toInt64?
  let bits ← Cbor.field? r (key "f") 0 (Cbor.toNat? (Nat.pow 2 64))
  let str ← Cbor.field? r (key "s") [] Cbor.toText?
  return { kind := kind.toUInt8, bool, int, bits := bits.toUInt64, str }

def toEnvelope? (i : Cbor.Item) : Option Envelope := do
  let r ← Cbor.toRecord? envelopeFields i
  let magic ← Cbor.field? r (key "magic") [] Cbor.toText?
  let version ← Cbor.field? r (key "version") 0 (Cbor.toNat? 65536)
  let functions ← Cbor.field? r (key "functions") [] (Cbor.toList? toFunction?)
  let constants ← Cbor.field? r (key "constants") [] (Cbor.toList? toConstant?)
  let symbols ← Cbor.field? r (key "symbols") [] (Cbor.toList? Cbor.toText?)
  return { magic, version := version.toUInt16, functions, constants, symbols }

inductive DecodeError where
  /-- The bytes are not CBOR, or not of the shape of an envelope. -/
  | malformed
  | envelope (e : Envelope.OpenError)
  deriving DecidableEq, Repr

def decode (data : Text) : Except DecodeError Program :=
  match (Cbor.read data).bind toEnvelope? with
  | none => .error .malformed
  | some e => e.open.mapError .envelope

end CborForm

end Program

end StackCode
