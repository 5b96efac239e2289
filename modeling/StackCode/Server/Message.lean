import StackCode.Cbor.Decode
import StackCode.Optimize

/-!
# Messages

What clients and the server send each other. A message is a CBOR record with numbered fields; the
optional ones are left out when they are empty.
-/

namespace StackCode

open Text

namespace Server

/-- A field that is left out if it is empty. -/
def unlessEmpty (isEmpty : Bool) (n : Nat) (t : Text) : List (Nat × Text) :=
  if isEmpty then [] else [(n, t)]

def ofTexts (ts : List Text) : Text := Cbor.ofList (ts.map Cbor.ofText)

/-- The record of a message whose fields have the numbers from 1 to `count`. -/
def toRecord? (count : Nat) (data : Text) : Option (List (Cbor.Key × Cbor.Item)) :=
  (Cbor.read data).bind (Cbor.toRecord? ((List.range count).map fun n => .number (n + 1)))

def field? {α : Type} (record : List (Cbor.Key × Cbor.Item)) (n : Nat) (empty : α)
    (f : Cbor.Item → Option α) : Option α :=
  Cbor.field? record (.number n) empty f

structure CompileRequest where
  source : Text := []
  optimize : Bool := false
  /-- The name of the form of the program; empty for the binary form. -/
  format : Text := []
  deriving DecidableEq, Repr

namespace CompileRequest

def encode (m : CompileRequest) : Text :=
  Cbor.ofNumbered ([(1, Cbor.ofText m.source), (2, Cbor.ofBool m.optimize)] ++
    unlessEmpty m.format.isEmpty 3 (Cbor.ofText m.format))

def decode? (data : Text) : Option CompileRequest := do
  let r ← toRecord? 3 data
  let source ← field? r 1 [] Cbor.toText?
  let optimize ← field? r 2 false Cbor.toBool?
  let format ← field? r 3 [] Cbor.toText?
  return { source, optimize, format }

end CompileRequest

/-- A compiled program, or what is wrong with its module. -/
structure CompileResponse where
  success : Bool := false
  program : Text := []
  format : Text := []
  disassembly : Text := []
  diagnostics : List Text := []
  stats : Stats := {}
  cached : Bool := false
  deriving DecidableEq, Repr

namespace CompileResponse

def encode (m : CompileResponse) : Text :=
  Cbor.ofNumbered ([(1, Cbor.ofBool m.success)] ++
    unlessEmpty m.program.isEmpty 2 (Cbor.ofBytes m.program) ++
    unlessEmpty m.format.isEmpty 3 (Cbor.ofText m.format) ++
    unlessEmpty m.disassembly.isEmpty 4 (Cbor.ofText m.disassembly) ++
    unlessEmpty m.diagnostics.isEmpty 5 (ofTexts m.diagnostics) ++
    [(6, Cbor.ofInt64 m.stats.folded), (7, Cbor.ofInt64 m.stats.removed),
      (8, Cbor.ofBool m.cached)])

def decode? (data : Text) : Option CompileResponse := do
  let r ← toRecord? 8 data
  let success ← field? r 1 false Cbor.toBool?
  let program ← field? r 2 none Cbor.toBytes?
  let format ← field? r 3 [] Cbor.toText?
  let disassembly ← field? r 4 [] Cbor.toText?
  let diagnostics ← field? r 5 [] (Cbor.toList? Cbor.toText?)
  let folded ← field? r 6 0 Cbor.toInt64?
  let removed ← field? r 7 0 Cbor.toInt64?
  let cached ← field? r 8 false Cbor.toBool?
  return { success, program := program.getD [], format, disassembly, diagnostics
           stats := ⟨folded, removed⟩, cached }

end CompileResponse

/-- Asks for a function of a module to be run with integers as arguments. -/
structure RunRequest where
  source : Text := []
  entry : Text := []
  args : List Int64 := []
  optimize : Bool := false
  deriving DecidableEq, Repr

namespace RunRequest

def encode (m : RunRequest) : Text :=
  Cbor.ofNumbered ([(1, Cbor.ofText m.source), (2, Cbor.ofText m.entry)] ++
    unlessEmpty m.args.isEmpty 3 (Cbor.ofList (m.args.map Cbor.ofInt64)) ++
    [(4, Cbor.ofBool m.optimize)])

def decode? (data : Text) : Option RunRequest := do
  let r ← toRecord? 4 data
  let source ← field? r 1 [] Cbor.toText?
  let entry ← field? r 2 [] Cbor.toText?
  let args ← field? r 3 [] (Cbor.toList? Cbor.toInt64?)
  let optimize ← field? r 4 false Cbor.toBool?
  return { source, entry, args, optimize }

end RunRequest

/-- The printed result of a run, or why there is none. -/
structure RunResponse where
  success : Bool := false
  result : Text := []
  resultType : Text := []
  errorMessage : Text := []
  deriving DecidableEq, Repr

namespace RunResponse

def encode (m : RunResponse) : Text :=
  Cbor.ofNumbered ([(1, Cbor.ofBool m.success)] ++
    unlessEmpty m.result.isEmpty 2 (Cbor.ofText m.result) ++
    unlessEmpty m.resultType.isEmpty 3 (Cbor.ofText m.resultType) ++
    unlessEmpty m.errorMessage.isEmpty 4 (Cbor.ofText m.errorMessage))

def decode? (data : Text) : Option RunResponse := do
  let r ← toRecord? 4 data
  let success ← field? r 1 false Cbor.toBool?
  let result ← field? r 2 [] Cbor.toText?
  let resultType ← field? r 3 [] Cbor.toText?
  let errorMessage ← field? r 4 [] Cbor.toText?
  return { success, result, resultType, errorMessage }

end RunResponse

/-- Asks where a module is, and what it exports if it is to be loaded. -/
structure ResolveRequest where
  name : Text := []
  load : Bool := false
  deriving DecidableEq, Repr

namespace ResolveRequest

def encode (m : ResolveRequest) : Text :=
  Cbor.ofNumbered ([(1, Cbor.ofText m.name)] ++ unlessEmpty (!m.load) 2 (Cbor.ofBool m.load))

def decode? (data : Text) : Option ResolveRequest := do
  let r ← toRecord? 2 data
  let name ← field? r 1 [] Cbor.toText?
  let load ← field? r 2 false Cbor.toBool?
  return { name, load }

end ResolveRequest

/-- The path of a module, and its form and exports if it was loaded. -/
structure ResolveResponse where
  path : Text := []
  format : Text := []
  exports : List Text := []
  deriving DecidableEq, Repr

namespace ResolveResponse

def encode (m : ResolveResponse) : Text :=
  Cbor.ofNumbered ([(1, Cbor.ofText m.path)] ++
    unlessEmpty m.format.isEmpty 2 (Cbor.ofText m.format) ++
    unlessEmpty m.exports.isEmpty 3 (ofTexts m.exports))

def decode? (data : Text) : Option ResolveResponse := do
  let r ← toRecord? 3 data
  let path ← field? r 1 [] Cbor.toText?
  let format ← field? r 2 [] Cbor.toText?
  let exports ← field? r 3 [] (Cbor.toList? Cbor.toText?)
  return { path, format, exports }

end ResolveResponse

end Server

end StackCode
