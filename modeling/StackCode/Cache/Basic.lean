import StackCode.Canonical
import StackCode.Compile
import StackCode.Program.Cbor

/-!
# Build cache

A table of compiled programs. The key of a program is the digest of what its module means for
compilation, so a module that was compiled before need not be compiled again.
-/

namespace StackCode

open Text

namespace Cache

structure Entry where
  program : Program
  stats : Stats

def Entry.encode (e : Entry) : Text :=
  Cbor.ofNumbered [(1, Cbor.ofBytes (Program.CborForm.encode e.program)),
    (2, Cbor.ofInt64 e.stats.folded), (3, Cbor.ofInt64 e.stats.removed)]

def Entry.decode? (data : Text) : Option Entry := do
  let r ← (Cbor.read data).bind (Cbor.toRecord? [.number 1, .number 2, .number 3])
  let program ← Cbor.field? r (.number 1) none Cbor.toBytes?
  let folded ← Cbor.field? r (.number 2) 0 Cbor.toInt64?
  let removed ← Cbor.field? r (.number 3) 0 Cbor.toInt64?
  let program ← (Program.CborForm.decode (program.getD [])).toOption
  return ⟨program, ⟨folded, removed⟩⟩

inductive Error where
  | notFound
  /-- The bytes under the key are no compilation. -/
  | corrupt
  /-- The cache was closed before it could do this. -/
  | closed (task : Text)
  deriving DecidableEq, Repr

def Error.message : Error → Text
  | notFound => "build cache: entry not found"
  | corrupt => "decoding cached program"
  | closed task => task ++ ": sql: database is closed"

end Cache

/-- A build cache: the bytes under each key, each key once. -/
structure Cache where
  path : Text := []
  rows : List (Text × Text) := []
  isOpen : Bool := true

namespace Cache

def insertRow (c : Cache) (key data : Text) : Cache :=
  { c with rows := (key, data) :: c.rows.filter fun (k, _) => k ≠ key }

def get (c : Cache) (key : Text) : Except Error Entry :=
  if !c.isOpen then .error (.closed "querying program")
  else
    match c.rows.lookup key with
    | none => .error .notFound
    | some data =>
      match Entry.decode? data with
      | some e => .ok e
      | none => .error .corrupt

def put (c : Cache) (key : Text) (e : Entry) : Except Error Cache :=
  if c.isOpen then .ok (c.insertRow key e.encode) else .error (.closed "saving program")

/-- The empty cache, and how many entries were removed. -/
def purge (c : Cache) : Except Error (Nat × Cache) :=
  if c.isOpen then .ok (c.rows.length, { c with rows := [] })
  else .error (.closed "purging cache")

def size (c : Cache) : Except Error Nat :=
  if c.isOpen then .ok c.rows.length else .error (.closed "counting programs")

def close (c : Cache) : Cache := { c with isOpen := false }

/-- The outcome of a compilation, and whether the cache had it. -/
structure Compilation where
  outcome : Compile.Outcome
  hit : Bool

/-- Compiles a module, or takes its compilation from the cache. An entry that cannot be read is
replaced, and a compilation that cannot be kept is no failure. -/
def compile (c : Cache) (optimize : Bool) (m : Module) : Compilation × Cache :=
  let key := m.buildKey optimize
  match c.get key with
  -- the module of a hit is neither checked nor emitted
  | .ok e => (⟨⟨e.stats, .ok e.program⟩, true⟩, c)
  | .error _ =>
    let outcome := m.compile optimize
    match outcome.result with
    | .error _ => (⟨outcome, false⟩, c)
    | .ok p =>
      match c.put key ⟨p, outcome.stats⟩ with
      | .ok c => (⟨outcome, false⟩, c)
      | .error _ => (⟨outcome, false⟩, c)

def compileWith (c : Option Cache) (optimize : Bool) (m : Module) : Compilation × Option Cache :=
  match c with
  | some c =>
    let (r, c) := c.compile optimize m
    (r, some c)
  | none => (⟨m.compile optimize, false⟩, none)

end Cache

end StackCode
