import StackCode.Resolver.Basic
import StackCode.Toml.Document

/-!
# Project manifests

A project says in a configuration document how it is built and where its modules are. Every section
and every setting may be missing; unknown ones are refused.
-/

namespace StackCode

open Text

structure Manifest where
  name : Text := []
  entry : Text := []
  /-- Whether to optimize; unset counts as true. -/
  optimize? : Option Bool := none
  format : Text := []
  output : Text := []
  jobs : Int := 0
  /-- The file of the build cache, empty for none. -/
  cache : Text := []
  /-- Further roots to search, by kind of module. -/
  paths : List (Text × List Text) := []
  dir : Text := []
  deriving DecidableEq, Repr

namespace Manifest

def fileName : Text := "velac.toml"

/-- What a setting may hold. A date is taken for a text that starts with a digit. -/
inductive Shape where
  | bool
  | text (allowed : Text → Bool)
  | int (low high : Int)
  | texts

def isText : Toml.Value → Bool
  | .str _ | .datetime => true
  | _ => false

def Shape.admits : Shape → Toml.Value → Bool
  | bool, .bool _ => true
  | text allowed, .str s => allowed s
  | text allowed, .datetime => allowed "0"
  | int low high, .int n => low ≤ n.toInt && n.toInt ≤ high
  | texts, .array vs => vs.all isText
  | _, _ => false

/-- A project name: a letter or underscore, then letters, digits, underscores, periods and hyphens.
-/
def isProjectName (t : Text) : Bool :=
  let isLetter (b : UInt8) : Bool :=
    (byte 'a' ≤ b && b ≤ byte 'z') || (byte 'A' ≤ b && b ≤ byte 'Z') || b == byte '_'
  match t with
  | [] => false
  | b :: t => isLetter b && t.all fun c =>
      isLetter c || isDigitByte c || c == byte '.' || c == byte '-'

/-- The sections of a manifest, and what each setting of theirs may hold. -/
def schema : List (Text × List (Text × Shape)) :=
  [("project", [("name", .text isProjectName), ("entry", .text fun t => !t.isEmpty)]),
    ("build", [("optimize", .bool),
      ("format", .text fun t => t = "binary" || t = "cbor" || t = "msgpack"),
      ("output", .text fun _ => true), ("jobs", .int 0 256), ("cache", .text fun _ => true)]),
    ("paths", ModuleKind.all.map fun k => (k.name, .texts))]

/-- Whether a document has only settings of the schema, each with what it may hold. -/
def conforms (t : Toml.Table) : Bool :=
  t.all fun (section_, v) =>
    match schema.lookup section_, v with
    | some settings, .table fields =>
      fields.all fun (name, v) => (settings.lookup name).any (·.admits v)
    | _, _ => false

def setting? (t : Toml.Table) (section_ name : Text) : Option Toml.Value :=
  match t.lookup section_ with
  | some (.table fields) => fields.lookup name
  | _ => none

/-- The text of a setting, empty if it is unset; none for a date. -/
def textSetting (t : Toml.Table) (section_ name : Text) : Option Text :=
  match setting? t section_ name with
  | none => some []
  | some (.str s) => some s
  | some _ => none

/-- The texts of an array; none if there is a date among them. -/
def textsOf (v : Toml.Value) : Option (List Text) :=
  match v with
  | .array vs => vs.mapM fun
    | .str s => some s
    | _ => none
  | _ => none

/-- The manifest of a document that conforms to the schema; none if a text is given as a date. -/
def ofTable (t : Toml.Table) : Option Manifest := do
  let name ← textSetting t "project" "name"
  let entry ← textSetting t "project" "entry"
  let format ← textSetting t "build" "format"
  let output ← textSetting t "build" "output"
  let cache ← textSetting t "build" "cache"
  let paths ← match t.lookup (Text.ofString "paths") with
    | some (.table fields) => fields.mapM fun (k, v) => (textsOf v).map fun ts => (k, ts)
    | _ => some []
  let optimize? := match setting? t "build" "optimize" with
    | some (.bool b) => some b
    | _ => none
  let jobs := match setting? t "build" "jobs" with
    | some (.int n) => n.toInt
    | _ => 0
  return { name, entry := if entry = [] then "main" else entry, optimize?
           format := if format = [] then "binary" else format, output, jobs, cache, paths }

inductive ReadError where
  | malformed
  | invalid
  deriving DecidableEq, Repr

def ReadError.message : ReadError → Text
  | malformed => "parse error"
  | invalid => "invalid manifest"

/-- Reads a manifest. The directory is left empty. -/
def read (t : Text) : Except ReadError Manifest :=
  match Toml.read t with
  | none => .error .malformed
  | some table =>
    if conforms table then
      match ofTable table with
      | some m => .ok m
      | none => .error .malformed
    else .error .invalid

def optimize (m : Manifest) : Bool := m.optimize?.getD true

/-- The path of the build cache, empty if there is none. -/
def cachePath (m : Manifest) : Text :=
  if m.cache = [] ∨ Path.isAbsolute m.cache then m.cache else Path.join [m.dir, m.cache]

def sortedPaths (m : Manifest) : List (Text × List Text) :=
  m.paths.mergeSort fun a b => !before b.1 a.1

def unknownKindMessage (kind : Text) : Text := "[paths]: unknown module kind " ++ quote kind

/-- A resolver for the project; the error is the first unknown kind in its paths. -/
def resolver (m : Manifest) (cwd : Text) : Except Text Resolver :=
  m.sortedPaths.foldlM (fun r (kind, dirs) =>
      match ModuleKind.ofName? kind with
      | none => .error kind
      | some _ => .ok (dirs.foldl (fun r d => r.addSearchPath kind d) r))
    (Resolver.new cwd m.dir)

end Manifest

end StackCode
