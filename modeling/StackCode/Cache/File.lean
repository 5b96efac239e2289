import StackCode.Cache.Basic
import StackCode.Disk
import StackCode.Text.Reader

/-!
# Cache files

A build cache lives in a file. The file starts with a mark; then every row follows as its key and
its bytes, each after its length.
-/

namespace StackCode

open Text

namespace Cache

def fileMark : Text := "stack code build cache 1\n"

/-- A text after its length. -/
def framed (t : Text) : Text := bigEndianBytes 8 t.length ++ t

def takeFramed (t : Text) : Option (Text × Text) := do
  let (length, t) ← takeExact? 8 t
  takeExact? (bigEndian length) t

def takeRow (t : Text) : Option ((Text × Text) × Text) := do
  let (key, t) ← takeFramed t
  let (data, t) ← takeFramed t
  return ((key, data), t)

def takeRows : (fuel : Nat) → Text → Option (List (Text × Text))
  | _, [] => some []
  | 0, _ :: _ => none
  | fuel + 1, b :: t =>
    match takeRow (b :: t) with
    | none => none
    | some (row, t) => (takeRows fuel t).map (row :: ·)

def fileContent (rows : List (Text × Text)) : Text :=
  fileMark ++ rows.flatMap fun (key, data) => framed key ++ framed data

/-- The rows of a cache file. An empty file has none. -/
def rowsOf? (content : Text) : Option (List (Text × Text)) :=
  if content.isEmpty then some []
  else (afterPrefix? fileMark content).bind fun t => takeRows t.length t

inductive OpenError where
  | directory (e : FileError)
  | unopenable
  | notCache
  deriving DecidableEq, Repr

def OpenError.message : OpenError → Text
  | directory e => "creating cache directory: " ++ e.message
  | unopenable => "setting busy timeout: unable to open database file: out of memory (14)"
  | notCache => "creating table: file is not a database (26)"

/-- The name of a cache that lives in no file. -/
def transient : Text := ":memory:"

def save (c : Cache) (d : Disk) : Disk :=
  if c.path = transient then d else (d.write c.path (fileContent c.rows)).toOption.getD d

/-- Opens the cache in a file. A file that is not there is made, also the directories above it. -/
def openFile (d : Disk) (path : Text) : Except OpenError (Cache × Disk) := do
  let d ← (d.makeDirectories (Path.parent path)).mapError .directory
  if path = transient then return ({ path }, d)
  match d.node path with
  | .ok (.file content) =>
    match rowsOf? content with
    | some rows => return ({ path, rows }, Cache.save { path, rows } d)
    | none => throw .notCache
  | .ok .directory => throw .unopenable
  | .error _ =>
    let d ← (d.write path (fileContent [])).mapError fun _ => .unopenable
    return ({ path }, d)

end Cache

end StackCode
