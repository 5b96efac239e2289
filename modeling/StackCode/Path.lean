import StackCode.Text.Basic

/-!
# File paths

Paths are texts whose parts are divided by slashes. All operations are lexical: they look at the
text and at no file.
-/

namespace StackCode

open Text

namespace Path

def slash : UInt8 := byte '/'

def isAbsolute (p : Text) : Bool := p.head? == some slash

/-- One more part of a path, after those in `done`, the latest one first. A part `..` takes back the
part before it; above the root there is nothing to take back. -/
def addPart (rooted : Bool) (done : List Text) (part : Text) : List Text :=
  if part = "" ∨ part = "." then done
  else if part = ".." then
    match done with
    | [] => if rooted then [] else [part]
    | last :: rest => if last = ".." then part :: done else rest
  else part :: done

/-- The parts of a path that remain when `.`, `..` and repeated slashes are worked out. -/
def parts (p : Text) : List Text :=
  ((splitOn slash p).foldl (addPart (isAbsolute p)) []).reverse

/-- The shortest path that is lexically the same. -/
def clean (p : Text) : Text :=
  if isAbsolute p then slash :: Text.join "/" (parts p)
  else if parts p = [] then "." else Text.join "/" (parts p)

/-- The paths one below the other, cleaned. Empty ones at the start do not count. -/
def join (ps : List Text) : Text :=
  match ps.dropWhile (·.isEmpty) with
  | [] => []
  | ps => clean (Text.join "/" ps)

def absolute (cwd p : Text) : Text := if isAbsolute p then clean p else join [cwd, p]

/-- The directories above an absolute path up to the root, the path itself first. -/
def ancestors (p : Text) : List Text :=
  (List.range ((parts p).length + 1)).reverse.map fun n => slash :: Text.join "/" ((parts p).take n)

/-- What remains of two lists when their common beginning is taken away. -/
def diverge : List Text → List Text → List Text × List Text
  | a :: s, b :: t => if a = b then diverge s t else (a :: s, b :: t)
  | s, t => (s, t)

/-- The path that leads from the absolute directory `base` to the absolute path `p`. -/
def relative (base p : Text) : Text :=
  let (up, down) := diverge (parts base) (parts p)
  match up.map (fun _ => Text.ofString "..") ++ down with
  | [] => "."
  | ps => Text.join "/" ps

def lastPart (p : Text) : Text := (p.reverse.takeWhile (· ≠ slash)).reverse

def parent (p : Text) : Text := clean (p.take (p.length - (lastPart p).length))

/-- The last part of a path, slashes at its end left out. -/
def base (p : Text) : Text :=
  if p = [] then "."
  else
    match (p.reverse.dropWhile (· = slash)).reverse with
    | [] => "/"
    | p => lastPart p

/-- The end of the last part from its last dot on, empty if it has none. -/
def extension (p : Text) : Text :=
  match cutLast (byte '.') (lastPart p) with
  | some (_, e) => byte '.' :: e
  | none => []

end Path

end StackCode
