import StackCode.FileTree

/-!
# Files by path

A disk is a file tree seen from a working directory. A path is followed part by part, so every part
but the last has to be a directory that is there, also where a later `..` leaves it again.
-/

namespace StackCode

open Text

inductive FileError.Cause where
  | missing
  | notDirectory
  | isDirectory
  | present
  | notEmpty
  | nameTooLong
  | invalidName
  deriving DecidableEq, Repr

def FileError.Cause.text : FileError.Cause → Text
  | missing => "no such file or directory"
  | notDirectory => "not a directory"
  | isDirectory => "is a directory"
  | present => "file exists"
  | notEmpty => "directory not empty"
  | nameTooLong => "file name too long"
  | invalidName => "invalid argument"

structure FileError where
  action : Text
  path : Text
  cause : FileError.Cause
  deriving DecidableEq, Repr

def FileError.message (e : FileError) : Text := e.action ++ " " ++ e.path ++ ": " ++ e.cause.text

structure Disk where
  tree : FileTree := {}
  cwd : Text := "/"

namespace Disk

open FileError (Cause)

/-- The place that one more part of a path leads to. -/
def follow (t : FileTree) (place : List Text) (part : Text) : Except Cause (List Text) :=
  match t.node? place with
  | none => .error .missing
  | some (.file _) => .error .notDirectory
  | some .directory =>
    if part = "" ∨ part = "." then .ok place
    else if part = ".." then .ok place.dropLast
    else if 255 < part.length then .error .nameTooLong
    else .ok (place ++ [part])

/-- The place of a path. Nothing needs to be there yet, but its directory has to be. -/
def place (d : Disk) (p : Text) : Except Cause (List Text) :=
  if p = [] then .error .missing
  else if p.contains 0 then .error .invalidName
  else if 4096 ≤ p.length then .error .nameTooLong
  else (splitOn Path.slash p).foldlM (follow d.tree)
    (if Path.isAbsolute p then [] else Path.parts d.cwd)

def node (d : Disk) (p : Text) : Except Cause Node := do
  match d.tree.node? (← d.place p) with
  | some n => return n
  | none => throw .missing

def isPresent (d : Disk) (p : Text) : Bool := (d.node p).isOk

def read (d : Disk) (p : Text) : Except FileError Text :=
  match d.node p with
  | .ok (.file content) => .ok content
  | .ok .directory => .error ⟨"read", p, .isDirectory⟩
  | .error c => .error ⟨"open", p, c⟩

def write (d : Disk) (p : Text) (content : Text) : Except FileError Disk :=
  match d.place p with
  | .error c => .error ⟨"open", p, c⟩
  | .ok place =>
    if d.tree.node? place = some .directory then .error ⟨"open", p, .isDirectory⟩
    else .ok { d with tree := d.tree.put place (.file content) }

def trimSlashes (p : Text) : Text := (p.reverse.dropWhile (· = Path.slash)).reverse

def makeDirectory (d : Disk) (p : Text) : Except FileError Disk :=
  match d.place (trimSlashes p) with
  | .error c => .error ⟨"mkdir", p, c⟩
  | .ok place =>
    if (d.tree.node? place).isSome then .error ⟨"mkdir", p, .present⟩
    else .ok { d with tree := d.tree.put place .directory }

/-- The beginnings of a path, each up to where a part starts, and the path itself. -/
def stages (p : Text) : List Text :=
  ((List.range p.length).filter fun n =>
    n + 1 = p.length || (p[n]? = some Path.slash && p[n + 1]? ≠ some Path.slash)).map
      fun n => p.take (n + 1)

/-- The disk with a directory at a path, and above it as far as they are not there yet. -/
def makeDirectories (d : Disk) (p : Text) : Except FileError Disk :=
  (stages p).foldlM (fun d q =>
    match d.node q with
    | .ok .directory => .ok d
    | .ok (.file _) => .error ⟨"mkdir", q, .notDirectory⟩
    | .error _ => d.makeDirectory q) d

/-- The disk without the file or the empty directory at a path. -/
def remove (d : Disk) (p : Text) : Except FileError Disk :=
  match d.place p with
  | .error c => .error ⟨"remove", p, c⟩
  | .ok place =>
    if (d.tree.node? place).isNone then .error ⟨"remove", p, .missing⟩
    else if d.tree.hasEntries place then .error ⟨"remove", p, .notEmpty⟩
    else .ok { d with tree := d.tree.erase place }

def removeAll (d : Disk) (p : Text) : Disk :=
  match d.place p with
  | .ok place => { d with tree := d.tree.erase place }
  | .error _ => d

end Disk

end StackCode
