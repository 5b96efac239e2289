import StackCode.Toml.Reader

/-!
# The table of a configuration document

The lines of a document build one table. A table that a longer key implies may still be opened by a
line of its own, once; any other key is defined once.
-/

namespace StackCode

namespace Toml

inductive Value where
  | str (s : Text)
  | int (n : Int64)
  | float
  | bool (b : Bool)
  | datetime
  | array (elems : List Value)
  | table (fields : List (Text × Value))
  /-- A list of tables, opened one by one; the latest one is first. -/
  | tables (elems : List (List (Text × Value)))

/-- The fields of a table, each name once. -/
abbrev Table := List (Text × Value)

def Table.put (name : Text) (v : Value) : Table → Table
  | [] => [(name, v)]
  | (n, old) :: rest => if n = name then (name, v) :: rest else (n, old) :: Table.put name v rest

/-- The table at a key, and in a list of tables at the latest one. -/
def Table.at? : Key → Table → Option Table
  | [], t => some t
  | k :: ks, t =>
    match t.lookup k with
    | some (.table u) => Table.at? ks u
    | some (.tables (u :: _)) => Table.at? ks u
    | _ => none

/-- The table with the one at a key changed. -/
def Table.modify (f : Table → Table) : Key → Table → Table
  | [], t => f t
  | k :: ks, t =>
    match t.lookup k with
    | some (.table u) => Table.put k (.table (Table.modify f ks u)) t
    | some (.tables (u :: us)) => Table.put k (.tables (Table.modify f ks u :: us)) t
    | _ => t

structure Builder where
  root : Table := []
  /-- The tables that exist only because a key implies them. -/
  implied : List Key := []
  /-- The keys whose value is an array. -/
  arrays : List Key := []

namespace Builder

def imply (b : Builder) (k : Key) : Builder := { b with implied := k :: b.implied }

def unimply (b : Builder) (k : Key) : Builder := { b with implied := b.implied.filter (· ≠ k) }

def put (b : Builder) (context : Key) (name : Text) (v : Value) : Builder :=
  { b with root := Table.modify (Table.put name v) context b.root }

/-- Notes whether the value at a key is an array. An empty name stands for the table itself. -/
def note (b : Builder) (context : Key) (name : Text) (isArray : Bool) : Builder :=
  let k : Key := if name ≠ [] then context ++ [name] else if context = [] then [[]] else context
  let rest := b.arrays.filter (· ≠ k)
  { b with arrays := if isArray then k :: rest else rest }

/-- Defines a field of the table at `context`. A field that exists has to be implied: then an array
takes the new value, and a table stays. -/
def define (b : Builder) (context : Key) (name : Text) (v : Value) : Option Builder := do
  let t ← Table.at? context b.root
  let k := context ++ [name]
  match t.lookup name with
  | none => return b.put context name v
  | some _ =>
    if b.implied.contains k then
      let b := b.unimply k
      return if b.arrays.contains k then b.put context name v else b
    else none

/-- Makes sure that the tables on the way to a key exist; `done` is the way so far. -/
def imagine (b : Builder) (done : Key) : Key → Option Builder
  | [] => some b
  | k :: ks => do
    let t ← Table.at? done b.root
    match t.lookup k with
    | none => ((b.imply (done ++ [k])).put done k (.table [])).imagine (done ++ [k]) ks
    | some (.table _) | some (.tables _) => b.imagine (done ++ [k]) ks
    | some _ => none

/-- Opens the table at a key, or a further element of the list of tables there. -/
def openTable (b : Builder) (key : Key) (element : Bool) : Option Builder := do
  let context := key.dropLast
  let name := key.getLastD []
  let b ← b.imagine [] context
  if element then
    let t ← Table.at? context b.root
    match t.lookup name with
    | none => return b.put context name (.tables [[]])
    | some (.tables us) => return b.put context name (.tables ([] :: us))
    | some _ => none
  else b.define context name (.table [])

/-- Opens the tables that the leading parts of a key imply, one below the other. -/
def openImplied (b : Builder) (context : Key) : Key → Option (Builder × Key)
  | [] => some (b, context)
  | k :: ks => do
    let context := context ++ [k]
    let b ← (b.imply context).openTable context false
    b.openImplied context ks

/-- Writes a value into nested tables, which are made as needed. -/
def insert (name : Text) (v : Value) : Key → Table → Option Table
  | [], t => some (Table.put name v t)
  | k :: ks, t =>
    match t.lookup k with
    | none => (insert name v ks []).map fun u => Table.put k (.table u) t
    | some (.table u) => (insert name v ks u).map fun u => Table.put k (.table u) t
    | some _ => none

def isArray : Term → Bool
  | .array _ => true
  | _ => false

mutual

/-- The value of a term that is given to `name` in the table at `context`. The tables inside it are
opened on the way. -/
def value (context : Key) (name : Text) (inArray : Bool) : Term → Builder → Option (Value × Builder)
  | .str s, b => some (.str s, b)
  | .int n, b => some (.int n, b)
  | .float, b => some (.float, b)
  | .bool x, b => some (.bool x, b)
  | .datetime, b => some (.datetime, b)
  | .array elems, b =>
    match values context name elems (b.note context name true) with
    | some (vs, b) => some (.array vs, b)
    | none => none
  | .inline pairs, b =>
    let context := context ++ [name]
    match (b.imply context).openTable context inArray with
    | none => none
    | some b =>
      match fields context pairs [] b with
      | some (t, b) => some (.table t, b)
      | none => none

def values (context : Key) (name : Text) : List Term → Builder → Option (List Value × Builder)
  | [], b => some ([], b)
  | e :: es, b =>
    match value context name true e b with
    | none => none
    | some (v, b) =>
      match values context name es b with
      | some (vs, b) => some (v :: vs, b)
      | none => none

/-- The fields of an inline table, after those of `done`. -/
def fields (context : Key) : List (Key × Term) → (done : Table) → Builder → Option (Table × Builder)
  | [], done, b => some (done, b)
  | (key, e) :: rest, done, b =>
    match b.openImplied context key.dropLast with
    | none => none
    | some (b, inner) =>
      match value inner (key.getLastD []) false e b with
      | none => none
      | some (v, b) =>
        match b.define inner (key.getLastD []) v, insert (key.getLastD []) v key.dropLast done with
        | some b, some done => fields context rest done (b.note inner (key.getLastD []) (isArray e))
        | _, _ => none

end

/-- The document with one more line; `context` is the table opened last. -/
def line (b : Builder) (context : Key) : Line → Option (Builder × Key)
  | .table key => do
    let b ← b.openTable key false
    return (b.note key [] false, key)
  | .element key => do
    let b ← b.openTable key true
    return (b.note key [] false, key)
  | .assign key e => do
    let name := key.getLastD []
    let (b, inner) ← b.openImplied context key.dropLast
    let (v, b) ← value inner name false e b
    let b ← b.define inner name v
    return (b.note inner name (isArray e), context)

end Builder

def read (t : Text) : Option Table := do
  let lines ← readLines t
  let (b, _) ← lines.foldlM (fun (b, context) l => b.line context l) (({} : Builder), ([] : Key))
  return b.root

end Toml

end StackCode
