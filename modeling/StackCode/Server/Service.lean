import StackCode.Cache.Basic
import StackCode.Loader
import StackCode.Machine.Run
import StackCode.Module.Reader
import StackCode.Program.Listing
import StackCode.Server.Message
import StackCode.Server.Worker

/-!
# Services

A server compiles and runs modules that clients send it, and tells them where modules are. A module
with mistakes is a proper request: its response has the diagnostics. Refused are only requests that
make no sense and modules that cannot be found.
-/

namespace StackCode

open Text

namespace Server

inductive Code where
  | invalidArgument
  | notFound
  | failedPrecondition
  | internal
  | unavailable
  deriving DecidableEq, Repr

def Code.name : Code → Text
  | invalidArgument => "invalid_argument"
  | notFound => "not_found"
  | failedPrecondition => "failed_precondition"
  | internal => "internal"
  | unavailable => "unavailable"

structure Refusal where
  code : Code
  reason : Text
  deriving DecidableEq, Repr

def Refusal.message (r : Refusal) : Text := r.code.name ++ ": " ++ r.reason

/-- The time that a run may take, in nanoseconds, unless another limit is set. -/
def defaultRunTime : Nat := 5000000000

end Server

structure Server where
  /-- Module names are resolved by one request at a time. -/
  worker : Worker Loader
  cache : Option Cache := none
  runTime : Nat := Server.defaultRunTime

namespace Server

def new (r : Resolver) : Server := { worker := { state := { resolver := r } } }

def diagnostics : Compile.Error → List Text
  | .invalid problems => problems.map (·.message)
  | .emit e => [e.message]

def compile (s : Server) (q : CompileRequest) : Except Refusal CompileResponse × Server :=
  if q.source.isEmpty then (.error ⟨.invalidArgument, "source is required"⟩, s)
  else
    match Format.ofName? q.format, Module.read q.source with
    | none, _ => (.error ⟨.invalidArgument, Format.unknownNameMessage q.format⟩, s)
    | some _, .error mistakes => (.ok { diagnostics := mistakes.map (·.message) }, s)
    | some format, .ok m =>
      let (⟨⟨stats, result⟩, cached⟩, cache) := Cache.compileWith s.cache q.optimize m
      let s := { s with cache }
      match result with
      | .error e => (.ok { diagnostics := diagnostics e, stats }, s)
      | .ok p =>
        match p.store format with
        | .error e => (.ok { diagnostics := [e.message] }, s)
        | .ok data =>
          (.ok { success := true, program := data, format := format.name
                 disassembly := p.listing, stats, cached }, s)

def failedRun (message : Text) : RunResponse := { errorMessage := message }

def runProgram (p : Program) (time : Nat) (entry : Text) (args : List Int64) : RunResponse :=
  match Machine.load p with
  | .error e => failedRun (Machine.loadMessage e)
  | .ok machine =>
    let settings := ({} : Machine.Settings).within time
    let limit := (time / Machine.pollTime + 1) * State.pollInterval + 1
    match machine.run settings limit entry {} (args.map fun n => .scalar (.int n)) with
    | some ⟨.value d, heap, _⟩ =>
      { success := true, result := (heap.text? d).getD [], resultType := d.typeName }
    | some ⟨.fault f, _, _⟩ => failedRun f.message
    | _ => failedRun Machine.deadlineMessage

def run (s : Server) (q : RunRequest) : Except Refusal RunResponse × Server :=
  if q.source.isEmpty then (.error ⟨.invalidArgument, "source is required"⟩, s)
  else if q.entry.isEmpty then (.error ⟨.invalidArgument, "entry is required"⟩, s)
  else
    match Module.read q.source with
    | .error mistakes => (.ok (failedRun (Module.mistakesMessage mistakes)), s)
    | .ok m =>
      let (⟨⟨_, result⟩, _⟩, cache) := Cache.compileWith s.cache q.optimize m
      let s := { s with cache }
      match result with
      | .error e => (.ok (failedRun e.message), s)
      | .ok p => (.ok (runProgram p s.runTime q.entry q.args), s)

/-- The refusal of a module that is not found or not loaded. -/
def refusalOf : Loader.Error → Refusal
  | .resolve e =>
    match e.kind with
    | .unknownPrefix => ⟨.invalidArgument, e.message⟩
    | .moduleNotFound => ⟨.notFound, e.message⟩
  | e => ⟨.failedPrecondition, e.message⟩

/-- The task of finding a module, and of loading it if that is asked for. -/
def find (d : Disk) (q : ResolveRequest) (l : Loader) :
    Except Loader.Error ResolveResponse × Loader :=
  match l.resolver.resolve d.isPresent q.name with
  | (.error e, r) => (.error (.resolve e), { l with resolver := r })
  | (.ok path, r) =>
    let l := { l with resolver := r }
    if q.load then
      match l.load d q.name with
      | (.error e, l) => (.error e, l)
      | (.ok m, l) =>
        (.ok { path, format := m.format.name, exports := m.sortedExports.map Prod.fst }, l)
    else (.ok { path }, l)

def resolve (s : Server) (d : Disk) (q : ResolveRequest) :
    Except Refusal ResolveResponse × Server :=
  if q.name.isEmpty then (.error ⟨.invalidArgument, "name is required"⟩, s)
  else
    match s.worker.perform (find d q) with
    | (none, _) => (.error ⟨.internal, "worker stopped"⟩, s)
    | (some (.error e), worker) => (.error (refusalOf e), { s with worker })
    | (some (.ok r), worker) => (.ok r, { s with worker })

def stop (s : Server) : Server := { s with worker := s.worker.stop }

/-- A message as its receiver reads it. Texts that are not UTF-8 do not arrive. -/
def transmit {α : Type} (encode : α → Text) (decode? : Text → Option α) (a : α) :
    Except Refusal α :=
  match decode? (encode a) with
  | some a => .ok a
  | none => .error ⟨.invalidArgument, "unmarshal message: cbor: invalid UTF-8 string"⟩

/-- A request as it goes to the server and the response as it comes back. -/
def exchange {ρ α : Type} (ask : ρ → Except Refusal ρ) (answer : α → Except Refusal α)
    (serve : ρ → Except Refusal α × Server) (s : Server) (q : ρ) : Except Refusal α × Server :=
  match ask q with
  | .error e => (.error e, s)
  | .ok q =>
    match serve q with
    | (.error e, s) => (.error e, s)
    | (.ok a, s) => (answer a, s)

def callCompile (s : Server) (q : CompileRequest) : Except Refusal CompileResponse × Server :=
  exchange (transmit CompileRequest.encode CompileRequest.decode?)
    (transmit CompileResponse.encode CompileResponse.decode?) s.compile s q

def callRun (s : Server) (q : RunRequest) : Except Refusal RunResponse × Server :=
  exchange (transmit RunRequest.encode RunRequest.decode?)
    (transmit RunResponse.encode RunResponse.decode?) s.run s q

def callResolve (s : Server) (d : Disk) (q : ResolveRequest) :
    Except Refusal ResolveResponse × Server :=
  exchange (transmit ResolveRequest.encode ResolveRequest.decode?)
    (transmit ResolveResponse.encode ResolveResponse.decode?) (s.resolve d) s q

end Server

end StackCode
