import StackCode.Machine.Step

/-!
# Runs of the machine

A run starts a function of a verified program and takes steps until it ends. It may be watched: the
watcher sees every instruction before it runs.
-/

namespace StackCode

/-- A verified program, with the count of the instructions run so far. -/
structure Machine where
  image : Image
  steps : Nat := 0

namespace Machine

def defaultMaxFrames : Int := 1024

def load (p : Program) : Except Program.VerifyError Machine := do
  p.verify
  return { image := p.image }

def loadMessage (e : Program.VerifyError) : Text := "vm: invalid program: " ++ e.message

/-- The machine with the code of a function replaced, without verification. -/
def patch (m : Machine) (function : Nat) (code : Code) : Machine :=
  { m with image := { m.image with
      routines := m.image.routines.modify function fun r => { r with code := some code } } }

structure Settings where
  maxFrames : Int := defaultMaxFrames
  /-- How many times the run may ask whether to stop before it is told to; none if it never is. -/
  polls : Option Nat := none

/-- The nanoseconds that pass between two times at which a run asks whether to stop. -/
def pollTime : Nat := 200000

/-- The settings of a run that is told to stop after some nanoseconds. -/
def Settings.within (s : Settings) (time : Nat) : Settings :=
  { s with polls := some (time / pollTime) }

def deadlineMessage : Text := "context deadline exceeded"

def start (m : Machine) (s : Settings) (entry : Text) (heap : Heap) (arguments : List Datum) :
    State.Next :=
  match m.image.routines.findIdx? fun r => r.name = entry with
  | none => .done ⟨.fault { cause := .unknownFunction entry }, heap, m.steps⟩
  | some i => State.enter m.image s.maxFrames i arguments [] 0 heap m.steps s.polls

/-- Takes at most `limit` steps; none if the run then goes on. -/
def finish (image : Image) (maxFrames : Int) : (limit : Nat) → State.Next → Option Final
  | _, .done f => some f
  | 0, .running _ => none
  | limit + 1, .running s => finish image maxFrames limit (s.step image maxFrames)

/-- Takes at most `limit` steps and notes what `watch` sees before each instruction, the latest note
first. An instruction that cannot be read ends the run before it is counted. -/
def finishWatched {ν : Type} (watch : Routine → Instruction → List Datum → Heap → ν)
    (image : Image) (maxFrames : Int) : (limit : Nat) → (notes : List ν) → State.Next →
    Option (Final × List ν)
  | _, notes, .done f => some (f, notes)
  | 0, _, .running _ => none
  | limit + 1, notes, .running s =>
    match s.upcoming with
    | none => finishWatched watch image maxFrames limit notes (s.step image maxFrames)
    | some (.ok i) =>
      let note := watch s.frame.routine i s.frame.stack s.heap
      finishWatched watch image maxFrames limit (note :: notes) (s.step image maxFrames)
    | some (.error e) =>
      let fault : Fault := ⟨.unreadable e, s.frame.routine.name, s.frame.ip.toNat⟩
      some (⟨.fault fault, s.heap, s.steps⟩, notes)

def run (m : Machine) (s : Settings) (limit : Nat) (entry : Text) (heap : Heap)
    (arguments : List Datum) : Option Final :=
  finish m.image s.maxFrames limit (m.start s entry heap arguments)

/-- Runs the named function under the eyes of a watcher; also gives the notes, in order. -/
def runWatched {ν : Type} (watch : Routine → Instruction → List Datum → Heap → ν) (m : Machine)
    (s : Settings) (limit : Nat) (entry : Text) (heap : Heap) (arguments : List Datum) :
    Option (Final × List ν) :=
  (finishWatched watch m.image s.maxFrames limit [] (m.start s entry heap arguments)).map
    fun (f, notes) => (f, notes.reverse)

end Machine

end StackCode
