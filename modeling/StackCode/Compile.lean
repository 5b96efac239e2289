import StackCode.Emit.Basic
import StackCode.Optimize

/-!
# Compilation

A module is checked, optimized if that is asked for, and emitted.
-/

namespace StackCode

namespace Compile

inductive Error where
  | invalid (problems : List Module.Problem)
  | emit (e : Emit.Error)
  deriving DecidableEq, Repr

def Error.message : Error → Text
  | invalid problems => Module.problemsMessage problems
  | emit e => e.message

/-- The outcome of a compilation, and what optimization changed on the way. -/
structure Outcome where
  stats : Stats
  result : Except Error Program

end Compile

/-- Compiles a module. An invalid one is not optimized. -/
def Module.compile (optimize : Bool) (m : Module) : Compile.Outcome :=
  match m.problems with
  | [] =>
    let (m, stats) := if optimize then m.optimize else (m, {})
    ⟨stats, m.emit.mapError .emit⟩
  | problems => ⟨{}, .error (.invalid problems)⟩

/-- Compiles modules independently of one another, each with the name of its module. -/
def Module.compileEach (optimize : Bool) (ms : List Module) : List (Text × Compile.Outcome) :=
  ms.map fun m => (m.name, m.compile optimize)

/-- Compiles modules as a batch. None if the batch was cancelled before it began; one without modules
has nothing to cancel. -/
def Module.compileAll (isCancelled optimize : Bool) (ms : List Module) :
    Option (List (Text × Compile.Outcome)) :=
  if isCancelled && !ms.isEmpty then none else some (compileEach optimize ms)

end StackCode
