/-!
# Worker

A worker owns a state that no two tasks may use at once. It runs the tasks that it is given one
after the other, until it is stopped.
-/

namespace StackCode

/-- The state of a worker, and whether the worker was stopped. -/
structure Worker (σ : Type) where
  state : σ
  isStopped : Bool := false

namespace Worker

/-- The result of a task, none if the worker is stopped and does not run it. -/
def perform {σ α : Type} (w : Worker σ) (task : σ → α × σ) : Option α × Worker σ :=
  if w.isStopped then (none, w)
  else
    let (a, s) := task w.state
    (some a, { w with state := s })

def stop {σ : Type} (w : Worker σ) : Worker σ := { w with isStopped := true }

end Worker

end StackCode
