import StackCode.Proofs.CallDepth
import StackCode.Proofs.WatchedRuns

/-!
# Cancelled runs

A run asks whether to stop at every instruction whose number is a multiple of the poll interval, and
the numbers go on from one run of a machine to the next and from one frame to another. A run that is
told to stop whenever it asks ends soon, whatever the code: between two polls it runs at most so
many instructions, and the frames that it leaves without running one were all entered by a call.
-/

namespace StackCode.Proofs

open State (pollInterval)

/-! ### Instructions that are completed -/

/-- The instruction that the next step completes, if any. One before which the run is told to stop
is not completed. -/
def completes (s : State) : List Instruction :=
  match State.poll? (s.steps + 1) s.polls with
  | none => []
  | some _ => (current? s).toList

/-- The instructions that the first steps of a run complete, over all frames. -/
def completed (image : Image) (maxFrames : Int) : Nat → State.Next → List Instruction
  | 0, _ | _ + 1, .done _ => []
  | n + 1, .running s => completes s ++ completed image maxFrames n (s.step image maxFrames)

@[simp]
lemma completed_done (image : Image) (maxFrames : Int) (n : Nat) (f : Final) :
    completed image maxFrames n (.done f) = [] := by
  cases n <;> rfl

/-! ### Runs that are never told to stop -/

/-- The same state of a run that is never told to stop. -/
def untold : State.Next → State.Next
  | .running s => .running { s with polls := none }
  | .done f => .done f

section Untold

variable (image : Image) (maxFrames : Int)

lemma untold_enter (function : Nat) (arguments : List Datum) (callers : List Frame) (depth : Nat)
    (heap : Heap) (steps : Nat) (polls : Option Nat) :
    untold (State.enter image maxFrames function arguments callers depth heap steps polls) =
      State.enter image maxFrames function arguments callers depth heap steps none := by
  unfold State.enter
  cases image.routines[function]? with
  | none => rfl
  | some r =>
    dsimp only
    split_ifs <;> rfl

lemma untold_leave (d : Datum) (callers : List Frame) (depth : Nat) (heap : Heap) (steps : Nat)
    (polls : Option Nat) :
    untold (State.leave d callers depth heap steps polls) =
      State.leave d callers depth heap steps none := by
  cases callers <;> rfl

lemma untold_stepOf (callers : List Frame) (depth steps : Nat) (polls : Option Nat) (name : Text)
    (offset : Nat) (action : Frame.Action) :
    untold (stepOf image maxFrames callers depth steps polls name offset action) =
      stepOf image maxFrames callers depth steps none name offset action := by
  cases action with
  | call function arguments f h => exact untold_enter ..
  | leave d h => exact untold_leave ..
  | next _ _ | fault _ _ | crash _ => rfl

lemma untold_start (m : Machine) (settings : Machine.Settings) (entry : Text) (heap : Heap)
    (arguments : List Datum) :
    untold (m.start settings entry heap arguments) =
      m.start { maxFrames := settings.maxFrames } entry heap arguments := by
  unfold Machine.start
  cases m.image.routines.findIdx? fun r => r.name = entry with
  | none => rfl
  | some k => exact untold_enter ..

end Untold

/-! ### One step of a run that is to stop -/

/-- How many instructions may be completed before the next poll. -/
def instructionsLeft (s : State) : Nat := pollInterval - 1 - s.steps % pollInterval

/-- Every step takes something off: an instruction comes nearer to the poll and adds one frame at
most, any other step leaves a frame. -/
def stepsLeft (s : State) : Nat := 2 * (pollInterval - s.steps % pollInterval) + s.callers.length

section Steps

variable {image : Image} {maxFrames : Int}

lemma leave_running {d : Datum} {callers : List Frame} {depth steps : Nat} {heap : Heap}
    {polls : Option Nat} {s' : State}
    (h : State.leave d callers depth heap steps polls = .running s') :
    s'.steps = steps ∧ s'.polls = polls ∧ s'.callers.length + 1 = callers.length := by
  obtain ⟨f, rest, rfl, rfl⟩ := leave_eq_running h
  exact ⟨rfl, rfl, rfl⟩

lemma stepOf_running {callers : List Frame} {depth steps : Nat} {polls : Option Nat} {name : Text}
    {offset : Nat} {action : Frame.Action} {s' : State}
    (h : stepOf image maxFrames callers depth steps polls name offset action = .running s') :
    s'.steps = steps ∧ s'.polls = polls ∧ s'.callers.length ≤ callers.length + 1 := by
  cases action with
  | next f heap =>
    cases h
    exact ⟨rfl, rfl, Nat.le_succ _⟩
  | call function arguments f heap =>
    obtain ⟨r, -, -, rfl⟩ := enter_eq_running h
    exact ⟨rfl, rfl, Nat.le_refl _⟩
  | leave d heap =>
    obtain ⟨hsteps, hpolls, hcallers⟩ := leave_running h
    exact ⟨hsteps, hpolls, by omega⟩
  | fault cause heap => cases h
  | crash heap => cases h

/-- The three things that a step of a run that is to stop can be. -/
inductive ToldStep (image : Image) (maxFrames : Int) (s : State) : Prop
  | stopped (hstep : s.step image maxFrames = .done ⟨.cancelled, s.heap, s.steps + 1⟩)
    (hnow : completes s = []) (hnone : instructionsLeft s = 0)
  | ended {f : Final} (hstep : s.step image maxFrames = .done f)
    (huntold : State.step image maxFrames { s with polls := none } = .done f)
    (hsame : completes { s with polls := none } = completes s)
    (hnow : (completes s).length ≤ instructionsLeft s)
  | goesOn {s' : State} (hstep : s.step image maxFrames = .running s') (hpolls : s'.polls = some 0)
    (huntold : State.step image maxFrames { s with polls := none } =
      .running { s' with polls := none })
    (hsame : completes { s with polls := none } = completes s)
    (hnow : (completes s).length + instructionsLeft s' = instructionsLeft s)
    (hless : stepsLeft s' < stepsLeft s)

lemma completes_outside {s : State}
    (hout : s.frame.ip < 0 ∨ s.frame.routine.bytes.size ≤ s.frame.ip) : completes s = [] := by
  have hcurrent : current? s = none := if_pos hout
  unfold completes
  rw [hcurrent]
  split <;> rfl

/-- A step without an instruction leaves a frame, or ends the run. -/
lemma toldStep_outside (image : Image) (maxFrames : Int) {s : State} (hpolls : s.polls = some 0)
    (hout : s.frame.ip < 0 ∨ s.frame.routine.bytes.size ≤ s.frame.ip) :
    ToldStep image maxFrames s := by
  have hnow := completes_outside hout
  have hsame : completes { s with polls := none } = completes s := by
    rw [hnow]
    exact completes_outside hout
  by_cases hend : (s.frame.routine.bytes.size : Int) ≤ s.frame.ip
  · have hstep := step_at_end image maxFrames hend
    have huntold : State.step image maxFrames { s with polls := none } = _ :=
      step_at_end image maxFrames hend
    rw [← untold_leave _ _ _ _ _ s.polls, ← hstep] at huntold
    cases hnext : s.step image maxFrames with
    | done f =>
      rw [hnext] at huntold
      exact .ended hnext huntold hsame (by simp [hnow])
    | running s' =>
      rw [hnext] at huntold
      obtain ⟨hsteps, hpolls', hcallers⟩ := leave_running (hstep.symm.trans hnext)
      refine .goesOn hnext (hpolls'.trans hpolls) huntold hsame ?_ ?_
      · simp [hnow, instructionsLeft, hsteps]
      · simp only [stepsLeft, hsteps]
        omega
  · have hneg : s.frame.ip < 0 := by omega
    have hstep : s.step image maxFrames = .done ⟨.crash, s.heap, s.steps⟩ := by
      rw [step_eq, if_neg hend, if_pos hneg]
    have huntold : State.step image maxFrames { s with polls := none } =
        .done ⟨.crash, s.heap, s.steps⟩ := by
      rw [step_eq, if_neg hend, if_pos hneg]
    exact .ended hstep huntold hsame (by simp [hnow])

lemma toldStep (image : Image) (maxFrames : Int) {s : State} (hpolls : s.polls = some 0) :
    ToldStep image maxFrames s := by
  by_cases hout : s.frame.ip < 0 ∨ s.frame.routine.bytes.size ≤ s.frame.ip
  · exact toldStep_outside image maxFrames hpolls hout
  have hend : ¬(s.frame.routine.bytes.size : Int) ≤ s.frame.ip := fun h => hout (.inr h)
  have hneg : ¬s.frame.ip < 0 := fun h => hout (.inl h)
  have hcurrent : current? s =
      (State.fetch s.frame.routine.bytes s.frame.ip.toNat).toOption := if_neg hout
  have hstep := step_eq image maxFrames s
  rw [if_neg hend, if_neg hneg] at hstep
  by_cases hcount : (s.steps + 1) % pollInterval = 0
  · have hpoll : State.poll? (s.steps + 1) s.polls = none := by
      rw [hpolls, State.poll?, if_neg (not_not.mpr hcount)]
    rw [hpoll] at hstep
    refine .stopped hstep (by rw [completes, hpoll]) ?_
    unfold instructionsLeft pollInterval at *
    omega
  · have hpoll : State.poll? (s.steps + 1) s.polls = some s.polls := by
      unfold State.poll?
      rw [if_pos hcount]
    have huntold : State.step image maxFrames { s with polls := none } = _ :=
      step_eq image maxFrames { s with polls := none }
    simp only [if_neg hend, if_neg hneg, poll_none] at huntold
    rw [← untold_stepOf _ _ _ _ _ s.polls] at huntold
    rw [hpoll] at hstep
    dsimp only at hstep
    rw [← hstep] at huntold
    have hnow : completes s = (current? s).toList := by rw [completes, hpoll]
    have hsame : completes { s with polls := none } = completes s := by
      rw [hnow, completes]
      simp only [poll_none]
      rfl
    have hleft : 1 ≤ instructionsLeft s := by
      unfold instructionsLeft pollInterval at *
      omega
    cases hnext : s.step image maxFrames with
    | done f =>
      rw [hnext] at huntold
      refine .ended hnext huntold hsame ?_
      rw [hnow]
      cases current? s with
      | none => exact Nat.zero_le _
      | some i => exact hleft
    | running s' =>
      rw [hnext] at huntold hstep
      obtain ⟨hsteps, hpolls', hcallers⟩ := stepOf_running hstep.symm
      -- The run goes on, so the instruction was read.
      have hone : (completes s).length = 1 := by
        rw [hnow, hcurrent]
        cases hfetch : State.fetch s.frame.routine.bytes s.frame.ip.toNat with
        | ok i => rfl
        | error cause =>
          rw [attempt, hfetch] at hstep
          cases hstep
      refine .goesOn hnext (hpolls'.trans hpolls) huntold hsame ?_ ?_
      · rw [hone]
        unfold instructionsLeft pollInterval at *
        rw [hsteps]
        omega
      · unfold stepsLeft pollInterval at *
        rw [hsteps]
        omega

end Steps

/-! ### Whole runs -/

/-- Within some steps the run from a state ends, with no more instructions than allowed. Either it
is told to stop when it has completed as many as are allowed, or it ends as if it were never told
to. -/
structure Stops (image : Image) (maxFrames : Int) (n : Nat) (s : State) (final : Final) : Prop where
  ends : Machine.finish image maxFrames n (.running s) = some final
  few : (completed image maxFrames n (.running s)).length ≤ instructionsLeft s
  outcome : final.outcome = .cancelled ∧
      (completed image maxFrames n (.running s)).length = instructionsLeft s ∧
      completed image maxFrames n (.running s) <+:
        completed image maxFrames n (untold (.running s)) ∨
    Machine.finish image maxFrames n (untold (.running s)) = some final ∧
      completed image maxFrames n (.running s) = completed image maxFrames n (untold (.running s))

/-- A run that is told to stop whenever it asks does so within the steps left. -/
lemma exists_stops (image : Image) (maxFrames : Int) {n : Nat} {s : State}
    (hpolls : s.polls = some 0) (hleft : stepsLeft s ≤ n) :
    ∃ final, Stops image maxFrames n s final := by
  induction n generalizing s with
  | zero =>
    have hlt := Nat.mod_lt s.steps (show 0 < pollInterval by decide)
    unfold stepsLeft at hleft
    omega
  | succ n ih =>
    have hfinish : Machine.finish image maxFrames (n + 1) (.running s) =
        Machine.finish image maxFrames n (s.step image maxFrames) := rfl
    have hall : completed image maxFrames (n + 1) (.running s) =
        completes s ++ completed image maxFrames n (s.step image maxFrames) := rfl
    have hfinish' : Machine.finish image maxFrames (n + 1) (untold (.running s)) =
        Machine.finish image maxFrames n (State.step image maxFrames { s with polls := none }) := rfl
    have hall' : completed image maxFrames (n + 1) (untold (.running s)) =
        completes { s with polls := none } ++
          completed image maxFrames n (State.step image maxFrames { s with polls := none }) := rfl
    cases toldStep image maxFrames hpolls with
    | stopped hstep hnow hnone =>
      rw [hstep, finish_done] at hfinish
      rw [hstep, hnow, completed_done, List.append_nil] at hall
      refine ⟨_, hfinish, ?_, .inl ⟨rfl, ?_, ?_⟩⟩
      · rw [hall]
        exact Nat.zero_le _
      · rw [hall, hnone]
        rfl
      · rw [hall]
        exact List.nil_prefix
    | @ended f hstep huntold hsame hnow =>
      rw [hstep, finish_done] at hfinish
      rw [hstep, completed_done, List.append_nil] at hall
      rw [huntold, finish_done] at hfinish'
      rw [huntold, hsame, completed_done, List.append_nil] at hall'
      exact ⟨f, hfinish, by rw [hall]; exact hnow, .inr ⟨hfinish', by rw [hall, hall']⟩⟩
    | @goesOn s' hstep hpolls' huntold hsame hnow hless =>
      obtain ⟨final, hends, hfew, houtcome⟩ := ih hpolls' (by omega)
      rw [hstep] at hfinish hall
      rw [huntold] at hfinish' hall'
      rw [hsame] at hall'
      refine ⟨final, hfinish.trans hends, ?_, ?_⟩
      · rw [hall, List.length_append]
        omega
      · rw [hall, hall', hfinish', List.length_append]
        rcases houtcome with ⟨hcancelled, hmany, hprefix⟩ | ⟨hends', hequal⟩
        · refine .inl ⟨hcancelled, by omega, ?_⟩
          exact (List.prefix_append_right_inj _).mpr hprefix
        · refine .inr ⟨hends', ?_⟩
          rw [hequal]
          rfl

/-- A run that is told to stop whenever it asks stops, whatever the code, the limit on the frames
and the count that earlier runs have left. Over all frames it completes at most 1023 instructions.
It ends as told when the count reaches a multiple of the poll interval, and before that as the run
that is never told to stop, which completes the same instructions. -/
theorem cancelled_run_stops (m : Machine) (maxFrames : Int) (entry : Text) (heap : Heap)
    (arguments : List Datum) :
    let settings : Machine.Settings := { maxFrames, polls := some 0 }
    let instructions := completed m.image maxFrames 2048 (m.start settings entry heap arguments)
    let unstopped := completed m.image maxFrames 2048 (m.start { maxFrames } entry heap arguments)
    ∃ final, m.run settings 2048 entry heap arguments = some final ∧
      instructions.length ≤ 1023 ∧
      (final.outcome = .cancelled ∧ instructions.length = 1023 - m.steps % 1024 ∧
          instructions <+: unstopped ∨
        m.run { maxFrames } 2048 entry heap arguments = some final ∧ instructions = unstopped) := by
  intro settings instructions unstopped
  have huntold : untold (m.start settings entry heap arguments) =
      m.start { maxFrames } entry heap arguments := untold_start m settings entry heap arguments
  unfold Machine.run
  simp only [instructions, unstopped, ← huntold]
  cases hstart : m.start settings entry heap arguments with
  | done f =>
    refine ⟨f, finish_done .., ?_, .inr ⟨finish_done .., ?_⟩⟩
    · simp
    · rfl
  | running s =>
    obtain ⟨hcallers, -, hsteps, hpolls⟩ := start_running hstart
    have hleft : stepsLeft s ≤ 2048 := by
      simp only [stepsLeft, hcallers, List.length_nil, pollInterval]
      omega
    have hallowed : instructionsLeft s = 1023 - m.steps % 1024 := by
      simp only [instructionsLeft, hsteps, pollInterval]
    obtain ⟨final, hends, hfew, houtcome⟩ := exists_stops m.image maxFrames hpolls hleft
    rw [hallowed] at hfew houtcome
    exact ⟨final, hends, by omega, houtcome⟩

end StackCode.Proofs
