import StackCode.Proofs.MachineRuns

/-!
# Watched runs

A watcher is shown every instruction before the machine executes it. It reads the code in another
way than the machine does, and it is the watched run itself that ends where the reading fails. Both
runs go through the same states and end alike, and the watcher is shown what the machine executes.
The code may be any, verified or not; the runs are never told to stop.
-/

namespace StackCode.Proofs

/-! ### Runs that end alike -/

/-- The same value, or a fault of the same kind at the same place, or a crash. -/
def SameOutcome : Outcome → Outcome → Prop
  | .value d, .value d' => d = d'
  | .fault f, .fault g =>
    f.cause.kind = g.cause.kind ∧ f.function = g.function ∧ f.offset = g.offset
  | .crash, .crash => True
  | _, _ => False

structure EndAlike (f g : Final) : Prop where
  outcome : SameOutcome f.outcome g.outcome
  heap : f.heap = g.heap

/-- Two runs that are in the same state and are never told to stop, or that have ended alike. -/
inductive InStep : State.Next → State.Next → Prop
  | running {s : State} (hpolls : s.polls = none) : InStep (.running s) (.running s)
  | done {f g : Final} (h : EndAlike f g) : InStep (.done f) (.done g)

section Steps

variable (image : Image) (maxFrames : Int)

lemma inStep_enter (function : Nat) (arguments : List Datum) (callers : List Frame) (depth : Nat)
    (heap : Heap) (steps : Nat) :
    let c := State.enter image maxFrames function arguments callers depth heap steps none
    InStep c c := by
  dsimp only
  unfold State.enter
  cases image.routines[function]? with
  | none => exact .done ⟨trivial, rfl⟩
  | some r =>
    dsimp only
    split_ifs
    · exact .done ⟨⟨rfl, rfl, rfl⟩, rfl⟩
    · exact .done ⟨⟨rfl, rfl, rfl⟩, rfl⟩
    · exact .running rfl

lemma inStep_leave (d : Datum) (callers : List Frame) (depth : Nat) (heap : Heap) (steps : Nat) :
    let c := State.leave d callers depth heap steps none
    InStep c c := by
  cases callers with
  | nil => exact .done ⟨rfl, rfl⟩
  | cons f callers => exact .running rfl

lemma inStep_stepOf (callers : List Frame) (depth steps : Nat) (name : Text) (offset : Nat)
    (action : Frame.Action) :
    let c := stepOf image maxFrames callers depth steps none name offset action
    InStep c c := by
  cases action with
  | next f h => exact .running rfl
  | call function arguments f h => exact inStep_enter ..
  | leave d h => exact inStep_leave ..
  | fault cause h => exact .done ⟨⟨rfl, rfl, rfl⟩, rfl⟩
  | crash h => exact .done ⟨trivial, rfl⟩

lemma inStep_start (m : Machine) (entry : Text) (heap : Heap) (arguments : List Datum) :
    let c := m.start { maxFrames } entry heap arguments
    InStep c c := by
  dsimp only
  unfold Machine.start
  cases m.image.routines.findIdx? fun r => r.name = entry with
  | none => exact .done ⟨⟨rfl, rfl, rfl⟩, rfl⟩
  | some i => exact inStep_enter ..

end Steps

/-! ### What is executed -/

/-- The instruction that the next step executes, as the machine fetches it; none if that step
executes none. -/
def current? (s : State) : Option Instruction :=
  let code := s.frame.routine.bytes
  if s.frame.ip < 0 ∨ code.size ≤ s.frame.ip then none
  else (State.fetch code s.frame.ip.toNat).toOption

/-- The instructions that the first steps of a run execute, each with the state before it. -/
def executed (image : Image) (maxFrames : Int) : Nat → State.Next → List (State × Instruction)
  | 0, _ | _ + 1, .done _ => []
  | n + 1, .running s =>
    (current? s).toList.map (s, ·) ++ executed image maxFrames n (s.step image maxFrames)

/-- An instruction is executed in a state. -/
structure Executes (image : Image) (maxFrames : Int) (s : State) (i : Instruction) : Prop where
  position : s.frame.ip = i.offset
  fetched : State.fetch s.frame.routine.bytes i.offset = .ok i
  step : s.step image maxFrames = stepOf image maxFrames s.callers s.depth (s.steps + 1) none
    s.frame.routine.name i.offset (s.frame.execute image s.heap i)
  jump : i.op = .jump → ∃ s', s.step image maxFrames = .running s' ∧ s'.frame.ip = i.target
  branch : i.op = .jumpIf → ∀ {b rest}, s.frame.stack = .scalar (.bool b) :: rest →
    ∃ s', s.step image maxFrames = .running s' ∧
      s'.frame.ip = if b then ((i.offset + i.length : Nat) : Int) else i.target

section Execution

variable {s : State}

/-- A step is outside the code, or both the machine and the watcher take an instruction there. -/
lemma position_cases (s : State) :
    ((s.frame.ip < 0 ∨ s.frame.routine.bytes.size ≤ s.frame.ip) ∧ s.upcoming = none ∧
      current? s = none) ∨
    ∃ offset : Nat, s.frame.ip = offset ∧ offset < s.frame.routine.bytes.size ∧
      s.upcoming = some (s.frame.routine.bytes.decodeAt offset) ∧
      current? s = (s.frame.routine.bytes.decodeAt offset).toOption := by
  by_cases hout : s.frame.ip < 0 ∨ s.frame.routine.bytes.size ≤ s.frame.ip
  · exact .inl ⟨hout, by rw [State.upcoming, if_pos hout], by rw [current?, if_pos hout]⟩
  · obtain ⟨offset, hip⟩ := Int.eq_ofNat_of_zero_le (a := s.frame.ip) (by omega)
    have hlt : offset < s.frame.routine.bytes.size := by omega
    refine .inr ⟨offset, hip, hlt, ?_, ?_⟩
    · rw [State.upcoming, if_neg hout, hip]
    · rw [current?, if_neg hout, hip, Int.toNat_natCast, fetch_eq hlt]
      cases s.frame.routine.bytes.decodeAt offset <;> rfl

variable (image : Image) (maxFrames : Int)

lemma step_outside (hpolls : s.polls = none)
    (hout : s.frame.ip < 0 ∨ s.frame.routine.bytes.size ≤ s.frame.ip) :
    InStep (s.step image maxFrames) (s.step image maxFrames) := by
  by_cases hend : (s.frame.routine.bytes.size : Int) ≤ s.frame.ip
  · rw [step_at_end image maxFrames hend, hpolls]
    exact inStep_leave ..
  · have hneg : s.frame.ip < 0 := by omega
    have hcrash : s.step image maxFrames = .done ⟨.crash, s.heap, s.steps⟩ := by
      unfold State.step
      simp only [if_neg hend, if_pos hneg]
    rw [hcrash]
    exact .done ⟨trivial, rfl⟩

lemma step_unreadable (hpolls : s.polls = none) {offset : Nat} (hip : s.frame.ip = offset)
    (hlt : offset < s.frame.routine.bytes.size) {e : Code.Fault}
    (he : s.frame.routine.bytes.decodeAt offset = .error e) :
    s.step image maxFrames =
      .done ⟨.fault ⟨causeOf e, s.frame.routine.name, offset⟩, s.heap, s.steps + 1⟩ := by
  have hfetch : State.fetch s.frame.routine.bytes offset = .error (causeOf e) := by
    rw [fetch_eq hlt, he]
    rfl
  unfold State.step
  simp only [hip, Int.toNat_natCast, hfetch, hpolls, poll_none]
  rw [if_neg (by omega), if_neg (by omega)]

lemma executes_of_decodeAt (hpolls : s.polls = none) {offset : Nat} (hip : s.frame.ip = offset)
    {i : Instruction} (hi : s.frame.routine.bytes.decodeAt offset = .ok i) :
    Executes image maxFrames s i := by
  have hoffset := offset_of_decodeAt hi
  have hend := end_le_of_decodeAt hi
  have hpos := instruction_length_pos i
  have hstep := step_of_decodeAt image maxFrames hip hi
  rw [hpolls, poll_none] at hstep
  refine ⟨hoffset ▸ hip, ?_, hoffset ▸ hstep, ?_, ?_⟩
  · rw [hoffset, fetch_eq (by omega), hi]
    rfl
  · intro hop
    have htarget := target_of_decodeAt hi (by rw [hop]; rfl)
    refine ⟨⟨{ s.frame with ip := i.target }, s.callers, s.depth, s.heap, s.steps + 1, none⟩, ?_,
      rfl⟩
    simp [hstep, Frame.execute, hop, stepOf, htarget, hoffset]
  · intro hop b rest hstack
    have htarget := target_of_decodeAt hi (by rw [hop]; rfl)
    refine ⟨⟨⟨s.frame.routine, if b then (i.offset + i.length : Nat) else i.target, s.frame.slots,
      rest⟩, s.callers, s.depth, s.heap, s.steps + 1, none⟩, ?_, rfl⟩
    simp [hstep, Frame.execute, hop, hstack, stepOf, htarget, hoffset]

/-- The three things that a step can be to a watcher. -/
lemma step_cases (hpolls : s.polls = none) :
    (s.upcoming = none ∧ current? s = none ∧
      InStep (s.step image maxFrames) (s.step image maxFrames)) ∨
    (∃ i, s.upcoming = some (.ok i) ∧ current? s = some i ∧ Executes image maxFrames s i) ∨
    ∃ e, s.upcoming = some (.error e) ∧ current? s = none ∧ s.step image maxFrames =
      .done ⟨.fault ⟨causeOf e, s.frame.routine.name, s.frame.ip.toNat⟩, s.heap, s.steps + 1⟩ := by
  obtain ⟨hout, hshown, hcurrent⟩ | ⟨offset, hip, hlt, hshown, hcurrent⟩ := position_cases s
  · exact .inl ⟨hshown, hcurrent, step_outside image maxFrames hpolls hout⟩
  · cases hd : s.frame.routine.bytes.decodeAt offset with
    | ok i =>
      rw [hd] at hshown hcurrent
      exact .inr (.inl ⟨i, hshown, hcurrent, executes_of_decodeAt image maxFrames hpolls hip hd⟩)
    | error e =>
      rw [hd] at hshown hcurrent
      refine .inr (.inr ⟨e, hshown, hcurrent, ?_⟩)
      rw [step_unreadable image maxFrames hpolls hip hlt hd, hip, Int.toNat_natCast]

lemma Executes.inStep {image : Image} {maxFrames : Int} {i : Instruction}
    (h : Executes image maxFrames s i) :
    InStep (s.step image maxFrames) (s.step image maxFrames) := by
  rw [h.step]
  exact inStep_stepOf ..

@[simp]
lemma executed_done (n : Nat) (f : Final) : executed image maxFrames n (.done f) = [] := by
  cases n <;> rfl

end Execution

/-! ### Watching -/

section Watching

variable {ν : Type} (watch : Routine → Instruction → List Datum → Heap → ν) (image : Image)
  (maxFrames : Int)

/-- What the watcher notes of an instruction in a state. -/
def noteOf (x : State × Instruction) : ν := watch x.1.frame.routine x.2 x.1.frame.stack x.1.heap

/-- One step of a watched run, with the notes so far, the latest first. -/
def advanceWatched : State.Next × List ν → State.Next × List ν
  | (.running s, notes) =>
    match s.upcoming with
    | none => (s.step image maxFrames, notes)
    | some (.ok i) => (s.step image maxFrames, noteOf watch (s, i) :: notes)
    | some (.error e) =>
      let fault : Fault := ⟨.unreadable e, s.frame.routine.name, s.frame.ip.toNat⟩
      (.done ⟨.fault fault, s.heap, s.steps⟩, notes)
  | (.done f, notes) => (.done f, notes)

lemma iterate_advanceWatched_done (n : Nat) (f : Final) (notes : List ν) :
    (advanceWatched watch image maxFrames)^[n] (.done f, notes) = (.done f, notes) :=
  Function.iterate_fixed rfl n

/-- A watched run with a limit is the iteration of its steps. -/
lemma finishWatched_eq (limit : Nat) (notes : List ν) (c : State.Next) :
    Machine.finishWatched watch image maxFrames limit notes c =
      let w := (advanceWatched watch image maxFrames)^[limit] (c, notes)
      (outcome? w.1).map (·, w.2) := by
  induction limit generalizing c notes with
  | zero => cases c <;> rfl
  | succ limit ih =>
    cases c with
    | done f =>
      rw [iterate_advanceWatched_done]
      rfl
    | running s =>
      rw [Machine.finishWatched, Function.iterate_succ_apply, advanceWatched]
      cases s.upcoming with
      | none => exact ih ..
      | some shown =>
        cases shown with
        | ok i => exact ih ..
        | error e =>
          dsimp only
          rw [iterate_advanceWatched_done]
          rfl

variable {c d : State.Next}

lemma InStep.advance (h : InStep c d) (notes : List ν) :
    InStep (advance image maxFrames c) (advanceWatched watch image maxFrames (d, notes)).1 := by
  cases h with
  | done h => exact .done h
  | @running s hpolls =>
    rw [Proofs.advance, advanceWatched]
    obtain ⟨hshown, -, hstep⟩ | ⟨i, hshown, -, hi⟩ | ⟨e, hshown, -, hstep⟩ :=
      step_cases image maxFrames hpolls
    · rw [hshown]
      exact hstep
    · rw [hshown]
      exact hi.inStep
    · rw [hshown, hstep]
      exact .done ⟨⟨by cases e <;> rfl, rfl, rfl⟩, rfl⟩

lemma InStep.iterate (h : InStep c d) (notes : List ν) (n : Nat) :
    InStep ((Proofs.advance image maxFrames)^[n] c)
      ((advanceWatched watch image maxFrames)^[n] (d, notes)).1 := by
  induction n generalizing c d notes with
  | zero => exact h
  | succ n ih => exact ih (h.advance watch image maxFrames notes) _

/-- The notes are those of the executed instructions, each made before the instruction was executed.
-/
lemma notes_eq (h : InStep c c) (notes : List ν) (n : Nat) :
    ((advanceWatched watch image maxFrames)^[n] (c, notes)).2 =
      ((executed image maxFrames n c).map (noteOf watch)).reverse ++ notes := by
  induction n generalizing c notes with
  | zero => rfl
  | succ n ih =>
    cases h with
    | @done f =>
      rw [iterate_advanceWatched_done]
      rfl
    | @running s hpolls =>
      rw [Function.iterate_succ_apply, advanceWatched, executed]
      obtain ⟨hshown, hcurrent, hstep⟩ | ⟨i, hshown, hcurrent, hi⟩ | ⟨e, hshown, hcurrent, hstep⟩ :=
        step_cases image maxFrames hpolls
      · rw [hshown, hcurrent]
        exact ih hstep notes
      · rw [hshown, hcurrent]
        dsimp only
        rw [ih hi.inStep]
        simp
      · rw [hshown, hcurrent, hstep]
        dsimp only
        rw [iterate_advanceWatched_done]
        simp

variable {image maxFrames}

lemma executes_of_mem (h : InStep c c) {n : Nat} {x : State × Instruction}
    (hx : x ∈ executed image maxFrames n c) : Executes image maxFrames x.1 x.2 := by
  -- `InStep c c` says that nothing tells the run to stop, and each step keeps it
  induction n generalizing c with
  | zero => cases hx
  | succ n ih =>
    cases h with
    | done h => cases hx
    | @running s hpolls =>
      rw [executed] at hx
      obtain ⟨-, hcurrent, hstep⟩ | ⟨i, -, hcurrent, hi⟩ | ⟨e, -, hcurrent, hstep⟩ :=
        step_cases image maxFrames hpolls
      · rw [hcurrent] at hx
        exact ih hstep hx
      · rw [hcurrent] at hx
        obtain rfl | hx := List.mem_cons.mp hx
        · exact hi
        · exact ih hi.inStep hx
      · rw [hcurrent, hstep] at hx
        simp at hx

lemma InStep.outcome (h : InStep c d) : Option.Rel EndAlike (outcome? c) (outcome? d) := by
  cases h with
  | running => exact .none
  | done h => exact .some h

lemma map_const_of_rel {α β γ : Type} {R : α → β → Prop} {a : Option α} {b : Option β}
    (h : Option.Rel R a b) (x : γ) : (b.map fun _ => x) = a.map fun _ => x := by
  cases h <;> rfl

end Watching

/-- Watching changes nothing. Whatever the code, with every limit on the steps a run and the same
run under the eyes of a watcher end alike or both go on, and the notes are those of the instructions
executed by then, in order, made in the state in which the machine executes the instruction. -/
theorem watching_changes_nothing {ν : Type} (watch : Routine → Instruction → List Datum → Heap → ν)
    (m : Machine) (maxFrames : Int) (limit : Nat) (entry : Text) (heap : Heap)
    (arguments : List Datum) :
    let run := m.run { maxFrames } limit entry heap arguments
    let watched := m.runWatched watch { maxFrames } limit entry heap arguments
    let start := m.start { maxFrames } entry heap arguments
    let instructions := executed m.image maxFrames limit start
    Option.Rel EndAlike run (watched.map Prod.fst) ∧
      watched.map Prod.snd = run.map (fun _ => instructions.map (noteOf watch)) ∧
      ((advanceWatched watch m.image maxFrames)^[limit] (start, [])).2.reverse =
        instructions.map (noteOf watch) ∧
      ∀ x ∈ instructions, Executes m.image maxFrames x.1 x.2 := by
  intro run watched start instructions
  let w := (advanceWatched watch m.image maxFrames)^[limit] (start, [])
  have hstart : InStep start start := inStep_start maxFrames m entry heap arguments
  have hnotes : w.2.reverse = instructions.map (noteOf watch) := by
    rw [notes_eq watch m.image maxFrames hstart [] limit, List.append_nil, List.reverse_reverse]
  have hends : Option.Rel EndAlike run (outcome? w.1) := by
    rw [show run = _ from finish_eq ..]
    exact (hstart.iterate watch m.image maxFrames [] limit).outcome
  have hwatched : watched = (outcome? w.1).map (·, instructions.map (noteOf watch)) := by
    rw [← hnotes]
    simp only [watched, Machine.runWatched, finishWatched_eq, Option.map_map]
    rfl
  refine ⟨?_, ?_, hnotes, fun x hx => executes_of_mem hstart hx⟩
  · have hfst : watched.map Prod.fst = outcome? w.1 := by
      rw [hwatched]
      cases outcome? w.1 <;> rfl
    rw [hfst]
    exact hends
  · rw [hwatched, Option.map_map]
    exact map_const_of_rel hends _

end StackCode.Proofs
