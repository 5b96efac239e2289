import StackCode.Machine.Run
import StackCode.Proofs.Fetching
import StackCode.Proofs.Process

/-!
# Runs of the machine as a process

A run with a limit is the iteration of one step, so it ends with an outcome, or goes on beyond every
limit. A step is what the instruction at the instruction pointer does to its frame.
-/

namespace StackCode.Proofs

/-! ### Iterated steps -/

def advance (image : Image) (maxFrames : Int) : State.Next → State.Next
  | .running s => s.step image maxFrames
  | .done f => .done f

def outcome? : State.Next → Option Final
  | .running _ => none
  | .done f => some f

/-- The machine on a program. -/
def process (image : Image) (maxFrames : Int) : Process State.Next Final where
  advance := advance image maxFrames
  outcome? := outcome?
  advance_of_outcome := by
    intro c o h
    cases c with
    | running s => cases h
    | done f => rfl

lemma finish_eq (image : Image) (maxFrames : Int) (limit : Nat) (c : State.Next) :
    Machine.finish image maxFrames limit c = outcome? ((advance image maxFrames)^[limit] c) := by
  induction limit generalizing c with
  | zero => cases c <;> rfl
  | succ limit ih =>
    cases c with
    | done f =>
      have hfix : advance image maxFrames (.done f) = .done f := rfl
      rw [Function.iterate_fixed hfix, Machine.finish]
      rfl
    | running s =>
      rw [Function.iterate_succ_apply, Machine.finish, ih]
      rfl

lemma finish_done (image : Image) (maxFrames : Int) (n : Nat) (f : Final) :
    Machine.finish image maxFrames n (.done f) = some f := by
  cases n <;> rfl

/-- What a run starts with and every step keeps that goes on, holds in all states of the run. -/
lemma Process.Reaches.state_invariant {image : Image} {maxFrames : Int} {c : State.Next}
    {P : State → Prop} {s : State} (h : (process image maxFrames).Reaches c (.running s))
    (hstart : ∀ s, c = .running s → P s)
    (hstep : ∀ s s', (process image maxFrames).Reaches c (.running s) → P s →
      s.step image maxFrames = .running s' → P s') : P s := by
  obtain ⟨n, hn⟩ := h
  induction n generalizing s with
  | zero => exact hstart s hn
  | succ n ih =>
    rw [Function.iterate_succ_apply'] at hn
    cases hlast : (process image maxFrames).advance^[n] c with
    | done f =>
      rw [hlast] at hn
      cases hn
    | running t =>
      rw [hlast] at hn
      exact hstep t s ⟨n, hlast⟩ (ih hlast) hn

section Frames

variable {image : Image} {maxFrames : Int} {callers : List Frame} {depth : Nat} {heap : Heap}
  {steps : Nat} {polls : Option Nat} {s' : State}

/-- A function that is entered starts above its callers, if the limit allows one more frame. -/
lemma enter_eq_running {function : Nat} {arguments : List Datum}
    (h : State.enter image maxFrames function arguments callers depth heap steps polls =
      .running s') :
    ∃ r, image.routines[function]? = some r ∧ (depth : Int) < maxFrames ∧ s' =
      ⟨⟨r, 0, State.slotsOf r.slots arguments, []⟩, callers, depth + 1, heap, steps, polls⟩ := by
  unfold State.enter at h
  split at h
  · cases h
  · rename_i r hr
    split_ifs at h with hfull harity
    cases h
    exact ⟨r, hr, by omega, rfl⟩

/-- A frame is left to the one that waits for its result. -/
lemma leave_eq_running {d : Datum}
    (h : State.leave d callers depth heap steps polls = .running s') :
    ∃ f rest, callers = f :: rest ∧
      s' = ⟨{ f with stack := d :: f.stack }, rest, depth - 1, heap, steps, polls⟩ := by
  cases callers with
  | nil => cases h
  | cons f rest =>
    cases h
    exact ⟨f, rest, rfl, rfl⟩

lemma start_running {m : Machine} {settings : Machine.Settings} {entry : Text}
    {arguments : List Datum} {s : State}
    (h : m.start settings entry heap arguments = .running s) :
    s.callers = [] ∧ s.heap = heap ∧ s.steps = m.steps ∧ s.polls = settings.polls := by
  unfold Machine.start at h
  split at h
  · cases h
  · obtain ⟨r, -, -, rfl⟩ := enter_eq_running h
    exact ⟨rfl, rfl, rfl, rfl⟩

end Frames

/-! ### How runs end -/

/-- The run returns a value and leaves a heap. -/
def Returns (run : Nat → Option Final) (d : Datum) (h : Heap) : Prop :=
  ∃ limit steps, run limit = some ⟨.value d, h, steps⟩

/-- The run ends with a fault of a kind, in a function, and leaves a heap. -/
def Faults (run : Nat → Option Final) (kind : Fault.Kind) (function : Text) (h : Heap) : Prop :=
  ∃ limit fault steps, run limit = some ⟨.fault fault, h, steps⟩ ∧ fault.cause.kind = kind ∧
    fault.function = function

/-- The run goes on beyond every limit. -/
def RunsForever {ω : Type} (run : Nat → Option ω) : Prop := ∀ limit, run limit = none

/-! ### One step -/

lemma hasAtLeast_iff {α : Type} {n : Nat} {l : List α} :
    Frame.hasAtLeast n l ↔ n ≤ l.length := by
  induction n generalizing l with
  | zero => simp [Frame.hasAtLeast]
  | succ n ih =>
    cases l with
    | nil => simp [Frame.hasAtLeast]
    | cons a l => simpa [Frame.hasAtLeast] using ih

lemma poll_none (steps : Nat) : State.poll? steps none = some none := by
  unfold State.poll?
  split_ifs <;> rfl

/-- The step that an instruction makes of what it does to its frame. -/
def stepOf (image : Image) (maxFrames : Int) (callers : List Frame) (depth steps : Nat)
    (polls : Option Nat) (name : Text) (offset : Nat) : Frame.Action → State.Next
  | .next frame heap => .running ⟨frame, callers, depth, heap, steps, polls⟩
  | .call function arguments frame heap =>
    State.enter image maxFrames function arguments (frame :: callers) depth heap steps polls
  | .leave d heap => State.leave d callers depth heap steps polls
  | .fault cause heap => .done ⟨.fault ⟨cause, name, offset⟩, heap, steps⟩
  | .crash heap => .done ⟨.crash, heap, steps⟩

lemma step_of_decodeAt (image : Image) (maxFrames : Int) {s : State} {offset : Nat}
    {i : Instruction} (hip : s.frame.ip = offset)
    (hd : s.frame.routine.bytes.decodeAt offset = .ok i) :
    s.step image maxFrames =
      match State.poll? (s.steps + 1) s.polls with
      | none => .done ⟨.cancelled, s.heap, s.steps + 1⟩
      | some polls => stepOf image maxFrames s.callers s.depth (s.steps + 1) polls
          s.frame.routine.name offset (s.frame.execute image s.heap i) := by
  have hend := end_le_of_decodeAt hd
  have hpos := instruction_length_pos i
  have hoff := offset_of_decodeAt hd
  have hfetch : State.fetch s.frame.routine.bytes offset = .ok i := by
    rw [fetch_eq (by omega), hd]
    rfl
  unfold State.step
  simp only [hip, Int.toNat_natCast, hfetch]
  rw [if_neg (by omega), if_neg (by omega)]
  cases State.poll? (s.steps + 1) s.polls with
  | none => rfl
  | some polls =>
    simp only [← hoff]
    cases s.frame.execute image s.heap i <;> rfl

lemma step_at_end (image : Image) (maxFrames : Int) {s : State}
    (hip : (s.frame.routine.bytes.size : Int) ≤ s.frame.ip) :
    s.step image maxFrames = State.leave .null s.callers s.depth s.heap s.steps s.polls := by
  unfold State.step
  simp only
  rw [if_pos hip]

/-- What a frame does at the offset that it has reached. -/
def attempt (image : Image) (h : Heap) (f : Frame) : Frame.Action :=
  match State.fetch f.routine.bytes f.ip.toNat with
  | .error cause => .fault cause h
  | .ok i => f.execute image h i

lemma offset_of_fetch {code : Code} {start : Nat} {i : Instruction} (hstart : start < code.size)
    (h : State.fetch code start = .ok i) : i.offset = start := by
  rw [fetch_eq hstart] at h
  cases hd : code.decodeAt start with
  | error e =>
    rw [hd] at h
    cases h
  | ok j =>
    rw [hd] at h
    cases h
    exact offset_of_decodeAt hd

/-- A step leaves a frame that has ended, stops where the run is told to, or makes the attempt of
the frame. -/
lemma step_eq (image : Image) (maxFrames : Int) (s : State) :
    s.step image maxFrames =
      if s.frame.routine.bytes.size ≤ s.frame.ip then
        State.leave .null s.callers s.depth s.heap s.steps s.polls
      else if s.frame.ip < 0 then .done ⟨.crash, s.heap, s.steps⟩
      else
        match State.poll? (s.steps + 1) s.polls with
        | none => .done ⟨.cancelled, s.heap, s.steps + 1⟩
        | some polls => stepOf image maxFrames s.callers s.depth (s.steps + 1) polls
            s.frame.routine.name s.frame.ip.toNat (attempt image s.heap s.frame) := by
  unfold State.step attempt
  simp only
  split_ifs with hend hneg
  · rfl
  · rfl
  · cases State.poll? (s.steps + 1) s.polls with
    | none => rfl
    | some polls =>
      dsimp only
      cases hfetch : State.fetch s.frame.routine.bytes s.frame.ip.toNat with
      | error cause => rfl
      | ok i =>
        have hoffset := offset_of_fetch (by omega) hfetch
        dsimp only
        cases s.frame.execute image s.heap i <;> simp only [stepOf, hoffset]

end StackCode.Proofs
