import StackCode.Proofs.MachineRuns

/-!
# The depth of calls

The machine keeps the frames of a run in a list and counts them. The same run can be told by
recursion: a call runs the callee to its end, and the callee counts as active from its start to its
end, however it ends. Both tell the same run, so no more functions are active than the limit allows,
and none is when the run has ended. A higher limit changes nothing in a run that did not meet it.
-/

namespace StackCode.Proofs

/-! ### Frames are counted -/

/-- The depth is the number of frames, and the limit allows so many. -/
def Counted (maxFrames : Int) : State.Next → Prop
  | .running s => s.depth = s.callers.length + 1 ∧ (s.depth : Int) ≤ maxFrames
  | .done _ => True

section Counting

variable {image : Image} {maxFrames : Int} {callers : List Frame} {depth : Nat} {heap : Heap}

lemma counted_enter (hdepth : depth = callers.length) (function : Nat) (arguments : List Datum)
    (steps : Nat) (polls : Option Nat) :
    Counted maxFrames
      (State.enter image maxFrames function arguments callers depth heap steps polls) := by
  unfold State.enter
  split
  · trivial
  · split_ifs with hfull harity
    · trivial
    · trivial
    · exact ⟨by rw [hdepth], by push_cast; omega⟩

lemma counted_leave (hdepth : depth = callers.length + 1) (hlimit : (depth : Int) ≤ maxFrames)
    (d : Datum) (steps : Nat) (polls : Option Nat) :
    Counted maxFrames (State.leave d callers depth heap steps polls) := by
  cases callers with
  | nil => trivial
  | cons f callers =>
    rw [List.length_cons] at hdepth
    exact ⟨by simp only [hdepth]; omega, by push_cast; omega⟩

lemma counted_step {s : State} (h : Counted maxFrames (.running s)) :
    Counted maxFrames (s.step image maxFrames) := by
  obtain ⟨hdepth, hlimit⟩ := h
  rw [step_eq]
  split_ifs
  · exact counted_leave hdepth hlimit _ _ _
  · trivial
  · cases State.poll? (s.steps + 1) s.polls with
    | none => trivial
    | some polls =>
      dsimp only
      cases attempt image s.heap s.frame with
      | next f heap => exact ⟨hdepth, hlimit⟩
      | call function arguments f heap => exact counted_enter hdepth _ _ _ _
      | leave d heap => exact counted_leave hdepth hlimit _ _ _
      | fault cause heap => trivial
      | crash heap => trivial

lemma counted_start (m : Machine) (settings : Machine.Settings) (entry : Text) (heap : Heap)
    (arguments : List Datum) :
    Counted settings.maxFrames (m.start settings entry heap arguments) := by
  unfold Machine.start
  cases m.image.routines.findIdx? fun r => r.name = entry with
  | none => trivial
  | some k => exact counted_enter rfl _ _ _ _

lemma counted_of_reaches {c d : State.Next} (h : (process image maxFrames).Reaches c d)
    (hc : Counted maxFrames c) : Counted maxFrames d := by
  refine h.invariant (fun c hc => ?_) hc
  cases c with
  | running s => exact counted_step hc
  | done f => trivial

end Counting

/-! ### Higher limits -/

/-- The run ended because it met the limit on its frames. -/
def EndsInOverflow (f : Final) : Prop :=
  ∃ fault, f.outcome = .fault fault ∧ fault.cause.kind = .stackOverflow

section Limits

variable {image : Image} {low high : Int} (hle : low ≤ high)

include hle

/-- A call that is made under a limit is made under a higher one too. -/
lemma enter_raised (function : Nat) (arguments : List Datum) (callers : List Frame) (depth : Nat)
    (heap : Heap) (steps : Nat) (polls : Option Nat) :
    State.enter image high function arguments callers depth heap steps polls =
        State.enter image low function arguments callers depth heap steps polls ∨
      ∃ f, State.enter image low function arguments callers depth heap steps polls = .done f ∧
        EndsInOverflow f := by
  unfold State.enter
  cases image.routines[function]? with
  | none => exact .inl rfl
  | some r =>
    dsimp only
    by_cases hfull : low ≤ depth
    · rw [if_pos hfull]
      exact .inr ⟨_, rfl, _, rfl, rfl⟩
    · rw [if_neg hfull, if_neg (by omega)]
      exact .inl rfl

lemma step_raised (s : State) :
    s.step image high = s.step image low ∨ ∃ f, s.step image low = .done f ∧ EndsInOverflow f := by
  rw [step_eq, step_eq]
  split_ifs
  · exact .inl rfl
  · exact .inl rfl
  · cases State.poll? (s.steps + 1) s.polls with
    | none => exact .inl rfl
    | some polls =>
      dsimp only
      cases attempt image s.heap s.frame with
      | call function arguments f heap => exact enter_raised hle _ _ _ _ _ _ _
      | next _ _ | leave _ _ | fault _ _ | crash _ => exact .inl rfl

lemma start_raised (m : Machine) (settings : Machine.Settings) (entry : Text) (heap : Heap)
    (arguments : List Datum) :
    m.start { settings with maxFrames := high } entry heap arguments =
        m.start { settings with maxFrames := low } entry heap arguments ∨
      ∃ f, m.start { settings with maxFrames := low } entry heap arguments = .done f ∧
        EndsInOverflow f := by
  unfold Machine.start
  cases m.image.routines.findIdx? fun r => r.name = entry with
  | none => exact .inl rfl
  | some k => exact enter_raised hle _ _ _ _ _ _ _

/-- A run that does not meet its limit is the same run under a higher one. -/
lemma finish_raised {limit : Nat} {c : State.Next} {f : Final}
    (h : Machine.finish image low limit c = some f) (hover : ¬EndsInOverflow f) :
    Machine.finish image high limit c = some f := by
  induction limit generalizing c with
  | zero =>
    cases c with
    | running s => cases h
    | done g => exact h
  | succ limit ih =>
    cases c with
    | done g => exact h
    | running s =>
      rw [Machine.finish] at h ⊢
      rcases step_raised hle s with hsame | ⟨g, hdone, hg⟩
      · rw [hsame]
        exact ih h
      · rw [hdone] at h
        cases limit <;> cases h <;> exact absurd hg hover

end Limits

/-! ### Runs by recursion -/

namespace Nested

/-- What all activations share: how many of them are active, the instructions counted so far, and
the polls that are left. -/
structure Counters where
  depth : Int
  steps : Nat
  polls : Option Nat

/-- How an activation ended, and what it left. -/
structure Ended where
  outcome : Outcome
  heap : Heap
  counters : Counters

def Ended.final (e : Ended) : Final := ⟨e.outcome, e.heap, e.counters.steps⟩

/-- Takes back the count of an activation that has ended. -/
def Ended.uncounted (e : Ended) : Ended :=
  { e with counters := { e.counters with depth := e.counters.depth - 1 } }

/-- Calls a function: `run` runs its frame to the end, and whatever that end is, the activation is
counted until then. -/
def call (image : Image) (maxFrames : Int) (run : Frame → Heap → Counters → Option Ended)
    (function : Nat) (arguments : List Datum) (heap : Heap) (c : Counters) : Option Ended :=
  match image.routines[function]? with
  | none => some ⟨.crash, heap, c⟩
  | some r =>
    if maxFrames ≤ c.depth then some ⟨.fault ⟨.stackOverflow maxFrames, r.name, 0⟩, heap, c⟩
    else if r.slots < arguments.length then
      some ⟨.fault ⟨.arity arguments.length r.slots, r.name, 0⟩, heap, c⟩
    else
      (run ⟨r, 0, State.slotsOf r.slots arguments, []⟩ heap { c with depth := c.depth + 1 }).map
        Ended.uncounted

/-- Runs a frame to its end, with all functions that it calls; none if that takes more fuel. -/
def run (image : Image) (maxFrames : Int) : (fuel : Nat) → Frame → Heap → Counters → Option Ended
  | 0, _, _, _ => none
  | fuel + 1, f, heap, c =>
    if f.routine.bytes.size ≤ f.ip then some ⟨.value .null, heap, c⟩
    else if f.ip < 0 then some ⟨.crash, heap, c⟩
    else
      let steps := c.steps + 1
      match State.poll? steps c.polls with
      | none => some ⟨.cancelled, heap, { c with steps }⟩
      | some polls =>
        let c : Counters := { c with steps, polls }
        match attempt image heap f with
        | .next f heap => run image maxFrames fuel f heap c
        | .call function arguments f heap =>
          match call image maxFrames (run image maxFrames fuel) function arguments heap c with
          | none => none
          | some e =>
            match e.outcome with
            | .value d =>
              run image maxFrames fuel { f with stack := d :: f.stack } e.heap e.counters
            | _ => some e
        | .leave d heap => some ⟨.value d, heap, c⟩
        | .fault cause heap => some ⟨.fault ⟨cause, f.routine.name, f.ip.toNat⟩, heap, c⟩
        | .crash heap => some ⟨.crash, heap, c⟩

/-- Runs the named function on a machine with no activation. -/
def runEntry (m : Machine) (settings : Machine.Settings) (fuel : Nat) (entry : Text) (heap : Heap)
    (arguments : List Datum) : Option Ended :=
  let c : Counters := ⟨0, m.steps, settings.polls⟩
  match m.image.routines.findIdx? fun r => r.name = entry with
  | none => some ⟨.fault { cause := .unknownFunction entry }, heap, c⟩
  | some k =>
    call m.image settings.maxFrames (run m.image settings.maxFrames fuel) k arguments heap c

/-- What the machine does above the waiting frames when an activation has ended. -/
def resume (callers : List Frame) (depth : Nat) (e : Ended) : State.Next :=
  match e.outcome with
  | .value d => State.leave d callers depth e.heap e.counters.steps e.counters.polls
  | _ => .done e.final

section Agreement

variable {image : Image} {maxFrames : Int} {heap : Heap} {c : Counters} {e : Ended}

/-- A frame that is run by recursion takes its count back, and the machine gets where it ends. -/
def RunsTo (image : Image) (maxFrames : Int) (f : Frame) (heap : Heap) (c : Counters) (e : Ended) :
    Prop :=
  e.counters.depth = c.depth ∧ ∀ (callers : List Frame) (depth : Nat), (depth : Int) = c.depth →
    (process image maxFrames).Reaches
      (.running ⟨f, callers, depth, heap, c.steps, c.polls⟩) (resume callers depth e)

lemma call_runsTo {run : Frame → Heap → Counters → Option Ended}
    (hrun : ∀ {f heap c e}, run f heap c = some e → RunsTo image maxFrames f heap c e)
    {function : Nat} {arguments : List Datum}
    (h : call image maxFrames run function arguments heap c = some e) :
    e.counters.depth = c.depth ∧
      ∀ (callers : List Frame) (depth : Nat), (depth : Int) = c.depth →
        (process image maxFrames).Reaches
          (State.enter image maxFrames function arguments callers depth heap c.steps c.polls)
          (resume callers (depth + 1) e) := by
  unfold call at h
  unfold State.enter
  cases hroutine : image.routines[function]? with
  | none =>
    rw [hroutine] at h
    cases h
    exact ⟨rfl, fun _ _ _ => .refl _ _⟩
  | some r =>
    rw [hroutine] at h
    dsimp only at h ⊢
    split_ifs at h with hfull harity
    · cases h
      refine ⟨rfl, fun callers depth hdepth => ?_⟩
      rw [if_pos (by omega)]
      exact .refl _ _
    · cases h
      refine ⟨rfl, fun callers depth hdepth => ?_⟩
      rw [if_neg (by omega), if_pos harity]
      exact .refl _ _
    · obtain ⟨e, he, rfl⟩ := Option.map_eq_some_iff.mp h
      obtain ⟨hcount, hreach⟩ := hrun he
      refine ⟨by simp only [Ended.uncounted, hcount]; omega, fun callers depth hdepth => ?_⟩
      rw [if_neg (by omega), if_neg harity]
      exact hreach callers (depth + 1) (by push_cast; omega)

/-- What the next step gets to decides where a frame runs to. -/
lemma RunsTo.of_step {f : Frame} (hcount : e.counters.depth = c.depth)
    (hstep : ∀ (callers : List Frame) (depth : Nat), (depth : Int) = c.depth →
      (process image maxFrames).Reaches
        (State.step image maxFrames ⟨f, callers, depth, heap, c.steps, c.polls⟩)
        (resume callers depth e)) : RunsTo image maxFrames f heap c e :=
  ⟨hcount, fun callers depth hdepth => .head (hstep callers depth hdepth)⟩

/-- What a run by recursion gives, the machine gets to by its steps. -/
lemma run_runsTo {fuel : Nat} {f : Frame} (h : run image maxFrames fuel f heap c = some e) :
    RunsTo image maxFrames f heap c e := by
  -- a call uses the hypothesis twice: for the callee, and for the caller after the return
  induction fuel generalizing f heap c e with
  | zero => cases h
  | succ fuel ih =>
    rw [run] at h
    split_ifs at h with hend hneg
    · cases h
      refine .of_step rfl fun callers depth _ => ?_
      rw [step_eq, if_pos hend]
      exact .refl _ _
    · cases h
      refine .of_step rfl fun callers depth _ => ?_
      rw [step_eq, if_neg hend, if_pos hneg]
      exact .refl _ _
    dsimp only at h
    cases hpoll : State.poll? (c.steps + 1) c.polls with
    | none =>
      rw [hpoll] at h
      cases h
      refine .of_step rfl fun callers depth _ => ?_
      simp only [step_eq, if_neg hend, if_neg hneg, hpoll]
      exact .refl _ _
    | some polls =>
      rw [hpoll] at h
      dsimp only at h
      have hstep (callers : List Frame) (depth : Nat) :
          State.step image maxFrames ⟨f, callers, depth, heap, c.steps, c.polls⟩ =
            stepOf image maxFrames callers depth (c.steps + 1) polls f.routine.name f.ip.toNat
              (attempt image heap f) := by
        simp only [step_eq, if_neg hend, if_neg hneg, hpoll]
      cases hattempt : attempt image heap f with
      | next f' heap' =>
        rw [hattempt] at h hstep
        obtain ⟨hcount, hreach⟩ := ih h
        refine .of_step hcount fun callers depth hdepth => ?_
        rw [hstep]
        exact hreach callers depth hdepth
      | call function arguments f' heap' =>
        rw [hattempt] at h hstep
        dsimp only at h
        cases hcall : call image maxFrames (run image maxFrames fuel) function arguments heap'
            ⟨c.depth, c.steps + 1, polls⟩ with
        | none =>
          rw [hcall] at h
          cases h
        | some e' =>
          rw [hcall] at h
          dsimp only at h
          obtain ⟨hcount, hreach⟩ := call_runsTo ih hcall
          cases hout : e'.outcome with
          | value d =>
            rw [hout] at h
            obtain ⟨hcount', hreach'⟩ := ih h
            refine .of_step (hcount'.trans hcount) fun callers depth hdepth => ?_
            have hreturn := hreach (f' :: callers) depth hdepth
            rw [resume, hout] at hreturn
            rw [hstep]
            exact hreturn.trans (hreach' callers depth (hdepth.trans hcount.symm))
          | fault _ | cancelled | crash =>
            rw [hout] at h
            cases h
            refine .of_step hcount fun callers depth hdepth => ?_
            have hfailed := hreach (f' :: callers) depth hdepth
            rw [hstep]
            simp only [resume, hout] at hfailed ⊢
            exact hfailed
      | leave d heap' | fault cause heap' | crash heap' =>
        rw [hattempt] at h hstep
        cases h
        refine .of_step rfl fun callers depth _ => ?_
        rw [hstep]
        exact .refl _ _

lemma exists_call {run : Frame → Heap → Counters → Option Ended} {n depth : Nat} {final : Final}
    (hrun : ∀ {depth : Nat} {f callers heap} {c : Counters}, (depth : Int) = c.depth →
      outcome? ((advance image maxFrames)^[n]
        (.running ⟨f, callers, depth, heap, c.steps, c.polls⟩)) = some final →
      ∃ e, run f heap c = some e)
    (hdepth : (depth : Int) = c.depth) {function : Nat} {arguments : List Datum}
    {callers : List Frame}
    (h : outcome? ((advance image maxFrames)^[n] (State.enter image maxFrames function arguments
      callers depth heap c.steps c.polls)) = some final) :
    ∃ e, call image maxFrames run function arguments heap c = some e := by
  unfold call
  unfold State.enter at h
  cases hroutine : image.routines[function]? with
  | none => exact ⟨_, rfl⟩
  | some r =>
    rw [hroutine] at h
    dsimp only at h ⊢
    split_ifs with hfull harity
    · exact ⟨_, rfl⟩
    · exact ⟨_, rfl⟩
    · rw [if_neg (by omega), if_neg harity] at h
      obtain ⟨e, he⟩ := hrun (c := { c with depth := c.depth + 1 }) (by push_cast; omega) h
      exact ⟨e.uncounted, by rw [he]; rfl⟩

/-- Where the machine ends within some steps, so much fuel is enough. -/
lemma exists_run {n depth : Nat} {f : Frame} {callers : List Frame} {final : Final}
    (hdepth : (depth : Int) = c.depth)
    (h : outcome? ((advance image maxFrames)^[n]
      (.running ⟨f, callers, depth, heap, c.steps, c.polls⟩)) = some final) :
    ∃ e, run image maxFrames n f heap c = some e := by
  induction n generalizing depth f callers heap c with
  | zero => cases h
  | succ n ih =>
    rw [Function.iterate_succ_apply, advance, step_eq] at h
    rw [run]
    split_ifs at h ⊢ with hend hneg
    · exact ⟨_, rfl⟩
    · exact ⟨_, rfl⟩
    dsimp only at h ⊢
    cases hpoll : State.poll? (c.steps + 1) c.polls with
    | none => exact ⟨_, rfl⟩
    | some polls =>
      rw [hpoll] at h
      dsimp only at h ⊢
      cases hattempt : attempt image heap f with
      | next f' heap' =>
        rw [hattempt] at h
        exact ih (c := ⟨c.depth, c.steps + 1, polls⟩) hdepth h
      | call function arguments f' heap' =>
        rw [hattempt] at h
        obtain ⟨e, he⟩ := exists_call (c := ⟨c.depth, c.steps + 1, polls⟩) ih hdepth h
        dsimp only
        rw [he]
        dsimp only
        cases hout : e.outcome with
        | value d =>
          obtain ⟨hcount, hreach⟩ := call_runsTo run_runsTo he
          have hreturn := hreach (f' :: callers) depth hdepth
          rw [resume, hout] at hreturn
          exact ih (hdepth.trans hcount.symm) (hreturn.outcome h)
        | fault _ | cancelled | crash => exact ⟨_, rfl⟩
      | leave d heap' | fault cause heap' | crash heap' => exact ⟨_, rfl⟩

end Agreement

section Entry

variable {m : Machine} {settings : Machine.Settings} {entry : Text} {heap : Heap}
  {arguments : List Datum}

/-- A run that waits for nothing has ended with its first activation. -/
lemma resume_nil (depth : Nat) (e : Ended) : resume [] depth e = .done e.final := by
  obtain ⟨outcome, heap, c⟩ := e
  cases outcome <;> rfl

lemma runEntry_agrees {fuel : Nat} {e : Ended}
    (h : runEntry m settings fuel entry heap arguments = some e) :
    e.counters.depth = 0 ∧ ∃ limit, m.run settings limit entry heap arguments = some e.final := by
  unfold runEntry at h
  unfold Machine.run Machine.start
  simp only [finish_eq]
  cases hentry : m.image.routines.findIdx? fun r => r.name = entry with
  | none =>
    rw [hentry] at h
    cases h
    exact ⟨rfl, 0, rfl⟩
  | some k =>
    rw [hentry] at h
    obtain ⟨hcount, hreach⟩ := call_runsTo run_runsTo h
    obtain ⟨limit, hlimit⟩ := hreach [] 0 rfl
    rw [resume_nil] at hlimit
    exact ⟨hcount, limit, congrArg outcome? hlimit⟩

lemma exists_runEntry {limit : Nat} {final : Final}
    (h : m.run settings limit entry heap arguments = some final) :
    ∃ e, runEntry m settings limit entry heap arguments = some e := by
  unfold Machine.run Machine.start at h
  unfold runEntry
  rw [finish_eq] at h
  cases hentry : m.image.routines.findIdx? fun r => r.name = entry with
  | none => exact ⟨_, rfl⟩
  | some k =>
    rw [hentry] at h
    exact exists_call (c := ⟨0, m.steps, settings.polls⟩) exists_run rfl h

end Entry

end Nested

/-- Calls are limited, whatever the code. At every moment of a run the depth is the number of
frames, and no more frames are active than the limit allows. The run told by recursion ends as the
machine does, with no activation counted any more, whether it ends with a value or fails or is told
to stop. A run that does not meet its limit is the same under every higher one. -/
theorem call_depth_limited (m : Machine) (settings : Machine.Settings) (entry : Text) (heap : Heap)
    (arguments : List Datum) :
    (∀ s, (process m.image settings.maxFrames).Reaches
        (m.start settings entry heap arguments) (.running s) →
      s.depth = (s.frame :: s.callers).length ∧
        ((s.frame :: s.callers).length : Int) ≤ max settings.maxFrames 0) ∧
      (∀ limit final, m.run settings limit entry heap arguments = some final →
        ∃ fuel e, Nested.runEntry m settings fuel entry heap arguments = some e ∧
          e.final = final ∧ e.counters.depth = 0) ∧
      (∀ fuel e, Nested.runEntry m settings fuel entry heap arguments = some e →
        e.counters.depth = 0 ∧
          ∃ limit, m.run settings limit entry heap arguments = some e.final) ∧
      ∀ maxFrames, settings.maxFrames ≤ maxFrames → ∀ limit final,
        m.run settings limit entry heap arguments = some final → ¬EndsInOverflow final →
        m.run { settings with maxFrames } limit entry heap arguments = some final := by
  refine ⟨fun s hs => ?_, fun limit final hrun => ?_, fun fuel e he => Nested.runEntry_agrees he,
    fun maxFrames hle limit final hrun hover => ?_⟩
  · obtain ⟨hdepth, hlimit⟩ := counted_of_reaches hs (counted_start m settings entry heap arguments)
    exact ⟨hdepth, by rw [List.length_cons, ← hdepth]; omega⟩
  · obtain ⟨e, he⟩ := Nested.exists_runEntry hrun
    obtain ⟨hcount, limit', hrun'⟩ := Nested.runEntry_agrees he
    refine ⟨limit, e, he, ?_, hcount⟩
    have hends {n : Nat} {g : Final} (hg : m.run settings n entry heap arguments = some g) :
        (process m.image settings.maxFrames).EndsWith (m.start settings entry heap arguments) g :=
      ⟨n, by rw [Machine.run, finish_eq] at hg; exact hg⟩
    exact (hends hrun').unique (hends hrun)
  · have hrun' := finish_raised hle hrun hover
    rcases start_raised hle m settings entry heap arguments with hsame | ⟨f, hdone, hf⟩
    · rw [Machine.run, hsame]
      exact hrun'
    · rw [Machine.run, show m.start settings entry heap arguments = .done f from hdone] at hrun
      have hfinal : f = final := by
        cases limit <;> exact Option.some.inj hrun
      exact absurd (hfinal ▸ hf) hover

end StackCode.Proofs
