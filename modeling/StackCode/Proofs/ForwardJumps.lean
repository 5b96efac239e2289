import StackCode.Proofs.CallDepth
import StackCode.Proofs.StackEffects
import StackCode.Proofs.WatchedRuns

/-!
# Programs without jumps back

If no jump leads back, every frame runs through its code once. Functions may still call themselves
or each other without end, but only so many frames are active at once. The code that is left to the
frames, with the frames that were entered first weighing most, decreases with every step, so every
run ends.
-/

namespace StackCode.Proofs

/-- No jump of the program leads back. -/
def Forward (p : Program) : Prop :=
  ∀ r ∈ p.functions, ∀ i ∈ r.bytes.walk.1, i.op.isJump → 0 ≤ i.jump

instance : DecidablePred Forward := fun p =>
  inferInstanceAs (Decidable (∀ r ∈ p.functions, ∀ i ∈ r.bytes.walk.1, i.op.isJump → 0 ≤ i.jump))

/-- The number of bytes of code of the program. -/
def programSize (p : Program) : Nat := (p.functions.map fun r => r.bytes.size).sum

lemma size_le_programSize {p : Program} {r : Routine} (h : r ∈ p.functions) :
    r.bytes.size ≤ programSize p :=
  List.single_le_sum (fun _ _ => Nat.zero_le _) _ (List.mem_map_of_mem h)

/-! ### The code that is left -/

/-- The code that is left to a frame, its end included. -/
def codeLeft (f : Frame) : Nat := (f.routine.bytes.size + 1 - f.ip).toNat

/-- The code that is left to the frames, the running one first. The running frame counts as often as
`room` more frames can run through code of less than `base` bytes. -/
def weight (base : Nat) : (room : Nat) → List Frame → Nat
  | _, [] => 0
  | room, f :: callers => codeLeft f * base ^ room + weight base (room + 1) callers

/-- The weight of a state in which `frames` frames may be active. -/
def stateWeight (base frames : Nat) (s : State) : Nat :=
  weight base (frames - (s.callers.length + 1)) (s.frame :: s.callers)

/-- An instruction goes on behind itself, or jumps from there. -/
lemma execute_next {image : Image} {h h' : Heap} {f f' : Frame} {i : Instruction}
    (hnext : f.execute image h i = .next f' h') :
    f'.routine = f.routine ∧ (f'.ip = (i.offset + i.length : Nat) ∨
      i.op.isJump ∧ f'.ip = (i.offset + i.length : Nat) + i.jump) := by
  have hbalanced := execute_balanced image h f i
  rw [hnext] at hbalanced
  refine ⟨hbalanced.routine, ?_⟩
  by_cases hjump : i.op.isJump
  · obtain ⟨r, ip, slots, stack⟩ := f
    obtain ⟨op, offset, operand, argc, jump, target⟩ := i
    cases op with
    | jump =>
      cases hnext
      exact .inr ⟨hjump, rfl⟩
    | jumpIf =>
      simp only [Frame.execute] at hnext
      split at hnext
      · cases hnext
        split_ifs
        · exact .inl rfl
        · exact .inr ⟨hjump, rfl⟩
      · cases hnext
      · cases hnext
    | _ => cases hjump
  · exact .inl (hbalanced.behind hjump)

section Steps

variable {p : Program} (hp : SoundProgram p) {base : Nat} {maxFrames : Int}

include hp

/-- A frame is between the start and the end of its code. -/
lemma codeLeft_bounds {h : Heap} {f : Frame} (hf : SafeFrame p h f) :
    0 < codeLeft f ∧ codeLeft f ≤ f.routine.bytes.size + 1 := by
  have hip : 0 ≤ f.ip ∧ f.ip ≤ f.routine.bytes.size := by
    rcases hf.boundary with hend | ⟨i, hi, hip⟩
    · omega
    · have hread := decodeAt_of_mem_walk (hp.routines _ hf.routine).walks hi
      have hle := end_le_of_decodeAt hread
      omega
  unfold codeLeft
  omega

/-- An instruction leaves less code to its frame. -/
lemma codeLeft_lt (hforward : Forward p) {h h' : Heap} {f f' : Frame} (hf : SafeFrame p h f)
    {i : Instruction} (hi : i ∈ f.routine.bytes.walk.1) (hip : f.ip = i.offset)
    (haction : f.execute p.image h i = .next f' h' ∨
      ∃ k arguments, f.execute p.image h i = .call k arguments f' h') :
    codeLeft f' < codeLeft f := by
  obtain ⟨hpos, -⟩ := codeLeft_bounds hp hf
  have hlength := instruction_length_pos i
  have hmoved : f'.routine = f.routine ∧ f.ip < f'.ip := by
    rcases haction with hnext | ⟨k, arguments, hcall⟩
    · obtain ⟨hroutine, hnext | ⟨hjump, hnext⟩⟩ := execute_next hnext
      · exact ⟨hroutine, by omega⟩
      · have hnonneg := hforward _ hf.routine i hi hjump
        exact ⟨hroutine, by omega⟩
    · have hbalanced := execute_balanced p.image h f i
      rw [hcall] at hbalanced
      obtain ⟨hop, hgoes⟩ := hbalanced
      have hbehind := hgoes.behind (by rw [hop]; decide)
      exact ⟨hgoes.routine, by omega⟩
  unfold codeLeft at hpos ⊢
  rw [hmoved.1]
  omega

omit hp in
/-- A return takes the weight of the frame that is left. -/
lemma stateWeight_leave (hbase : 0 < base) {s s' : State}
    (hpos : 0 < codeLeft s.frame) (hroom : s.callers.length + 1 ≤ maxFrames.toNat) {d : Datum}
    {heap : Heap} {steps : Nat} {polls : Option Nat}
    (h : State.leave d s.callers s.depth heap steps polls = .running s') :
    stateWeight base maxFrames.toNat s' < stateWeight base maxFrames.toNat s := by
  obtain ⟨f, rest, hcallers, rfl⟩ := leave_eq_running h
  rw [hcallers] at hroom
  simp only [stateWeight, hcallers, weight, List.length_cons] at hroom ⊢
  have hmore : maxFrames.toNat - (rest.length + 1) =
      maxFrames.toNat - (rest.length + 1 + 1) + 1 := by omega
  have hpow := Nat.mul_pos hpos (Nat.pow_pos hbase (n := maxFrames.toNat - (rest.length + 1 + 1)))
  rw [hmore]
  simp only [codeLeft] at *
  omega

omit hp in
/-- A call weighs less than the instruction that makes it: the new frame has less than `base` bytes
to run, and its caller counts `base` times as much. -/
lemma stateWeight_enter {image : Image} (hbase : ∀ r ∈ image.routines, r.bytes.size + 1 < base)
    {s s' : State} (hcounted : Counted maxFrames (.running s)) {f : Frame}
    (hless : codeLeft f < codeLeft s.frame) {k : Nat} {arguments : List Datum} {heap : Heap}
    {steps : Nat} {polls : Option Nat}
    (h : State.enter image maxFrames k arguments (f :: s.callers) s.depth heap steps polls =
      .running s') :
    stateWeight base maxFrames.toNat s' < stateWeight base maxFrames.toNat s := by
  obtain ⟨hdepth, -⟩ := hcounted
  obtain ⟨r, hr, hlimit, rfl⟩ := enter_eq_running h
  have hsize := hbase r (Array.mem_of_getElem? hr)
  have hfresh : codeLeft ⟨r, 0, State.slotsOf r.slots arguments, []⟩ < base := by
    simp only [codeLeft]
    omega
  have hmore : maxFrames.toNat - (s.callers.length + 1) =
      maxFrames.toNat - (s.callers.length + 1 + 1) + 1 := by omega
  simp only [stateWeight, weight, List.length_cons, hmore]
  generalize maxFrames.toNat - (s.callers.length + 1 + 1) = room
  have hpow : 0 < base ^ room := Nat.pow_pos (by omega)
  have hnew : codeLeft ⟨r, 0, State.slotsOf r.slots arguments, []⟩ * base ^ room <
      base ^ (room + 1) := by
    rw [Nat.pow_succ']
    exact Nat.mul_lt_mul_of_pos_right hfresh hpow
  have hold : (codeLeft f + 1) * base ^ (room + 1) ≤ codeLeft s.frame * base ^ (room + 1) :=
    Nat.mul_le_mul_right _ hless
  rw [Nat.succ_mul] at hold
  omega

/-- Every step takes off weight. -/
lemma stateWeight_step (hforward : Forward p) (hbase : programSize p + 1 < base) {s s' : State}
    (hsafe : SafeNext p (.running s)) (hcounted : Counted maxFrames (.running s))
    (hstep : s.step p.image maxFrames = .running s') :
    stateWeight base maxFrames.toNat s' < stateWeight base maxFrames.toNat s := by
  have hframe := hsafe.frame
  obtain ⟨hpos, -⟩ := codeLeft_bounds hp hframe
  have hbase' : 0 < base := by omega
  have hroom : s.callers.length + 1 ≤ maxFrames.toNat := by
    obtain ⟨hdepth, hlimit⟩ := hcounted
    omega
  rcases reads_of_safe hp hframe with hend | ⟨i, hip, hread, haccess⟩
  · rw [step_at_end p.image maxFrames (Int.le_of_eq hend.symm)] at hstep
    exact stateWeight_leave hbase' hpos hroom hstep
  rw [step_of_decodeAt p.image maxFrames hip hread] at hstep
  cases hpoll : State.poll? (s.steps + 1) s.polls with
  | none => simp [hpoll] at hstep
  | some polls =>
    rw [hpoll] at hstep
    cases haction : s.frame.execute p.image s.heap i with
    | next f heap =>
      rw [haction] at hstep
      cases hstep
      have hless := codeLeft_lt hp hforward hframe haccess.walked hip (.inl haction)
      have hpow := Nat.pow_pos hbase' (n := maxFrames.toNat - (s.callers.length + 1))
      have hlighter := Nat.mul_lt_mul_of_pos_right hless hpow
      simp only [stateWeight, weight]
      omega
    | call k arguments f heap =>
      rw [haction] at hstep
      -- the callee weighs less than what the caller has lost, as it has one frame less of room
      have hless := codeLeft_lt hp hforward hframe haccess.walked hip
        (.inr ⟨k, arguments, haction⟩)
      refine stateWeight_enter (fun r hr => ?_) hcounted hless hstep
      have hsize := size_le_programSize (p := p) (r := r) (by simpa [Program.image] using hr)
      omega
    | leave d heap =>
      rw [haction] at hstep
      exact stateWeight_leave hbase' hpos hroom hstep
    | fault cause heap =>
      rw [haction] at hstep
      cases hstep
    | crash heap =>
      rw [haction] at hstep
      cases hstep

/-- A run ends within its weight. -/
lemma exists_outcome (hforward : Forward p) (hbase : programSize p + 1 < base) {n : Nat} {s : State}
    (hsafe : SafeNext p (.running s)) (hcounted : Counted maxFrames (.running s))
    (hn : stateWeight base maxFrames.toNat s ≤ n) :
    ∃ f, outcome? ((advance p.image maxFrames)^[n] (.running s)) = some f := by
  induction n generalizing s with
  | zero =>
    obtain ⟨hpos, -⟩ := codeLeft_bounds hp hsafe.frame
    have hpow : 0 < base ^ (maxFrames.toNat - (s.callers.length + 1)) := Nat.pow_pos (by omega)
    have hmul := Nat.mul_pos hpos hpow
    simp only [stateWeight, weight] at hn
    omega
  | succ n ih =>
    rw [Function.iterate_succ_apply, advance]
    cases hstep : s.step p.image maxFrames with
    | done f => exact ⟨f, by rw [Function.iterate_fixed rfl]; rfl⟩
    | running s' =>
      have hsafe' : SafeNext p (.running s') := safe_of_reaches hp hsafe ⟨1, hstep⟩
      have hcounted' : Counted maxFrames (.running s') := hstep ▸ counted_step hcounted
      have hless := stateWeight_step hp hforward hbase hsafe hcounted hstep
      exact ih hsafe' hcounted' (by omega)

end Steps

/-! ### Whole runs -/

/-- A run that is never told to stop does not end so. -/
lemma not_cancelled {image : Image} {maxFrames : Int} {c : State.Next} (hc : InStep c c) {n : Nat}
    {f : Final} (h : outcome? ((advance image maxFrames)^[n] c) = some f) :
    f.outcome ≠ .cancelled := by
  have hn := hc.iterate (fun _ _ _ _ => ()) image maxFrames [] n
  generalize (advance image maxFrames)^[n] c = c' at h hn
  generalize ((advanceWatched _ image maxFrames)^[n] (c, [])).1 = d' at hn
  cases hn with
  | running => cases h
  | done hends =>
    cases h
    intro hcancelled
    have hsame := hends.outcome
    rw [hcancelled] at hsame
    exact hsame

lemma inStep_start_of_polls (m : Machine) {settings : Machine.Settings}
    (hpolls : settings.polls = none) (entry : Text) (heap : Heap) (arguments : List Datum) :
    let c := m.start settings entry heap arguments
    InStep c c := by
  obtain ⟨maxFrames, polls⟩ := settings
  cases hpolls
  exact inStep_start maxFrames m entry heap arguments

/-- A verified program without jumps back ends every run, also if its functions call each other
without end. The steps that this takes are bounded by the size of the code to the power of the limit
on the frames. The run ends with a value or a fault, unless it is told to stop, or it comes to store
a field in an object without a table, which must then have been there from the start. -/
theorem forward_program_ends {p : Program} (hverify : p.verify = .ok ()) (hforward : Forward p)
    (settings : Machine.Settings) (steps : Nat) (entry : Text) (heap : Heap) (hheap : Closed heap)
    (arguments : List Datum) (harguments : ∀ d ∈ arguments, Within heap d) :
    let machine : Machine := ⟨p.image, steps⟩
    let start := machine.start settings entry heap arguments
    ∃ final, machine.run settings ((programSize p + 2) ^ settings.maxFrames.toNat) entry heap
        arguments = some final ∧
      ((∃ d, final.outcome = .value d) ∨ (∃ fault, final.outcome = .fault fault) ∨
        (final.outcome = .cancelled ∧ settings.polls ≠ none) ∨
        (final.outcome = .crash ∧ ¬HasTables heap ∧
          ∃ s, (process p.image settings.maxFrames).Reaches start (.running s) ∧
            StoresNowhere s)) := by
  intro machine start
  have hp := (verify_eq_ok_iff p).mp hverify
  have hsafe : SafeNext p start := start_safe hp settings steps entry hheap harguments
  have hcounted : Counted settings.maxFrames start :=
    counted_start machine settings entry heap arguments
  obtain ⟨final, hfinal⟩ : ∃ final, outcome? ((advance p.image settings.maxFrames)^[
      (programSize p + 2) ^ settings.maxFrames.toNat] start) = some final := by
    cases hstart : start with
    | done f => exact ⟨f, by rw [Function.iterate_fixed rfl]; rfl⟩
    | running s =>
      rw [hstart] at hsafe hcounted
      refine exists_outcome hp hforward (Nat.lt_succ_self _) hsafe hcounted ?_
      obtain ⟨hcallers, -, -, -⟩ := start_running hstart
      obtain ⟨-, hle⟩ := codeLeft_bounds hp hsafe.frame
      have hsize := size_le_programSize hsafe.frame.routine
      have hone : 1 ≤ settings.maxFrames.toNat := by
        obtain ⟨hdepth, hlimit⟩ := hcounted
        omega
      calc stateWeight (programSize p + 2) settings.maxFrames.toNat s
          = codeLeft s.frame * (programSize p + 2) ^ (settings.maxFrames.toNat - 1) := by
            simp [stateWeight, weight, hcallers]
        _ ≤ (programSize p + 2) * (programSize p + 2) ^ (settings.maxFrames.toNat - 1) :=
            Nat.mul_le_mul_right _ (by omega)
        _ = (programSize p + 2) ^ settings.maxFrames.toNat := by
            rw [← Nat.pow_succ', Nat.succ_eq_add_one, Nat.sub_add_cancel hone]
  refine ⟨final, (finish_eq ..).trans hfinal, ?_⟩
  rcases outcome_safe hp hsafe hfinal with hends | ⟨hcrash, s, hs, hmisses⟩
  · cases houtcome : final.outcome with
    | value d => exact .inl ⟨d, rfl⟩
    | fault f => exact .inr (.inl ⟨f, rfl⟩)
    | cancelled =>
      refine .inr (.inr (.inl ⟨rfl, fun hpolls => ?_⟩))
      have hstart : InStep start start := inStep_start_of_polls machine hpolls entry heap arguments
      exact not_cancelled hstart hfinal houtcome
    | crash => exact absurd houtcome hends.1
  · refine .inr (.inr (.inr ⟨hcrash, fun htables => ?_, s, hs, hmisses⟩))
    exact not_storesNowhere_of_reaches hp hsafe htables hs hmisses

/-- Tells even numbers from odd ones by counting down to zero, one function calling the other. -/
def parity : Program where
  functions := [
    { name := "even"
      code := some #[32, 0, 16, 0, 0, 96, 129, 0, 4, 16, 0, 1, 240, 32, 0, 16, 0, 2, 81, 144, 1, 1,
        240]
      params := 1 },
    { name := "odd"
      code := some #[32, 0, 16, 0, 0, 96, 129, 0, 4, 16, 0, 3, 240, 32, 0, 16, 0, 2, 81, 144, 0, 1,
        240]
      params := 1 }]
  constants := [.int 0, .bool true, .int 1, .bool false]

/-- Below zero the functions call each other without end. -/
theorem parity_ends :
    parity.verify = .ok () ∧ Forward parity ∧ Closed {} ∧ Within {} (.scalar (.int (-1))) ∧
      HasTables {} ∧
      (∃ final, Machine.run ⟨parity.image, 0⟩ { maxFrames := 3 } (48 ^ 3) "even" {}
          [.scalar (.int (-1))] = some final ∧
        ((∃ d, final.outcome = .value d) ∨ ∃ fault, final.outcome = .fault fault)) ∧
      Machine.run ⟨parity.image, 0⟩ { maxFrames := 3 } 30 "even" {} [.scalar (.int (-1))] =
        some ⟨.fault ⟨.stackOverflow 3, "odd", 0⟩, {}, 24⟩ := by
  have hverify : parity.verify = .ok () := by cbv
  have hforward : Forward parity := by decide +kernel
  have htables : HasTables {} := by decide
  refine ⟨hverify, hforward, by decide, trivial, htables, ?_, by cbv⟩
  obtain ⟨final, hrun, hends⟩ := forward_program_ends hverify hforward { maxFrames := 3 } 0 "even"
    {} (by decide) [.scalar (.int (-1))] (by simp [Within])
  refine ⟨final, hrun, ?_⟩
  rcases hends with hvalue | hfault | ⟨-, hpolls⟩ | ⟨-, hmissing, -⟩
  · exact .inl hvalue
  · exact .inr hfault
  · exact absurd rfl hpolls
  · exact absurd htables hmissing

/-- Stores a number in a field of its argument. -/
def numbering : Program where
  functions := [{ name := "main", code := some #[32, 0, 16, 0, 1, 186, 0, 0], params := 1 }]
  constants := [.str "n", .int 1]

/-- An object of a class, with the fields that are given. -/
def soleObject (fields : Option (List (Text × Datum))) : Heap where
  objects := #[{ className := "C", fields }]

/-- A program without any jump can end with neither a value nor a fault: with a crash on an object
without a table, and on one with a table if it is told to stop. -/
theorem numbering_cut_off :
    numbering.verify = .ok () ∧ Forward numbering ∧
      (∀ fields ∈ [none, some []], Closed (soleObject fields) ∧
        Within (soleObject fields) (.object 0)) ∧
      Machine.run ⟨numbering.image, 0⟩ {} 4 "main" (soleObject none) [.object 0] =
        some ⟨.crash, soleObject none, 3⟩ ∧
      Machine.run ⟨numbering.image, 1023⟩ { polls := some 0 } 4 "main" (soleObject (some []))
        [.object 0] = some ⟨.cancelled, soleObject (some []), 1024⟩ ∧
      Machine.run ⟨numbering.image, 0⟩ {} 4 "main" (soleObject (some [])) [.object 0] =
        some ⟨.value .null, soleObject (some [("n", .scalar (.int 1))]), 3⟩ := by
  refine ⟨by cbv, by decide +kernel, by decide, by cbv, by cbv, by cbv⟩

end StackCode.Proofs
