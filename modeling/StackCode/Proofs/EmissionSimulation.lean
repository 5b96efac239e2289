import StackCode.Proofs.EmissionVerifies
import StackCode.Proofs.InstructionMeaning
import StackCode.Proofs.Validity

/-!
# Emission preserves meaning

The machine on an emitted program follows the machine on the bodies. An instruction takes as many
steps as it has pieces with code, so labels and declarations take none and an assignment takes two.
-/

namespace StackCode.Proofs

open Emit Source

/-! ### Positions and offsets -/

/-- The offset of the instruction at a position of a body. -/
def offsetAt (body : List Instr) (k : Nat) : Nat := totalSize (bodyPieces (body.take k))

lemma offsetAt_succ {body : List Instr} {k : Nat} {i : Instr} (hi : body[k]? = some i) :
    offsetAt body (k + 1) = offsetAt body k + totalSize (pieces i) := by
  unfold offsetAt
  rw [List.take_add_one, hi]
  simp [bodyPieces]

lemma offsetAt_of_length_le {body : List Instr} {k : Nat} (hk : body.length ≤ k) :
    offsetAt body k = totalSize (bodyPieces body) := by
  rw [offsetAt, List.take_of_length_le hk]

/-- The pieces of an instruction stand at its offset, one after the other. -/
lemma at_offsetAt {body : List Instr} {k : Nat} {i : Instr} {front back : List Piece} {q : Piece}
    (hi : body[k]? = some i) (hpieces : pieces i = front ++ q :: back) :
    At (bodyPieces body) (offsetAt body k + totalSize front) q := by
  obtain ⟨hk, rfl⟩ := List.getElem?_eq_some_iff.mp hi
  refine ⟨bodyPieces (body.take k) ++ front, back ++ bodyPieces (body.drop (k + 1)), ?_, ?_⟩
  · calc bodyPieces body = bodyPieces (body.take k ++ body[k] :: body.drop (k + 1)) := by
          rw [List.getElem_cons_drop, List.take_append_drop]
      _ = bodyPieces (body.take k) ++ (pieces body[k] ++ bodyPieces (body.drop (k + 1))) := by
          unfold bodyPieces
          rw [List.flatMap_append, List.flatMap_cons]
      _ = _ := by simp [hpieces]
  · simp [offsetAt]

/-- A jump leads to the position of its label. -/
lemma position_of_leadsToLabel {s : Scope} {constants : List Value} {body : List Instr}
    {code : Code} (hlow : Lowered s constants (bodyPieces body) code) {name : Text} {t : Int}
    (ht : LeadsToLabel (bodyPieces body) name t) :
    ∃ k, body.idxOf? (.label name) = some k ∧ t = offsetAt body k := by
  obtain ⟨n, rfl, hat, -⟩ := ht
  obtain ⟨i, hi, hmem⟩ := List.mem_flatMap.mp hat.mem
  rw [mem_of_label_mem_pieces hmem] at hi
  cases hk : body.idxOf? (.label name) with
  | none => exact absurd hi (List.idxOf?_eq_none_iff.mp hk)
  | some k =>
    obtain ⟨hlt, hget, -⟩ := List.idxOf?_eq_some_iff.mp hk
    have hbody : body[k]? = some (.label name) := by
      rw [List.getElem?_eq_getElem hlt, hget]
    have hat' : At (bodyPieces body) (offsetAt body k + totalSize []) (.label name) :=
      at_offsetAt hbody rfl
    refine ⟨k, rfl, ?_⟩
    rw [hlow.label_unique hat hat']
    rfl

/-! ### States -/

/-- The code that an activation runs was made of its function. -/
structure Tracks (fs : List Function) (p : Program) (a : Activation) (r : Routine) : Prop where
  function : a.function ∈ fs
  emitted : EmittedRoutine (fs.map Function.name) p.constants a.function r
  names : a.vars.map Prod.fst = a.function.vars.map Var.name

/-- An activation and its frame go on at the same place with the same data. -/
def Aligned (fs : List Function) (p : Program) (a : Activation) (f : Frame) : Prop :=
  ∃ r, Tracks fs p a r ∧ f = frameOf r (offsetAt a.function.body a.position) a.vars a.stack

/-- An activation and its frame wait for the same result. A frame that is to store the result goes on
at the instruction that stores it. -/
inductive Waits (fs : List Function) (p : Program) : Activation × Option Text → Frame → Prop
  | operand {a f} (h : Aligned fs p a f) : Waits fs p (a, none) f
  | target {a r name offset x} (h : Tracks fs p a r)
    (hnext : offsetAt a.function.body a.position = offset + 2)
    (hread : r.bytes.decodeAt offset = .ok x)
    (hstore : Denotes (scopeOf (fs.map Function.name) a.function) p.constants
      (fun _ => LeadsToLabel (bodyPieces a.function.body)) offset (.slot .storeLocal name) x) :
    Waits fs p (a, some name) (frameOf r offset a.vars a.stack)

/-- What a finished run shows: the steps it took and the place of a fault are left out. -/
def view : Final → Option Source.Final
  | ⟨.value d, h, _⟩ => some ⟨.value d, h⟩
  | ⟨.fault f, h, _⟩ => some ⟨.fault f.cause.kind f.function, h⟩
  | ⟨.crash, h, _⟩ => some ⟨.stuck, h⟩
  | ⟨.cancelled, _, _⟩ => none

/-- A run of the bodies, and the run of the program that follows it. -/
inductive Follows (fs : List Function) (p : Program) : Source.Next → State.Next → Prop
  | running {s : Source.State} {t : State} (hrun : Aligned fs p s.running t.frame)
    (hcallers : List.Forall₂ (Waits fs p) s.callers t.callers) (hdepth : s.depth = t.depth)
    (hheap : s.heap = t.heap) (hpolls : t.polls = none) :
    Follows fs p (.running s) (.running t)
  | done {o : Source.Final} {f : Final} (h : view f = some o) : Follows fs p (.done o) (.done f)

section Simulation

variable {m : Module} {fs : List Function} {p : Program} (hm : m.functions = fs.map some)
  (hp : EmittedProgram fs p) (hvars : ∀ f ∈ fs, (f.vars.map Var.name).Nodup) (maxFrames : Int)

lemma steps_in_frame {s : State} {offset : Nat} {x : Instruction} (hpolls : s.polls = none)
    (hip : s.frame.ip = offset) (hread : s.frame.routine.bytes.decodeAt offset = .ok x) :
    advance p.image maxFrames (.running s) =
      Proofs.stepOf p.image maxFrames s.callers s.depth (s.steps + 1) none s.frame.routine.name
        offset (s.frame.execute p.image s.heap x) := by
  have hstep := step_of_decodeAt p.image maxFrames hip hread
  rw [hpolls, poll_none] at hstep
  exact hstep

/-! ### Functions -/

include hm in
lemma lookup_eq (name : Text) : m.lookup? name = fs.find? fun f => f.name = name := by
  unfold Module.lookup?
  rw [hm]
  simp [List.filterMap_map]

include hm hp in
lemma lookup_of_idxOf {name : Text} {k : Nat}
    (hk : (fs.map Function.name).idxOf? name = some k) :
    ∃ f r, m.lookup? name = some f ∧ f ∈ fs ∧ p.image.routines[k]? = some r ∧
      EmittedRoutine (fs.map Function.name) p.constants f r := by
  obtain ⟨hlt, hname, hbefore⟩ := List.idxOf?_eq_some_iff.mp hk
  rw [List.length_map] at hlt
  obtain ⟨r, hr, hemitted⟩ := hp.exists_routine (List.getElem?_eq_getElem hlt)
  refine ⟨fs[k], r, ?_, List.getElem_mem hlt, by simpa [Program.image] using hr, hemitted⟩
  rw [lookup_eq hm, List.find?_eq_some_iff_getElem]
  refine ⟨by simpa using hname, k, hlt, rfl, ?_⟩
  intro j hj
  simpa using hbefore j hj

lemma enter_follows {f : Function} {r : Routine} {k : Nat} (hf : f ∈ fs)
    (hr : p.image.routines[k]? = some r)
    (hemitted : EmittedRoutine (fs.map Function.name) p.constants f r) (arguments : List Datum)
    {callers : List (Activation × Option Text)} {callers' : List Frame}
    (hcallers : List.Forall₂ (Waits fs p) callers callers') (depth : Nat) (heap : Heap)
    (steps : Nat) :
    Follows fs p (Source.enter maxFrames f arguments callers depth heap)
      (State.enter p.image maxFrames k arguments callers' depth heap steps none) := by
  simp only [Source.enter, State.enter, hr, hemitted.name, hemitted.slots]
  by_cases hdepth : maxFrames ≤ depth
  · rw [if_pos hdepth, if_pos hdepth]
    exact .done rfl
  rw [if_neg hdepth, if_neg hdepth]
  by_cases harity : f.vars.length < arguments.length
  · rw [if_pos harity, if_pos harity]
    exact .done rfl
  rw [if_neg harity, if_neg harity]
  have hlength : (arguments ++
      List.replicate (f.vars.length - arguments.length) Datum.null).length = f.vars.length := by
    rw [List.length_append, List.length_replicate]
    omega
  refine .running ⟨r, ⟨hf, hemitted, ?_⟩, ?_⟩ hcallers rfl rfl rfl
  · exact List.map_fst_zip (by simp [hlength])
  · have hvalues : (bindings f arguments).map Prod.snd =
        arguments ++ List.replicate (f.vars.length - arguments.length) Datum.null :=
      List.map_snd_zip (by simp [hlength])
    simp [frameOf, hvalues, State.slotsOf, offsetAt, bodyPieces]

include hvars in
/-- A result goes from the operands to the target that waits for it. -/
lemma target_follows {a : Activation} {name : Text} {f : Frame}
    (hwaits : Waits fs p (a, some name) f)
    {callers : List (Activation × Option Text)} {callers' : List Frame}
    (hcallers : List.Forall₂ (Waits fs p) callers callers') (d : Datum) (depth : Nat) (heap : Heap)
    (steps : Nat) :
    (a.vars.lookup name).isSome ∧
      Follows fs p (.running ⟨{ a with vars := a.vars.set name d }, callers, depth, heap⟩)
        (advance p.image maxFrames
          (.running ⟨{ f with stack := d :: f.stack }, callers', depth, heap, steps, none⟩)) := by
  cases hwaits with
  | @target _ r _ offset x htracks hnext hread hstore =>
    have hnodup := hvars _ htracks.function
    obtain ⟨hfound, hexec⟩ := execute_storeLocal htracks.names hnodup hstore d a.stack heap
    have hlength : x.length = 2 := hstore.length_eq (.inr rfl)
    refine ⟨hfound, ?_⟩
    rw [steps_in_frame maxFrames rfl rfl hread]
    change Follows fs p _ (Proofs.stepOf _ _ _ _ _ _ _ _
      (Frame.execute p.image heap (frameOf r offset a.vars (d :: a.stack)) x))
    rw [hexec, hlength, ← hnext]
    refine .running ⟨r, ⟨htracks.function, htracks.emitted, ?_⟩, rfl⟩ hcallers rfl rfl rfl
    exact (Bindings.names_set a.vars name d).trans htracks.names

include hvars in
lemma leave_follows (d : Datum) {callers : List (Activation × Option Text)} {callers' : List Frame}
    (hcallers : List.Forall₂ (Waits fs p) callers callers') (depth : Nat) (heap : Heap)
    (steps : Nat) :
    ∃ n, Follows fs p (Source.leave d callers depth heap)
      ((advance p.image maxFrames)^[n] (State.leave d callers' depth heap steps none)) := by
  cases hcallers with
  | nil => exact ⟨0, .done rfl⟩
  | @cons c f callers callers' hwaits hrest =>
    obtain ⟨a, target⟩ := c
    cases target with
    | none =>
      obtain ⟨r, htracks, rfl⟩ : Aligned fs p a f := by
        cases hwaits
        assumption
      exact ⟨0, .running ⟨r, ⟨htracks.function, htracks.emitted, htracks.names⟩, rfl⟩ hrest rfl rfl
        rfl⟩
    | some name =>
      obtain ⟨hfound, hfollows⟩ :=
        target_follows hvars maxFrames hwaits hrest d (depth - 1) heap steps
      refine ⟨1, ?_⟩
      rw [Source.leave, if_pos hfound]
      exact hfollows

/-! ### Steps -/

include hm hp hvars in
lemma effect_follows (s : Source.State) {r : Routine} {callers : List Frame} {next : Nat}
    {e : Effect} {action : Frame.Action} (htracks : Tracks fs p s.running r)
    (hcallers : List.Forall₂ (Waits fs p) s.callers callers)
    (hnext : offsetAt s.running.function.body (s.running.position + 1) = next)
    (h : Matches (fs.map Function.name) (LeadsToLabel (bodyPieces s.running.function.body)) r next
      s.running.vars e action) (steps offset : Nat) :
    ∃ n, Follows fs p (Source.stepOf m maxFrames s e) ((advance p.image maxFrames)^[n]
      (Proofs.stepOf p.image maxFrames callers s.depth steps none r.name offset action)) := by
  cases h with
  | next hnames =>
    refine ⟨0, .running ⟨r, ⟨htracks.function, htracks.emitted, ?_⟩, ?_⟩ hcallers rfl rfl rfl⟩
    · exact hnames.trans htracks.names
    · rw [hnext]
  | jump hlead =>
    obtain ⟨k, hk, rfl⟩ := position_of_leadsToLabel htracks.emitted.lowered hlead
    simp only [Source.stepOf, hk]
    exact ⟨0, .running ⟨r, ⟨htracks.function, htracks.emitted, htracks.names⟩, rfl⟩ hcallers rfl rfl
      rfl⟩
  | call hk =>
    obtain ⟨f, r', hlookup, hf, hr', hemitted⟩ := lookup_of_idxOf hm hp hk
    simp only [Source.stepOf, hlookup]
    refine ⟨0, enter_follows maxFrames hf hr' hemitted _ (.cons (.operand ?_) hcallers) _ _ _⟩
    exact ⟨r, ⟨htracks.function, htracks.emitted, htracks.names⟩, by rw [hnext]⟩
  | leave => exact leave_follows hvars maxFrames _ hcallers _ _ _
  | fault cause h => exact ⟨0, .done (by rw [view, htracks.emitted.name])⟩
  | stuck => exact ⟨0, .done rfl⟩

include hm hp hvars in
/-- The same for the inner instruction of an assignment, with the code that stores the result behind
it. -/
lemma storing_follows (s : Source.State) {r : Routine} {callers : List Frame} {next : Nat}
    {e : Effect} {action : Frame.Action} {name : Text} {x : Instruction}
    (htracks : Tracks fs p s.running r)
    (hcallers : List.Forall₂ (Waits fs p) s.callers callers)
    (hnext : offsetAt s.running.function.body (s.running.position + 1) = next + 2)
    (hread : r.bytes.decodeAt next = .ok x)
    (hstore : Denotes (scopeOf (fs.map Function.name) s.running.function) p.constants
      (fun _ => LeadsToLabel (bodyPieces s.running.function.body)) next (.slot .storeLocal name) x)
    (hpush : ∀ vars h, e ≠ .next vars [] h)
    (h : Matches (fs.map Function.name) (LeadsToLabel (bodyPieces s.running.function.body)) r next
      s.running.vars e action) (steps offset : Nat) :
    ∃ n, Follows fs p (Source.stepOf m maxFrames s (e.storing name)) ((advance p.image maxFrames)^[n]
      (Proofs.stepOf p.image maxFrames callers s.depth steps none r.name offset action)) := by
  have hwaits {vars : Bindings} (stack : List Datum)
      (hnames : vars.map Prod.fst = s.running.vars.map Prod.fst) :
      Waits fs p (⟨s.running.function, s.running.position + 1, vars, stack⟩, some name)
        (frameOf r next vars stack) :=
    .target ⟨htracks.function, htracks.emitted, hnames.trans htracks.names⟩ hnext hread hstore
  cases h with
  | @next vars stack h hnames =>
    cases stack with
    | nil => exact absurd rfl (hpush vars h)
    | cons d stack =>
      obtain ⟨hfound, hfollows⟩ :=
        target_follows hvars maxFrames (hwaits stack hnames) hcallers d s.depth h steps
      refine ⟨1, ?_⟩
      simp only at hfound
      simp only [Effect.storing, store, hfound, if_true]
      exact hfollows
  | call hk =>
    obtain ⟨f, r', hlookup, hf, hr', hemitted⟩ := lookup_of_idxOf hm hp hk
    simp only [Effect.storing, Source.stepOf, hlookup]
    exact ⟨0, enter_follows maxFrames hf hr' hemitted _ (.cons (hwaits _ rfl) hcallers) _ _ _⟩
  | jump hlead => exact effect_follows hm hp hvars maxFrames s htracks hcallers rfl (.jump hlead) _ _
  | leave => exact effect_follows hm hp hvars maxFrames s htracks hcallers rfl .leave _ _
  | fault cause h =>
    exact effect_follows hm hp hvars maxFrames s htracks hcallers rfl (.fault cause h) _ _
  | stuck => exact effect_follows hm hp hvars maxFrames s htracks hcallers rfl .stuck _ _

section Instruction

variable {a : Activation} {r : Routine} {callers : List (Activation × Option Text)}
  {callers' : List Frame} {i : Instr} {q : Piece} (htracks : Tracks fs p a r)
  (hcallers : List.Forall₂ (Waits fs p) callers callers')
  (hi : a.function.body[a.position]? = some i)

include hm hp hvars htracks hcallers hi

lemma single_follows (hpieces : pieces i = [q]) (hlabel : ¬IsLabel q) (depth steps : Nat)
    (heap : Heap) :
    ∃ n, Follows fs p
      (Source.stepOf m maxFrames ⟨a, callers, depth, heap⟩ (perform a.vars a.stack heap i))
      ((advance p.image maxFrames)^[n + 1]
        (.running ⟨frameOf r (offsetAt a.function.body a.position) a.vars a.stack, callers', depth,
          heap, steps, none⟩)) := by
  have hat := at_offsetAt hi (show pieces i = [] ++ q :: [] from hpieces)
  rw [totalSize_nil, Nat.add_zero] at hat
  obtain ⟨x, hread, hd⟩ := htracks.emitted.lowered.reads hat hlabel
  have himplements : Implements (fs.map Function.name)
      (LeadsToLabel (bodyPieces a.function.body)) p.image r a.vars
      (offsetAt a.function.body a.position) i x :=
    implements_of_denotes rfl htracks.names (hvars _ htracks.function) hpieces hlabel hd
  have hnext : offsetAt a.function.body (a.position + 1) =
      offsetAt a.function.body a.position + x.length := by
    rw [offsetAt_succ hi, hpieces, hd.length_eq (htracks.emitted.lowered.fits q hat.mem)]
    simp
  obtain ⟨n, hn⟩ := effect_follows hm hp hvars maxFrames ⟨a, callers, depth, heap⟩ htracks
    hcallers hnext (himplements a.stack heap) (steps + 1) (offsetAt a.function.body a.position)
  refine ⟨n, ?_⟩
  rw [Function.iterate_succ_apply, steps_in_frame maxFrames rfl rfl hread]
  exact hn

lemma assign_follows {name : Text} {inner : Instr} (heq : i = .assign name inner)
    (hpieces : pieces i = [q, .slot .storeLocal name]) (hinner : pieces inner = [q])
    (hlabel : ¬IsLabel q) (hpush : inner.stackEffect.2 = 1) (depth steps : Nat) (heap : Heap) :
    ∃ n, Follows fs p
      (Source.stepOf m maxFrames ⟨a, callers, depth, heap⟩ (perform a.vars a.stack heap i))
      ((advance p.image maxFrames)^[n + 1]
        (.running ⟨frameOf r (offsetAt a.function.body a.position) a.vars a.stack, callers', depth,
          heap, steps, none⟩)) := by
  have hlow := htracks.emitted.lowered
  have hat := at_offsetAt hi (show pieces i = [] ++ q :: [.slot .storeLocal name] from hpieces)
  rw [totalSize_nil, Nat.add_zero] at hat
  have hat' := at_offsetAt hi (show pieces i = [q] ++ .slot .storeLocal name :: [] from hpieces)
  obtain ⟨x, hread, hd⟩ := hlow.reads hat hlabel
  obtain ⟨x', hread', hd'⟩ := hlow.reads hat' id
  have hlength : totalSize [q] = x.length := by
    rw [hd.length_eq (hlow.fits q hat.mem)]
    simp
  rw [hlength] at hread' hd'
  have himplements : Implements (fs.map Function.name)
      (LeadsToLabel (bodyPieces a.function.body)) p.image r a.vars
      (offsetAt a.function.body a.position) inner x :=
    implements_of_denotes rfl htracks.names (hvars _ htracks.function) hinner hlabel hd
  have hnext : offsetAt a.function.body (a.position + 1) =
      offsetAt a.function.body a.position + x.length + 2 := by
    rw [offsetAt_succ hi, hpieces, ← hlength]
    simp [pieceSize]
    omega
  obtain ⟨n, hn⟩ := storing_follows hm hp hvars maxFrames ⟨a, callers, depth, heap⟩ htracks
    hcallers hnext hread' hd' (perform_pushes hpush) (himplements a.stack heap) (steps + 1)
    (offsetAt a.function.body a.position)
  refine ⟨n, ?_⟩
  rw [Function.iterate_succ_apply, steps_in_frame maxFrames rfl rfl hread, heq, perform_assign]
  exact hn

end Instruction

/-- The instructions that are left in the running body, which bounds the steps without code. -/
def remaining : Source.Next → Nat
  | .running s => s.running.function.body.length - s.running.position
  | .done _ => 0

include hm hp hvars in
lemma step_follows {s : Source.State} {t : State} (h : Follows fs p (.running s) (.running t)) :
    ∃ n, Follows fs p (Source.step m maxFrames s) ((advance p.image maxFrames)^[n] (.running t)) ∧
      (n = 0 → remaining (Source.step m maxFrames s) < remaining (.running s)) := by
  cases h with
  | running hrun hcallers hdepth hheap hpolls =>
    obtain ⟨frame, callers', depth', heap', steps, polls⟩ := t
    obtain ⟨a, callers, depth, heap⟩ := s
    simp only at hrun hcallers hdepth hheap hpolls
    subst hdepth hheap hpolls
    obtain ⟨r, htracks, rfl⟩ := hrun
    cases hi : a.function.body[a.position]? with
    | none =>
      have hend : (r.bytes.size : Int) ≤ offsetAt a.function.body a.position := by
        have hsize := htracks.emitted.lowered.size
        rw [← offsetAt_of_length_le (List.getElem?_eq_none_iff.mp hi)] at hsize
        omega
      obtain ⟨n, hn⟩ := leave_follows hvars maxFrames .null hcallers depth heap steps
      refine ⟨n + 1, ?_, by simp⟩
      rw [Function.iterate_succ_apply, Source.step]
      simp only [hi]
      rw [show advance p.image maxFrames (.running _) = _ from step_at_end p.image maxFrames hend]
      exact hn
    | some i =>
      have hstep : Source.step m maxFrames ⟨a, callers, depth, heap⟩ =
          Source.stepOf m maxFrames ⟨a, callers, depth, heap⟩
            (perform a.vars a.stack heap i) := by
        simp only [Source.step, hi]
      rw [hstep]
      cases shape i with
      | silent hsize heffect =>
        -- no code was emitted, so the machine waits and the measure has to go down
        have hlt := (List.getElem?_eq_some_iff.mp hi).1
        rw [heffect]
        refine ⟨0, .running ⟨r, ⟨htracks.function, htracks.emitted, htracks.names⟩, ?_⟩ hcallers rfl
          rfl rfl, fun _ => ?_⟩
        · rw [offsetAt_succ hi, hsize]
          rfl
        · simp only [Source.stepOf, remaining]
          omega
      | single hpieces hlabel =>
        obtain ⟨n, hn⟩ :=
          single_follows hm hp hvars maxFrames htracks hcallers hi hpieces hlabel depth steps heap
        exact ⟨n + 1, hn, by simp⟩
      | assign heq hpieces hinner hlabel hpush =>
        obtain ⟨n, hn⟩ := assign_follows hm hp hvars maxFrames htracks hcallers hi heq hpieces hinner
          hlabel hpush depth steps heap
        exact ⟨n + 1, hn, by simp⟩

include hm hp hvars in
lemma emission_simulation :
    Process.Simulation (Source.process m maxFrames) (Proofs.process p.image maxFrames)
      (Follows fs p) view remaining where
  ended := by
    intro c d o hrel ho
    cases hrel with
    | running => cases ho
    | done hview =>
      cases ho
      exact ⟨_, rfl, hview⟩
  live := by
    intro c d hrel ho
    cases hrel with
    | running => rfl
    | done => cases ho
  step := by
    intro c d hrel ho
    cases c with
    | done o => cases ho
    | running s =>
      cases d with
      | done f => cases hrel
      | running t => exact step_follows hm hp hvars maxFrames hrel

include hm hp in
lemma start_follows (steps : Nat) (entry : Text) (heap : Heap) (arguments : List Datum) :
    Follows fs p (Source.start m maxFrames entry heap arguments)
      (Machine.start ⟨p.image, steps⟩ { maxFrames } entry heap arguments) := by
  have hfind : (p.image.routines.findIdx? fun r => r.name = entry) =
      (fs.map Function.name).idxOf? entry := by
    rw [← names_of_emitted hp.routines, List.idxOf?, List.findIdx?_map, Program.image, List.findIdx?_toArray]
    congr
    funext r
    rw [Bool.eq_iff_iff]
    simp
  unfold Machine.start
  simp only [hfind]
  cases hk : (fs.map Function.name).idxOf? entry with
  | none =>
    have hnone : m.lookup? entry = none := by
      rw [lookup_eq hm, List.find?_eq_none]
      intro f hf hname
      refine List.idxOf?_eq_none_iff.mp hk ?_
      simp only [decide_eq_true_eq] at hname
      exact hname ▸ List.mem_map_of_mem hf
    simp only [Source.start, hnone]
    exact .done rfl
  | some k =>
    obtain ⟨f, r, hlookup, hf, hr, hemitted⟩ := lookup_of_idxOf hm hp hk
    simp only [Source.start, hlookup]
    exact enter_follows maxFrames hf hr hemitted arguments .nil 0 heap steps

end Simulation

/-! ### Whole runs -/

/-- The run of a program, by the limit on its steps. No one tells it to stop. -/
abbrev runOf (p : Program) (maxFrames : Int) (steps : Nat) (entry : Text) (heap : Heap)
    (arguments : List Datum) (limit : Nat) : Option Final :=
  Machine.run ⟨p.image, steps⟩ { maxFrames } limit entry heap arguments

/-- The run ends, and shows the outcome and heap. -/
def Shows (run : Nat → Option Final) (o : Source.Final) : Prop :=
  ∃ limit f, run limit = some f ∧ view f = some o

lemma returns_iff_shows {run : Nat → Option Final} {d : Datum} {h : Heap} :
    Returns run d h ↔ Shows run ⟨.value d, h⟩ := by
  constructor
  · rintro ⟨limit, steps, hrun⟩
    exact ⟨limit, _, hrun, rfl⟩
  · rintro ⟨limit, ⟨outcome, h', steps⟩, hrun, hview⟩
    cases outcome <;> cases hview
    exact ⟨limit, steps, hrun⟩

lemma faults_iff_shows {run : Nat → Option Final} {kind : Fault.Kind} {function : Text}
    {h : Heap} : Faults run kind function h ↔ Shows run ⟨.fault kind function, h⟩ := by
  constructor
  · rintro ⟨limit, fault, steps, hrun, rfl, rfl⟩
    exact ⟨limit, _, hrun, rfl⟩
  · rintro ⟨limit, ⟨outcome, h', steps⟩, hrun, hview⟩
    cases outcome <;> cases hview
    exact ⟨limit, _, steps, hrun, rfl, rfl⟩

section Emitted

variable {m : Module} {p : Program} (hemit : m.emit = .ok p)
  (hvars : ∀ f, some f ∈ m.functions → (f.vars.map Var.name).Nodup) {maxFrames : Int} {steps : Nat}
  {entry : Text} {heap : Heap} {arguments : List Datum}

include hemit hvars

lemma emitted_simulation : ∃ rel,
    Process.Simulation (Source.process m maxFrames) (Proofs.process p.image maxFrames) rel view
      remaining ∧
    rel (Source.start m maxFrames entry heap arguments)
      (Machine.start ⟨p.image, steps⟩ { maxFrames } entry heap arguments) := by
  obtain ⟨fs, hm, hp⟩ := emittedProgram_of_emit hemit
  have hvars' : ∀ f ∈ fs, (f.vars.map Var.name).Nodup := by
    intro f hf
    refine hvars f ?_
    rw [hm]
    exact List.mem_map_of_mem hf
  exact ⟨_, emission_simulation hm hp hvars' maxFrames,
    start_follows hm hp maxFrames steps entry heap arguments⟩

/-- A program shows what the bodies of its module do. -/
lemma shows_iff_source {o : Source.Final} :
    Shows (runOf p maxFrames steps entry heap arguments) o ↔
      (Source.process m maxFrames).EndsWith (Source.start m maxFrames entry heap arguments) o := by
  obtain ⟨rel, hsim, hstart⟩ := emitted_simulation hemit hvars
  rw [hsim.endsWith_iff hstart]
  unfold Shows runOf Machine.run
  simp only [finish_eq]
  constructor
  · rintro ⟨limit, f, hrun, hview⟩
    exact ⟨f, ⟨limit, hrun⟩, hview⟩
  · rintro ⟨f, ⟨limit, hrun⟩, hview⟩
    exact ⟨limit, f, hrun, hview⟩

lemma runsForever_iff_source :
    RunsForever (runOf p maxFrames steps entry heap arguments) ↔
      (Source.process m maxFrames).Diverges (Source.start m maxFrames entry heap arguments) := by
  obtain ⟨rel, hsim, hstart⟩ := emitted_simulation hemit hvars
  rw [hsim.diverges_iff hstart]
  unfold RunsForever runOf Machine.run
  simp only [finish_eq]
  rfl

end Emitted

/-- Emission preserves meaning. The program of a valid module returns, faults or runs forever as the
bodies of the module do when they are run as they are written. If there is a function at all, the
machine accepts the program. -/
theorem emission_preserves_meaning {m : Module} {p : Program} (hvalid : m.problems = [])
    (hemit : m.emit = .ok p) (maxFrames : Int) (steps : Nat) (entry : Text) (heap : Heap)
    (arguments : List Datum) :
    let onProgram := runOf p maxFrames steps entry heap arguments
    let onBodies limit := Source.run m maxFrames limit entry heap arguments
    (m.functions ≠ [] → Machine.load p = .ok { image := p.image }) ∧
      (∀ d h, Returns onProgram d h ↔ ∃ limit, onBodies limit = some ⟨.value d, h⟩) ∧
      (∀ kind function h, Faults onProgram kind function h ↔
        ∃ limit, onBodies limit = some ⟨.fault kind function, h⟩) ∧
      (RunsForever onProgram ↔ RunsForever onBodies) := by
  have hvars := fun f => @vars_nodup_of_problems m hvalid f
  refine ⟨fun hne => ?_, fun d h => returns_iff_shows.trans (shows_iff_source hemit hvars),
    fun kind function h => faults_iff_shows.trans (shows_iff_source hemit hvars),
    runsForever_iff_source hemit hvars⟩
  obtain ⟨fs, hm, hp⟩ := emittedProgram_of_emit hemit
  have hverify : p.verify = .ok () := hp.verify_iff.mpr (by simpa [hm] using hne)
  rw [Machine.load, hverify]
  rfl

theorem countdown_meaning :
    countdown.problems = [] ∧ countdown.emit = .ok countdownProgram ∧
      ∃ limit, Source.run countdown 2 limit "main" {} [.scalar (.int 2)] =
        some ⟨.value (.scalar (.int 2)), {}⟩ := by
  have hvalid : countdown.problems = [] := by decide +kernel
  have hreturns :
      Returns (runOf countdownProgram 2 0 "main" {} [.scalar (.int 2)]) (.scalar (.int 2)) {} :=
    ⟨60, 46, by cbv⟩
  refine ⟨hvalid, emit_countdown, ?_⟩
  exact ((emission_preserves_meaning hvalid emit_countdown 2 0 "main" {} [.scalar (.int 2)]).2.1
    _ _).mp hreturns

end StackCode.Proofs
