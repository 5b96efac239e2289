import StackCode.Proofs.Interleavings
import StackCode.Proofs.Validity

/-!
# Batches of modules

The modules of a batch are compiled at the same time, a limited number of them at once. Each task
looks whether the batch was cancelled, compiles its module, which optimization rewrites in place,
and records the outcome in a slot of its own. In every interleaving of the tasks and a cancellation,
a slot is empty or holds what compiling its module alone gives, and a batch that reports no error
has filled all its slots.
-/

namespace StackCode.Proofs

variable {ρ : Type}

/-- The modules to be compiled, by the places where they are kept, and how. No two of them are kept
in one place. -/
structure Batch (ρ : Type) where
  refs : List ρ
  optimize : Bool
  jobs : Int
  processors : Nat
  refs_nodup : refs.Nodup
  processors_pos : 0 < processors

/-- How many tasks may be under way at once. Without a number of jobs it is that of processors. -/
def Batch.limit (b : Batch ρ) : Nat :=
  min (if b.jobs ≤ 0 then b.processors else b.jobs.toNat) b.refs.length

inductive TaskPhase where
  | waiting
  | launched
  | accepted
  | checked
  | prepared (stats : Stats)
  | compiled (outcome : Compile.Outcome)
  | recorded
  | ended

def TaskPhase.isEnded : TaskPhase → Bool
  | .ended => true
  | _ => false

/-- What a task has in hand: its module, how far it has come, and its slot, which is empty until the
outcome is recorded. -/
structure TaskView where
  current : Module
  phase : TaskPhase
  slot : Option (Text × Compile.Outcome)

/-- The steps in which a task compiles its module. -/
inductive TaskStep (optimize : Bool) : TaskView → TaskView → Prop
  | reject {m slot} (h : m.problems ≠ []) :
      TaskStep optimize ⟨m, .accepted, slot⟩ ⟨m, .compiled ⟨{}, .error (.invalid m.problems)⟩, slot⟩
  | check {m slot} (h : m.problems = []) :
      TaskStep optimize ⟨m, .accepted, slot⟩ ⟨m, .checked, slot⟩
  | prepare {m slot} :
      TaskStep optimize ⟨m, .checked, slot⟩
        ⟨if optimize then m.optimize.1 else m, .prepared (if optimize then m.optimize.2 else {}),
          slot⟩
  | emit {m stats slot} :
      TaskStep optimize ⟨m, .prepared stats, slot⟩
        ⟨m, .compiled ⟨stats, m.emit.mapError .emit⟩, slot⟩
  | record {m outcome slot} :
      TaskStep optimize ⟨m, .compiled outcome, slot⟩ ⟨m, .recorded, some (m.name, outcome)⟩
  | finish {m slot} : TaskStep optimize ⟨m, .recorded, slot⟩ ⟨m, .ended, slot⟩

/-- A batch under way. -/
structure BatchSite (ρ : Type) where
  store : ρ → Module
  phase : Nat → TaskPhase := fun _ => .waiting
  slot : Nat → Option (Text × Compile.Outcome) := fun _ => none
  launched : Nat := 0
  isCancelled : Bool := false
  hasFailed : Bool := false

def BatchSite.inFlight (s : BatchSite ρ) : Nat :=
  (List.range s.launched).countP fun i => !(s.phase i).isEnded

inductive BatchEvent where
  | cancel
  | launch (task : Nat)
  | turnAway (task : Nat)
  | accept (task : Nat)
  | work (task : Nat)
  deriving DecidableEq

def BatchEvent.task? : BatchEvent → Option Nat
  | .cancel => none
  | .launch i | .turnAway i | .accept i | .work i => some i

/-- What can happen next. Tasks are launched in the order of their modules, as far as there is room.
A task that finds the batch cancelled makes it fail. -/
inductive BatchStep [DecidableEq ρ] (b : Batch ρ) :
    BatchSite ρ → BatchEvent → BatchSite ρ → Prop
  | cancel {s} : BatchStep b s .cancel { s with isCancelled := true }
  | launch {s} (h : s.launched < b.refs.length) (hroom : s.inFlight < b.limit) :
      BatchStep b s (.launch s.launched)
        { s with
          phase := Function.update s.phase s.launched .launched, launched := s.launched + 1 }
  | turnAway {s i} (h : s.phase i = .launched) (hcancelled : s.isCancelled = true) :
      BatchStep b s (.turnAway i)
        { s with phase := Function.update s.phase i .ended, hasFailed := true }
  | accept {s i} (h : s.phase i = .launched) (hruns : s.isCancelled = false) :
      BatchStep b s (.accept i) { s with phase := Function.update s.phase i .accepted }
  | work {s i r m p slot} (hr : b.refs[i]? = some r)
      (h : TaskStep b.optimize ⟨s.store r, s.phase i, s.slot i⟩ ⟨m, p, slot⟩) :
      BatchStep b s (.work i)
        { s with
          store := Function.update s.store r m
          phase := Function.update s.phase i p
          slot := Function.update s.slot i slot }

/-- All tasks have ended, so that the batch returns, with an error if it has failed. -/
def BatchSite.IsOver (b : Batch ρ) (s : BatchSite ρ) : Prop :=
  s.launched = b.refs.length ∧ ∀ i < b.refs.length, s.phase i = .ended

/-! ### One task -/

/-- How far a task has come with its module. -/
def TaskFollows (optimize : Bool) (m : Module) (isLost : Prop) (v : TaskView) : Prop :=
  match v.phase with
  | .waiting | .launched | .accepted => v.current = m ∧ v.slot = none
  | .checked => m.problems = [] ∧ v.current = m ∧ v.slot = none
  | .prepared stats => m.problems = [] ∧ v.current = (if optimize then m.optimize.1 else m) ∧
      stats = (if optimize then m.optimize.2 else {}) ∧ v.slot = none
  | .compiled outcome => v.current.name = m.name ∧ outcome = m.compile optimize ∧ v.slot = none
  | .recorded => v.slot = some (m.name, m.compile optimize)
  | .ended => v.slot = some (m.name, m.compile optimize) ∨ isLost ∧ v.slot = none

/-- The most steps that a task in this phase has before it. -/
def TaskPhase.left : TaskPhase → Nat
  | .waiting => 7
  | .launched => 6
  | .accepted => 5
  | .checked => 4
  | .prepared _ => 3
  | .compiled _ => 2
  | .recorded => 1
  | .ended => 0

lemma compile_of_problems_ne {m : Module} (h : m.problems ≠ []) (optimize : Bool) :
    m.compile optimize = ⟨{}, .error (.invalid m.problems)⟩ := by
  unfold Module.compile
  split
  · contradiction
  · rfl

section Task

variable {optimize : Bool} {m : Module} {P Q : Prop} {v w : TaskView}

lemma TaskFollows.mono (hPQ : P → Q) (h : TaskFollows optimize m P v) :
    TaskFollows optimize m Q v := by
  unfold TaskFollows at h ⊢
  cases hphase : v.phase with
  | ended =>
    rw [hphase] at h
    rcases h with hslot | ⟨hlost, hslot⟩
    · exact .inl hslot
    · exact .inr ⟨hPQ hlost, hslot⟩
  | _ => simpa only [hphase] using h

lemma TaskFollows.step (h : TaskFollows optimize m P v) (hstep : TaskStep optimize v w) :
    TaskFollows optimize m P w := by
  cases hstep with
  | reject hproblems =>
    obtain ⟨rfl, hslot⟩ := h
    exact ⟨rfl, (compile_of_problems_ne hproblems _).symm, hslot⟩
  | check hproblems =>
    obtain ⟨rfl, hslot⟩ := h
    exact ⟨hproblems, rfl, hslot⟩
  | prepare =>
    obtain ⟨hproblems, rfl, hslot⟩ := h
    exact ⟨hproblems, rfl, rfl, hslot⟩
  | emit =>
    obtain ⟨hproblems, rfl, rfl, hslot⟩ := h
    refine ⟨?_, (compile_of_problems hproblems _).symm, hslot⟩
    cases optimize <;> rfl
  | record =>
    obtain ⟨hname, rfl, -⟩ := h
    exact congrArg (fun name => some (name, m.compile optimize)) hname
  | finish => exact .inl h

lemma TaskFollows.slot_eq (h : TaskFollows optimize m P v) :
    v.slot = none ∨ v.slot = some (m.name, m.compile optimize) := by
  obtain ⟨current, phase, slot⟩ := v
  cases phase with
  | waiting | launched | accepted => exact .inl h.2
  | checked | compiled outcome => exact .inl h.2.2
  | prepared stats => exact .inl h.2.2.2
  | recorded => exact .inr h
  | ended =>
    rcases h with hslot | ⟨-, hslot⟩
    · exact .inr hslot
    · exact .inl hslot

/-- A task that was accepted comes nearer to its end. -/
lemma TaskStep.left_lt (h : TaskStep optimize v w) :
    w.phase.left < v.phase.left ∧ v.phase.left < 6 := by
  cases h <;> simp [TaskPhase.left]

lemma exists_taskStep (optimize : Bool) {v : TaskView} (hwaiting : v.phase ≠ .waiting)
    (hlaunched : v.phase ≠ .launched) (hended : v.phase ≠ .ended) :
    ∃ w, TaskStep optimize v w := by
  obtain ⟨m, phase, slot⟩ := v
  cases phase with
  | waiting => exact absurd rfl hwaiting
  | launched => exact absurd rfl hlaunched
  | accepted =>
    by_cases hproblems : m.problems = []
    · exact ⟨_, .check hproblems⟩
    · exact ⟨_, .reject hproblems⟩
  | checked => exact ⟨_, .prepare⟩
  | prepared stats => exact ⟨_, .emit⟩
  | compiled outcome => exact ⟨_, .record⟩
  | recorded => exact ⟨_, .finish⟩
  | ended => exact absurd rfl hended

end Task

/-! ### The batch -/

/-- Only a cancellation from outside makes a batch fail. -/
structure Flagged (past : List BatchEvent) (s : BatchSite ρ) : Prop where
  isCancelled_iff : s.isCancelled = true ↔ BatchEvent.cancel ∈ past
  hasFailed_iff : s.hasFailed = true ↔ ∃ i, Precedes .cancel (.turnAway i) past

/-- Tasks are launched in their order, and every event of a task takes it nearer to its end. -/
structure Progressing (b : Batch ρ) (past : List BatchEvent) (s : BatchSite ρ) : Prop where
  launched_le : s.launched ≤ b.refs.length
  waiting_iff : ∀ i, s.phase i = .waiting ↔ s.launched ≤ i
  events_le : (past.filterMap BatchEvent.task?).length +
    ∑ i ∈ Finset.range b.refs.length, (s.phase i).left ≤ 7 * b.refs.length

/-- Every task follows its own module. -/
structure BatchCoherent (b : Batch ρ) (store : ρ → Module) (past : List BatchEvent)
    (s : BatchSite ρ) : Prop where
  flagged : Flagged past s
  progressing : Progressing b past s
  task : ∀ i r, b.refs[i]? = some r →
    TaskFollows b.optimize (store r) (Precedes .cancel (.turnAway i) past)
      ⟨s.store r, s.phase i, s.slot i⟩

/-- A batch that accepts no task. -/
structure ClosedBatch (s : BatchSite ρ) : Prop where
  isCancelled : s.isCancelled = true
  phase : ∀ i, s.phase i = .waiting ∨ s.phase i = .launched ∨
    s.phase i = .ended ∧ s.hasFailed = true

section Site

variable {b : Batch ρ} {store : ρ → Module} {past events : List BatchEvent} {s t : BatchSite ρ}
  {e : BatchEvent} {i : Nat} {r : ρ} {p : TaskPhase}

lemma sum_left_update {n : Nat} {phase : Nat → TaskPhase} (hi : i < n)
    (hp : p.left < (phase i).left) :
    ∑ j ∈ Finset.range n, (Function.update phase i p j).left <
      ∑ j ∈ Finset.range n, (phase j).left := by
  apply Finset.sum_lt_sum
  · intro j _
    by_cases hji : j = i
    · subst hji
      simpa using hp.le
    · simp [hji]
  · exact ⟨i, by simpa using hi, by simpa using hp⟩

lemma Progressing.events_advance (h : Progressing b past s) (he : e.task? = some i)
    (hi : i < b.refs.length) (hp : p.left < (s.phase i).left) :
    ((past ++ [e]).filterMap BatchEvent.task?).length +
      ∑ j ∈ Finset.range b.refs.length, (Function.update s.phase i p j).left ≤
        7 * b.refs.length := by
  have hsum := sum_left_update hi hp
  have hbound := h.events_le
  have hlength : ((past ++ [e]).filterMap BatchEvent.task?).length =
      (past.filterMap BatchEvent.task?).length + 1 := by
    simp [he]
  omega

/-- A launched task goes on. -/
lemma Progressing.advance (h : Progressing b past s) (he : e.task? = some i)
    (hi : s.phase i ≠ .waiting) (hp : p ≠ .waiting) (hleft : p.left < (s.phase i).left)
    (hlaunched : t.launched = s.launched) (hphase : t.phase = Function.update s.phase i p) :
    Progressing b (past ++ [e]) t := by
  have hless : i < s.launched := by rwa [ne_eq, h.waiting_iff, not_le] at hi
  refine ⟨hlaunched ▸ h.launched_le, fun j => ?_, ?_⟩
  · rw [hlaunched, hphase]
    by_cases hji : j = i
    · subst hji
      simpa [hp] using hless
    · rw [Function.update_of_ne hji]
      exact h.waiting_iff j
  · rw [hphase]
    exact h.events_advance he (lt_of_lt_of_le hless h.launched_le) hleft

/-- A task that has ended has recorded its outcome, or had looked too late. -/
lemma BatchCoherent.slot_of_ended (h : BatchCoherent b store past s) (hr : b.refs[i]? = some r)
    (hphase : s.phase i = .ended) :
    s.slot i = some ((store r).name, (store r).compile b.optimize) ∨
      Precedes .cancel (.turnAway i) past := by
  have hfollows := h.task i r hr
  rw [hphase] at hfollows
  exact hfollows.imp id And.left

lemma BatchCoherent.slots_eq (h : BatchCoherent b store past s) (hover : s.IsOver b)
    (hgood : s.hasFailed = false) : (List.range b.refs.length).map s.slot =
      (Module.compileEach b.optimize (b.refs.map store)).map some := by
  apply List.ext_getElem?
  intro i
  cases hr : b.refs[i]? with
  | none => simp_all [Module.compileEach]
  | some r =>
    have hless := (List.getElem?_eq_some_iff.mp hr).1
    rcases h.slot_of_ended hr (hover.2 i hless) with hslot | hlost
    · simp only [Module.compileEach, List.getElem?_map, List.getElem?_range hless, hr,
        Option.map_some, hslot]
    · simp [h.flagged.hasFailed_iff.mpr ⟨i, hlost⟩] at hgood

/-- Only a cancelled batch of some modules fails. -/
lemma BatchCoherent.cancelled_of_failed (h : BatchCoherent b store past s)
    (hfailed : s.hasFailed = true) : BatchEvent.cancel ∈ past ∧ b.refs ≠ [] := by
  obtain ⟨i, hi⟩ := h.flagged.hasFailed_iff.mp hfailed
  refine ⟨hi.mem.1, fun hrefs => ?_⟩
  have hmem : i ∈ past.filterMap BatchEvent.task? := List.mem_filterMap.mpr ⟨_, hi.mem.2, rfl⟩
  have hnone := h.progressing.events_le
  rw [hrefs, List.length_nil, Nat.mul_zero, Nat.le_zero, Nat.add_eq_zero_iff] at hnone
  simp [List.eq_nil_of_length_eq_zero hnone.1] at hmem

variable [DecidableEq ρ]

lemma Flagged.step (h : Flagged past s) (hstep : BatchStep b s e t) : Flagged (past ++ [e]) t := by
  obtain ⟨hiff, hfailed⟩ := h
  cases hstep with
  | cancel => exact ⟨by simp, by simpa [precedes_concat_iff] using hfailed⟩
  | @turnAway i _ hcancelled =>
    refine ⟨by simpa using hiff, fun _ => ⟨i, past, [], rfl, hiff.mp hcancelled⟩, fun _ => rfl⟩
  | launch | accept | work =>
    exact ⟨by simpa using hiff, by simpa [precedes_concat_iff] using hfailed⟩

lemma Progressing.step (h : Progressing b past s) (hstep : BatchStep b s e t) :
    Progressing b (past ++ [e]) t := by
  cases hstep with
  | cancel =>
    refine ⟨h.launched_le, h.waiting_iff, ?_⟩
    simpa [List.filterMap_cons, BatchEvent.task?] using h.events_le
  | launch hless =>
    have hwaiting := (h.waiting_iff s.launched).mpr le_rfl
    refine ⟨hless, fun j => ?_, h.events_advance rfl hless ?_⟩
    · by_cases hj : j = s.launched
      · simp [hj]
      · simp only [Function.update_of_ne hj, h.waiting_iff]
        omega
    · rw [hwaiting]
      decide
  | turnAway hphase | accept hphase =>
    refine h.advance rfl ?_ ?_ ?_ rfl rfl
    · simp [hphase]
    · simp
    · simp [hphase, TaskPhase.left]
  | work _ hwork =>
    obtain ⟨hleft, haccepted⟩ := hwork.left_lt
    refine h.advance rfl ?_ ?_ hleft rfl rfl
    · rintro hphase
      simp [hphase, TaskPhase.left] at haccepted
    · rintro rfl
      simp only [TaskPhase.left] at hleft haccepted
      omega

/-- A task leaves the modules and slots of all others alone. -/
lemma BatchStep.frame (h : BatchStep b s e t) (hr : b.refs[i]? = some r) (hi : e.task? ≠ some i) :
    t.phase i = s.phase i ∧ t.slot i = s.slot i ∧ t.store r = s.store r := by
  have hne : ∀ j, e.task? = some j → i ≠ j := by
    rintro j hj rfl
    exact hi hj
  cases h with
  | cancel => exact ⟨rfl, rfl, rfl⟩
  | launch | turnAway | accept => exact ⟨Function.update_of_ne (hne _ rfl) _ _, rfl, rfl⟩
  | @work j r' _ _ _ hr' =>
    have hij := hne j rfl
    have hrr' : r ≠ r' := by
      rintro rfl
      have hless := (List.getElem?_eq_some_iff.mp hr).1
      exact hij ((List.getElem?_inj hless b.refs_nodup).mp (hr.trans hr'.symm))
    exact ⟨Function.update_of_ne hij _ _, Function.update_of_ne hij _ _,
      Function.update_of_ne hrr' _ _⟩

lemma BatchCoherent.task_step (h : BatchCoherent b store past s) (hstep : BatchStep b s e t)
    (hr : b.refs[i]? = some r) :
    TaskFollows b.optimize (store r) (Precedes .cancel (.turnAway i) (past ++ [e]))
      ⟨t.store r, t.phase i, t.slot i⟩ := by
  have hbefore := (h.task i r hr).mono
    fun hlost => (precedes_concat_iff (e := e)).mpr (.inl hlost)
  by_cases hi : e.task? = some i
  · cases hstep with
    | cancel => cases hi
    | launch =>
      cases hi
      simp only [Function.update_self]
      rw [(h.progressing.waiting_iff _).mpr le_rfl] at hbefore
      exact hbefore
    | turnAway hphase hcancelled =>
      cases hi
      simp only [Function.update_self]
      rw [hphase] at hbefore
      exact .inr ⟨⟨past, [], rfl, h.flagged.isCancelled_iff.mp hcancelled⟩, hbefore.2⟩
    | accept hphase =>
      cases hi
      simp only [Function.update_self]
      rw [hphase] at hbefore
      exact hbefore
    | work hr' hwork =>
      cases hi
      cases hr.symm.trans hr'
      simp only [Function.update_self]
      exact hbefore.step hwork
  · obtain ⟨hphase, hslot, hstore⟩ := hstep.frame hr hi
    rwa [hphase, hslot, hstore]

lemma batchCoherent_of_steps (h : Steps (BatchStep b) { store := store } events s) :
    BatchCoherent b store events s := by
  refine h.invariant ?_ ⟨?_, ?_, ?_⟩
  · intro past s e t hs hstep
    exact ⟨hs.flagged.step hstep, hs.progressing.step hstep, fun i r => hs.task_step hstep⟩
  · exact ⟨by simp, by simp [Precedes]⟩
  · exact ⟨Nat.zero_le _, by simp, by simp [TaskPhase.left, Nat.mul_comm]⟩
  · exact fun i r _ => ⟨rfl, rfl⟩

/-- While a task has not ended, there is something that it can do. -/
lemma exists_step_of_launched (h : Progressing b past s) (hi : i < s.launched)
    (hended : s.phase i ≠ .ended) : ∃ e t, e ≠ BatchEvent.cancel ∧ BatchStep b s e t := by
  have hwaiting : s.phase i ≠ .waiting := by
    rw [ne_eq, h.waiting_iff]
    omega
  by_cases hlaunched : s.phase i = .launched
  · cases hcancelled : s.isCancelled with
    | true => exact ⟨_, _, by simp, .turnAway hlaunched hcancelled⟩
    | false => exact ⟨_, _, by simp, .accept hlaunched hcancelled⟩
  · obtain ⟨r, hr⟩ : ∃ r, b.refs[i]? = some r :=
      ⟨_, List.getElem?_eq_getElem (lt_of_lt_of_le hi h.launched_le)⟩
    obtain ⟨w, hw⟩ := exists_taskStep b.optimize (v := ⟨s.store r, s.phase i, s.slot i⟩) hwaiting
      hlaunched hended
    exact ⟨_, _, by simp, .work hr hw⟩

/-- Only a batch that is over has nothing left to do. -/
lemma isOver_of_stuck (h : Progressing b past s)
    (hstuck : ∀ e t, BatchStep b s e t → e = BatchEvent.cancel) : s.IsOver b := by
  have hended : ∀ i < s.launched, s.phase i = .ended := by
    intro i hi
    by_contra hgoing
    obtain ⟨e, t, he, hstep⟩ := exists_step_of_launched h hi hgoing
    exact he (hstuck e t hstep)
  have hall : s.launched = b.refs.length := by
    by_contra hmore
    have hless : s.launched < b.refs.length := lt_of_le_of_ne h.launched_le hmore
    have hflight : s.inFlight = 0 := by
      refine List.countP_eq_zero.mpr fun i hi => ?_
      simp [hended i (by simpa using hi), TaskPhase.isEnded]
    have hlimit : 0 < b.limit := by
      have hpos := b.processors_pos
      unfold Batch.limit
      split <;> omega
    have hcancel := hstuck _ _ (.launch hless (hflight ▸ hlimit))
    cases hcancel
  exact ⟨hall, hall ▸ hended⟩

lemma ClosedBatch.step (h : ClosedBatch s) (hstep : BatchStep b s e t) : ClosedBatch t := by
  cases hstep with
  | cancel => exact ⟨rfl, h.phase⟩
  | launch =>
    refine ⟨h.isCancelled, fun j => ?_⟩
    by_cases hj : j = s.launched
    · simp [hj]
    · simpa [hj] using h.phase j
  | @turnAway i =>
    refine ⟨h.isCancelled, fun j => ?_⟩
    by_cases hj : j = i
    · simp [hj]
    · simpa [hj] using (h.phase j).imp id (Or.imp id And.left)
  | accept _ hruns => simp [h.isCancelled] at hruns
  | @work i _ _ _ _ _ hwork =>
    -- Only an accepted task works.
    obtain ⟨hleft, haccepted⟩ := hwork.left_lt
    rcases h.phase i with hphase | hphase | ⟨hphase, -⟩
    · simp [hphase, TaskPhase.left] at haccepted
    · simp [hphase, TaskPhase.left] at haccepted
    · simp [hphase, TaskPhase.left] at hleft

/-- A batch of some modules that is cancelled before it begins fails. -/
lemma hasFailed_of_cancelled_first (h : Steps (BatchStep b) { store := store } events s)
    (hfirst : events.head? = some .cancel) (hrefs : b.refs ≠ []) (hover : s.IsOver b) :
    s.hasFailed = true := by
  cases h with
  | done => cases hfirst
  | next hcancel hrest =>
    cases hfirst
    cases hcancel
    have hclosed : ClosedBatch s := hrest.invariant (P := fun _ s => ClosedBatch s)
      (fun hs hstep => hs.step hstep) ⟨rfl, fun _ => .inl rfl⟩
    have hended := hover.2 0 (List.length_pos_iff.mpr hrefs)
    simpa [hended] using hclosed.phase 0

lemma compileAll_eq_of_over (h : Steps (BatchStep b) { store := store } events s)
    (hover : s.IsOver b)
    (hwhen : BatchEvent.cancel ∉ events ∨ events.head? = some .cancel) :
    Module.compileAll (BatchEvent.cancel ∈ events) b.optimize (b.refs.map store) =
      if s.hasFailed then none else some (Module.compileEach b.optimize (b.refs.map store)) := by
  cases hfailed : s.hasFailed with
  | true =>
    obtain ⟨hcancel, hrefs⟩ := (batchCoherent_of_steps h).cancelled_of_failed hfailed
    simp [Module.compileAll, hcancel, hrefs]
  | false =>
    rcases hwhen with hout | hfirst
    · simp [Module.compileAll, hout]
    · have hrefs : b.refs = [] := by
        by_contra hrefs
        simp [hasFailed_of_cancelled_first h hfirst hrefs hover] at hfailed
      simp [Module.compileAll, hrefs]

/-- In every interleaving, a slot is empty or holds what compiling its module alone gives. A batch
that is over without an error has the outcomes of all its modules. A batch fails only if a task
looked after a cancellation, and only such a task ends without its outcome, whatever became of the
other modules. There are at most seven events of each task, and then the batch is over. If it is
cancelled before all else or not at all, it answers as the modules compiled one by one. -/
theorem batch_compiles_each (h : Steps (BatchStep b) { store := store } events s) :
    (∀ i r, b.refs[i]? = some r → s.slot i = none ∨
      s.slot i = some ((store r).name, (store r).compile b.optimize)) ∧
    (s.IsOver b → s.hasFailed = false → (List.range b.refs.length).map s.slot =
      (Module.compileEach b.optimize (b.refs.map store)).map some) ∧
    (s.hasFailed = true ↔ ∃ i, Precedes .cancel (.turnAway i) events) ∧
    (∀ i r, b.refs[i]? = some r → s.phase i = .ended →
      s.slot i = some ((store r).name, (store r).compile b.optimize) ∨
        Precedes .cancel (.turnAway i) events) ∧
    (events.filterMap BatchEvent.task?).length ≤ 7 * b.refs.length ∧
    ((∀ e t, BatchStep b s e t → e = .cancel) → s.IsOver b) ∧
    (s.IsOver b → BatchEvent.cancel ∉ events ∨ events.head? = some .cancel →
      Module.compileAll (BatchEvent.cancel ∈ events) b.optimize (b.refs.map store) =
        if s.hasFailed then none
        else some (Module.compileEach b.optimize (b.refs.map store))) := by
  have hs := batchCoherent_of_steps h
  refine ⟨fun i r hr => (hs.task i r hr).slot_eq, hs.slots_eq, hs.flagged.hasFailed_iff,
    fun i r => hs.slot_of_ended, ?_, isOver_of_stuck hs.progressing, compileAll_eq_of_over h⟩
  exact le_trans (Nat.le_add_right _ _) hs.progressing.events_le

end Site

/-- The second of three modules is not valid. -/
def mixedStore (place : Nat) : Module :=
  { name := "m"
    functions := if place = 1 then [none] else
      [some { name := "f", body := [.const (.int 1), .const (.int 2), .binary .add, .ret] }] }

def mixedBatch : Batch Nat where
  refs := [0, 1, 2]
  optimize := true
  jobs := 2
  processors := 1
  refs_nodup := by decide
  processors_pos := by decide

/-- Two modules at once. The third is accepted when the second is done, and the batch is cancelled
when no task looks any more. -/
def mixedEvents : List BatchEvent :=
  [.launch 0, .launch 1, .accept 1, .accept 0, .work 1, .work 0, .work 1, .work 0, .work 1,
    .launch 2, .accept 2, .cancel, .work 2, .work 2, .work 0, .work 2, .work 2, .work 0, .work 2,
    .work 0]

theorem mixed_batch_complete :
    ∃ s : BatchSite Nat, Steps (BatchStep mixedBatch) { store := mixedStore } mixedEvents s ∧
      s.IsOver mixedBatch ∧ s.hasFailed = false ∧
      [s.slot 0, s.slot 1, s.slot 2] =
        (Module.compileEach true [mixedStore 0, mixedStore 1, mixedStore 2]).map some := by
  obtain ⟨s, hrun, hover, hgood⟩ : ∃ s : BatchSite Nat,
      Steps (BatchStep mixedBatch) { store := mixedStore } mixedEvents s ∧
        s.IsOver mixedBatch ∧ s.hasFailed = false := by
    refine ⟨_, .next (.launch (by decide) (by decide)) <| .next (.launch (by decide) (by decide)) <|
      .next (.accept rfl rfl) <| .next (.accept rfl rfl) <|
      .next (.work rfl (.reject (by decide))) <|
      .next (.work rfl (.check (by decide))) <| .next (.work rfl .record) <|
      .next (.work rfl .prepare) <| .next (.work rfl .finish) <|
      .next (.launch (by decide) (by decide)) <| .next (.accept rfl rfl) <| .next .cancel <|
      .next (.work rfl (.check (by decide))) <| .next (.work rfl .prepare) <|
      .next (.work rfl .emit) <| .next (.work rfl .emit) <| .next (.work rfl .record) <|
      .next (.work rfl .record) <| .next (.work rfl .finish) <| .next (.work rfl .finish) (.done _),
      ⟨rfl, ?_⟩, rfl⟩
    intro i hi
    have hcases : i = 0 ∨ i = 1 ∨ i = 2 := by
      have hlength : mixedBatch.refs.length = 3 := rfl
      omega
    rcases hcases with rfl | rfl | rfl
    · rfl
    · rfl
    · rfl
  exact ⟨s, hrun, hover, hgood, (batch_compiles_each hrun).2.1 hover hgood⟩

end StackCode.Proofs
