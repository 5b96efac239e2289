import StackCode.Proofs.Interleavings
import StackCode.Server.Worker
import StackCode.Text.Basic

/-!
# Calls of one worker

Any number of callers give tasks to one worker, which may be stopped at any moment. A call enters,
finds the worker running, puts its task into a queue of bounded length and waits for the reply. The
worker's loop takes one task at a time from the queue, runs it on the state that only the loop uses,
and replies. In every interleaving of the calls, the loop and a stop, the tasks are run one after
the other in the order in which they were taken, and a call that is not turned away has the result
of its own task.
-/

namespace StackCode.Proofs

variable {ι σ β : Type}

/-- A task in the steps that it takes. Each reads the state and writes it, until the task is done,
with a value or with the text of a panic. -/
inductive WorkerTask (σ β : Type) where
  | done (result : Except Text β)
  | access (write : σ → σ) (next : σ → WorkerTask σ β)

/-- A whole task at once. -/
def WorkerTask.run : WorkerTask σ β → σ → Except Text β × σ
  | .done result, state => (result, state)
  | .access write next, state => (next state).run (write state)

/-- Why a call has no value. -/
inductive CallFailure where
  | stopped
  | panicked (text : Text)
  deriving DecidableEq

/-- What a call returns for the result of its task. -/
def answerOf (result : Except Text β) : Except CallFailure β := result.mapError .panicked

inductive CallPhase (β : Type) where
  | absent
  | entered
  | submitting
  | waiting
  | returned (answer : Except CallFailure β)

inductive LoopPhase (ι σ β : Type) where
  | free
  | running (call : ι) (rest : WorkerTask σ β)
  | replying (call : ι) (result : Except Text β)
  | ended

/-- A worker among its callers. -/
structure WorkerSite (ι σ β : Type) where
  state : σ
  queue : List ι := []
  loop : LoopPhase ι σ β := .free
  phase : ι → CallPhase β := fun _ => .absent
  reply : ι → Option (Except Text β) := fun _ => none
  isStopped : Bool := false

inductive WorkerEvent (ι : Type) where
  | enter (call : ι)
  | pass (call : ι)
  | submit (call : ι)
  | receive (call : ι)
  | refuse (call : ι)
  | take (call : ι)
  | access (call : ι)
  | finish (call : ι)
  | reply (call : ι)
  | stop
  | quit
  deriving DecidableEq

/-- The number of tasks that may wait. -/
def queueCapacity : Nat := 64

/-- What can happen next. A stop closes the way in, but a call that has passed may still submit its
task, the loop may still take one, and a call that waits may still receive its reply. -/
inductive WorkerStep [DecidableEq ι] (task : ι → WorkerTask σ β) :
    WorkerSite ι σ β → WorkerEvent ι → WorkerSite ι σ β → Prop
  | enter {s k} (h : s.phase k = .absent) :
      WorkerStep task s (.enter k) { s with phase := Function.update s.phase k .entered }
  | pass {s k} (h : s.phase k = .entered) (hruns : s.isStopped = false) :
      WorkerStep task s (.pass k) { s with phase := Function.update s.phase k .submitting }
  | submit {s k} (h : s.phase k = .submitting) (hroom : s.queue.length < queueCapacity) :
      WorkerStep task s (.submit k)
        { s with queue := s.queue ++ [k], phase := Function.update s.phase k .waiting }
  | receive {s k r} (h : s.phase k = .waiting) (hreply : s.reply k = some r) :
      WorkerStep task s (.receive k)
        { s with phase := Function.update s.phase k (.returned (answerOf r)) }
  | refuse {s k} (h : s.phase k = .entered ∨ s.phase k = .submitting ∨ s.phase k = .waiting)
      (hstop : s.isStopped = true) :
      WorkerStep task s (.refuse k)
        { s with phase := Function.update s.phase k (.returned (.error .stopped)) }
  | take {s k queue} (h : s.loop = .free) (hqueue : s.queue = k :: queue) :
      WorkerStep task s (.take k) { s with queue := queue, loop := .running k (task k) }
  | access {s k write next} (h : s.loop = .running k (.access write next)) :
      WorkerStep task s (.access k)
        { s with state := write s.state, loop := .running k (next s.state) }
  | finish {s k r} (h : s.loop = .running k (.done r)) :
      WorkerStep task s (.finish k) { s with loop := .replying k r }
  | reply {s k r} (h : s.loop = .replying k r) :
      WorkerStep task s (.reply k)
        { s with loop := .free, reply := Function.update s.reply k (some r) }
  | stop {s} : WorkerStep task s .stop { s with isStopped := true }
  | quit {s} (h : s.loop = .free) (hstop : s.isStopped = true) :
      WorkerStep task s .quit { s with loop := .ended }

/-- The calls whose tasks were put into the queue, in that order. -/
def submitted (events : List (WorkerEvent ι)) : List ι :=
  events.filterMap fun
    | .submit k => some k
    | _ => none

/-- The calls whose tasks were taken from the queue, in that order. -/
def taken (events : List (WorkerEvent ι)) : List ι :=
  events.filterMap fun
    | .take k => some k
    | _ => none

/-- The calls whose tasks were run to their end, in that order. -/
def finished (events : List (WorkerEvent ι)) : List ι :=
  events.filterMap fun
    | .finish k => some k
    | _ => none

/-- What the loop does without being stopped. -/
def WorkerEvent.ByLoop : WorkerEvent ι → Prop
  | .take _ | .access _ | .finish _ | .reply _ => True
  | _ => False

/-- The state once the task that is running, if there is one, is over. -/
def WorkerSite.settled (s : WorkerSite ι σ β) : σ :=
  match s.loop with
  | .running _ rest => (rest.run s.state).2
  | _ => s.state

/-- A worker that performed the tasks of the calls one after the other. -/
def performed (task : ι → WorkerTask σ β) (start : σ) (calls : List ι) : Worker σ :=
  calls.foldl (fun w k => (w.perform (task k).run).2) { state := start }

/-- The call's task has the result when the tasks of the calls are performed in their order. -/
def ResultIn (task : ι → WorkerTask σ β) (start : σ) (calls : List ι) (k : ι)
    (r : Except Text β) : Prop :=
  ∃ before later, calls = before ++ k :: later ∧
    ((performed task start before).perform (task k).run).1 = some r

section Histories

variable {events : List (WorkerEvent ι)}

@[simp]
lemma submitted_append (more : List (WorkerEvent ι)) :
    submitted (events ++ more) = submitted events ++ submitted more :=
  List.filterMap_append

@[simp]
lemma taken_append (more : List (WorkerEvent ι)) :
    taken (events ++ more) = taken events ++ taken more :=
  List.filterMap_append

@[simp]
lemma finished_append (more : List (WorkerEvent ι)) :
    finished (events ++ more) = finished events ++ finished more :=
  List.filterMap_append

end Histories

section Performed

variable (task : ι → WorkerTask σ β) (start : σ)

lemma performed_concat (calls : List ι) (k : ι) : performed task start (calls ++ [k]) =
    ((performed task start calls).perform (task k).run).2 := by
  simp [performed]

lemma isStopped_performed (calls : List ι) : (performed task start calls).isStopped = false := by
  induction calls using List.reverseRecOn with
  | nil => rfl
  | append_singleton calls k ih =>
    rw [performed_concat, Worker.perform, ih]
    rfl

lemma perform_performed (calls : List ι) (k : ι) :
    (performed task start calls).perform (task k).run =
      (some ((task k).run (performed task start calls).state).1,
        { state := ((task k).run (performed task start calls).state).2 }) := by
  unfold Worker.perform
  rw [isStopped_performed]
  rfl

variable {task start}

lemma ResultIn.concat {calls : List ι} {k : ι} {r : Except Text β}
    (h : ResultIn task start calls k r) (j : ι) : ResultIn task start (calls ++ [j]) k r := by
  obtain ⟨before, later, rfl, hr⟩ := h
  exact ⟨before, later ++ [j], by simp, hr⟩

end Performed

/-! ### The queue -/

/-- Tasks leave the queue in the order in which they came, and no call submits twice. -/
structure Queueing (past : List (WorkerEvent ι)) (s : WorkerSite ι σ β) : Prop where
  submitted_eq : submitted past = taken past ++ s.queue
  nodup : (submitted past).Nodup
  phase_of_mem : ∀ k ∈ submitted past, s.phase k = .waiting ∨ ∃ a, s.phase k = .returned a
  mem_of_waiting : ∀ k, s.phase k = .waiting → k ∈ submitted past
  length_le : s.queue.length ≤ queueCapacity

section Queueing

variable {task : ι → WorkerTask σ β} {past : List (WorkerEvent ι)}
  {s t : WorkerSite ι σ β} {e : WorkerEvent ι}

lemma Queueing.frame (h : Queueing past s) (hsubmitted : submitted [e] = [])
    (htaken : taken [e] = []) (hqueue : t.queue = s.queue) (hphase : t.phase = s.phase) :
    Queueing (past ++ [e]) t := by
  have hpast : submitted (past ++ [e]) = submitted past := by simp [hsubmitted]
  refine ⟨?_, hpast ▸ h.nodup, ?_, ?_, hqueue ▸ h.length_le⟩
  · rw [hpast, taken_append, htaken, List.append_nil, hqueue]
    exact h.submitted_eq
  · rw [hpast, hphase]
    exact h.phase_of_mem
  · rw [hpast, hphase]
    exact h.mem_of_waiting

lemma Queueing.not_mem (h : Queueing past s) {k : ι} (hwaiting : s.phase k ≠ .waiting)
    (hreturned : ∀ a, s.phase k ≠ .returned a) : k ∉ submitted past := by
  intro hk
  rcases h.phase_of_mem k hk with hphase | ⟨a, hphase⟩
  · exact hwaiting hphase
  · exact hreturned a hphase

variable [DecidableEq ι]

/-- A call goes on, but not to the queue. -/
lemma Queueing.advance (h : Queueing past s) {k : ι} {p : CallPhase β}
    (hsubmitted : submitted [e] = []) (htaken : taken [e] = [])
    (hp : k ∈ submitted past → ∃ a, p = .returned a) (hwaiting : p ≠ .waiting) :
    Queueing (past ++ [e]) { s with phase := Function.update s.phase k p } := by
  have hpast : submitted (past ++ [e]) = submitted past := by simp [hsubmitted]
  refine ⟨?_, hpast ▸ h.nodup, ?_, ?_, h.length_le⟩
  · rw [hpast, taken_append, htaken, List.append_nil]
    exact h.submitted_eq
  · intro j hj
    rw [hpast] at hj
    by_cases hjk : j = k
    · subst hjk
      simpa using .inr (hp hj)
    · simpa [hjk] using h.phase_of_mem j hj
  · intro j hj
    rw [hpast]
    by_cases hjk : j = k
    · subst hjk
      simp [hwaiting] at hj
    · exact h.mem_of_waiting j (by simpa [hjk] using hj)

lemma Queueing.step (h : Queueing past s) (hstep : WorkerStep task s e t) :
    Queueing (past ++ [e]) t := by
  cases hstep with
  | enter hphase | pass hphase =>
    exact h.advance rfl rfl (fun hk => absurd hk (h.not_mem (by simp [hphase]) (by simp [hphase])))
      (by simp)
  | receive | refuse => exact h.advance rfl rfl (fun _ => ⟨_, rfl⟩) (by simp)
  | @submit k hphase hroom =>
    have hfresh : k ∉ submitted past := h.not_mem (by simp [hphase]) (by simp [hphase])
    have hpast : submitted (past ++ [WorkerEvent.submit k]) = submitted past ++ [k] := by
      simp [submitted]
    refine ⟨?_, ?_, ?_, ?_, ?_⟩
    · rw [hpast, h.submitted_eq]
      simp [taken]
    · rw [hpast, ← List.concat_eq_append]
      exact h.nodup.concat hfresh
    · intro j hj
      by_cases hjk : j = k
      · simp [hjk]
      · rw [hpast] at hj
        simpa [hjk] using h.phase_of_mem j (by simpa [hjk] using hj)
    · intro j hj
      rw [hpast]
      by_cases hjk : j = k
      · simp [hjk]
      · simp [h.mem_of_waiting j (by simpa [hjk] using hj)]
    · simpa using hroom
  | @take k queue _ hqueue =>
    have hpast : submitted (past ++ [WorkerEvent.take k]) = submitted past := by simp [submitted]
    have hlength := h.length_le
    rw [hqueue, List.length_cons] at hlength
    refine ⟨?_, hpast ▸ h.nodup, hpast ▸ h.phase_of_mem, hpast ▸ h.mem_of_waiting, by simp; omega⟩
    rw [hpast, h.submitted_eq, hqueue]
    simp [taken]
  | access | finish | reply | stop | quit => exact h.frame rfl rfl rfl rfl

end Queueing

/-! ### The loop -/

/-- The state that the loop works on. Between two tasks it is the state after those that were taken.
Within a task, what is left of it leads where the whole task would have led from there. -/
def LoopFollows (task : ι → WorkerTask σ β) (start : σ) (taken finished : List ι) (state : σ) :
    LoopPhase ι σ β → Prop
  | .free | .ended => taken = finished ∧ state = (performed task start finished).state
  | .running k rest => taken = finished ++ [k] ∧
      rest.run state = (task k).run (performed task start finished).state
  | .replying k r => taken = finished ∧ state = (performed task start finished).state ∧
      ResultIn task start finished k r

/-- Tasks are run one after the other, and their results reach the calls. -/
structure Serving (task : ι → WorkerTask σ β) (start : σ) (past : List (WorkerEvent ι))
    (s : WorkerSite ι σ β) : Prop where
  loop : LoopFollows task start (taken past) (finished past) s.state s.loop
  replies : ∀ k r, s.reply k = some r → ResultIn task start (finished past) k r
  replied : ∀ k ∈ finished past, (∃ r, s.reply k = some r) ∨ ∃ r, s.loop = .replying k r
  returned : ∀ k a, s.phase k = .returned a →
    a = .error .stopped ∨ ∃ r, ResultIn task start (finished past) k r ∧ a = answerOf r

section Serving

variable {task : ι → WorkerTask σ β} {start : σ} {past : List (WorkerEvent ι)}
  {s t : WorkerSite ι σ β} {e : WorkerEvent ι}

/-- The loop goes on, without an end of a task and without a reply. -/
lemma Serving.turn (h : Serving task start past s) (hfinished : finished [e] = [])
    (hloop : LoopFollows task start (taken (past ++ [e])) (finished past) t.state t.loop)
    (hquiet : ∀ k r, s.loop = .replying k r → t.loop = .replying k r) (hreply : t.reply = s.reply)
    (hphase : ∀ k a, t.phase k = .returned a → s.phase k = .returned a ∨
      a = .error .stopped ∨ ∃ r, ResultIn task start (finished past) k r ∧ a = answerOf r) :
    Serving task start (past ++ [e]) t := by
  have hpast : finished (past ++ [e]) = finished past := by simp [hfinished]
  refine ⟨?_, ?_, ?_, ?_⟩
  · rwa [hpast]
  · rw [hpast, hreply]
    exact h.replies
  · intro k hk
    rw [hpast] at hk
    rw [hreply]
    rcases h.replied k hk with hreplied | ⟨r, hr⟩
    · exact .inl hreplied
    · exact .inr ⟨r, hquiet k r hr⟩
  · intro k a ha
    rw [hpast]
    rcases hphase k a ha with hbefore | hnew
    · exact h.returned k a hbefore
    · exact hnew

variable [DecidableEq ι]

/-- A call goes on. If it returns, it was turned away or has its result. -/
lemma Serving.advance (h : Serving task start past s) {k : ι} {p : CallPhase β} {queue : List ι}
    (htaken : taken [e] = []) (hfinished : finished [e] = [])
    (hp : ∀ a, p = .returned a →
      a = .error .stopped ∨ ∃ r, ResultIn task start (finished past) k r ∧ a = answerOf r) :
    Serving task start (past ++ [e])
      { s with queue := queue, phase := Function.update s.phase k p } := by
  have hloop : LoopFollows task start (taken (past ++ [e])) (finished past) s.state s.loop := by
    rw [taken_append, htaken, List.append_nil]
    exact h.loop
  refine h.turn hfinished hloop (fun _ _ hr => hr) rfl fun j a hj => ?_
  by_cases hjk : j = k
  · subst hjk
    exact .inr (hp a (by simpa using hj))
  · exact .inl (by simpa [hjk] using hj)

lemma Serving.step (h : Serving task start past s) (hstep : WorkerStep task s e t) :
    Serving task start (past ++ [e]) t := by
  have hloop := h.loop
  cases hstep with
  | enter | pass | submit => exact h.advance rfl rfl (by simp)
  | receive _ hreply =>
    refine h.advance rfl rfl fun a ha => .inr ⟨_, h.replies _ _ hreply, ?_⟩
    cases ha
    rfl
  | refuse =>
    refine h.advance rfl rfl fun a ha => .inl ?_
    cases ha
    rfl
  | @take k queue hfree =>
    rw [hfree] at hloop
    refine h.turn rfl ⟨?_, ?_⟩ (by simp [hfree]) rfl fun _ _ ha => .inl ha
    · rw [taken_append, hloop.1]
      rfl
    · rw [hloop.2]
  | access hrunning =>
    rw [hrunning] at hloop
    refine h.turn rfl ⟨?_, hloop.2⟩ (by simp [hrunning]) rfl fun _ _ ha => .inl ha
    rw [taken_append, hloop.1]
    exact List.append_nil _
  | @finish k r hrunning =>
    have htaken : taken (past ++ [WorkerEvent.finish k]) = taken past := by simp [taken]
    have hpast : finished (past ++ [WorkerEvent.finish k]) = finished past ++ [k] := by
      simp [finished]
    rw [hrunning] at hloop
    obtain ⟨hbefore, hrun⟩ := hloop
    have hresult : ResultIn task start (finished past ++ [k]) k r := by
      refine ⟨finished past, [], rfl, ?_⟩
      rw [perform_performed, ← hrun]
      rfl
    refine ⟨?_, ?_, ?_, ?_⟩
    · rw [htaken, hpast]
      refine ⟨hbefore, ?_, hresult⟩
      rw [performed_concat, perform_performed, ← hrun]
      rfl
    · intro j q hj
      rw [hpast]
      exact (h.replies j q hj).concat k
    · intro j hj
      rw [hpast, List.mem_append, List.mem_singleton] at hj
      rcases hj with hj | rfl
      · left
        simpa [hrunning] using h.replied j hj
      · exact .inr ⟨r, rfl⟩
    · intro j a hj
      rw [hpast]
      rcases h.returned j a hj with hstopped | ⟨q, hq, ha⟩
      · exact .inl hstopped
      · exact .inr ⟨q, hq.concat k, ha⟩
  | @reply k r hreplying =>
    have htaken : taken (past ++ [WorkerEvent.reply k]) = taken past := by simp [taken]
    have hpast : finished (past ++ [WorkerEvent.reply k]) = finished past := by simp [finished]
    rw [hreplying] at hloop
    obtain ⟨hsame, hstate, hresult⟩ := hloop
    refine ⟨?_, ?_, ?_, hpast ▸ h.returned⟩
    · rw [htaken, hpast]
      exact ⟨hsame, hstate⟩
    · intro j q hj
      rw [hpast]
      by_cases hjk : j = k
      · subst hjk
        have hq : r = q := by simpa using hj
        exact hq ▸ hresult
      · exact h.replies j q (by simpa [hjk] using hj)
    · intro j hj
      rw [hpast] at hj
      left
      by_cases hjk : j = k
      · simp [hjk]
      · simpa [hjk, hreplying, Ne.symm hjk] using h.replied j hj
  | stop =>
    refine h.turn rfl ?_ (fun _ _ hr => hr) rfl fun _ _ ha => .inl ha
    rw [taken_append]
    exact (List.append_nil (taken past)).symm ▸ hloop
  | quit hfree =>
    rw [hfree] at hloop
    refine h.turn rfl ⟨?_, hloop.2⟩ (by simp [hfree]) rfl fun _ _ ha => .inl ha
    rw [taken_append, hloop.1]
    exact List.append_nil _

end Serving

/-! ### Stopping -/

/-- The loop ends only for a stop, and a call that comes after one is turned away. -/
structure Stopping (past : List (WorkerEvent ι)) (s : WorkerSite ι σ β) : Prop where
  isStopped_iff : s.isStopped = true ↔ WorkerEvent.stop ∈ past
  stopped_of_ended : s.loop = .ended → s.isStopped = true
  late : ∀ k, Precedes .stop (.enter k) past → k ∉ submitted past ∧
    (s.phase k = .entered ∨ s.phase k = .returned (.error .stopped))

section Stopping

variable {task : ι → WorkerTask σ β} {past : List (WorkerEvent ι)}
  {s t : WorkerSite ι σ β} {e : WorkerEvent ι}

/-- Nothing but an entry makes a call late. -/
lemma Stopping.frame (h : Stopping past s) (hstop : e ≠ .stop) (henter : ∀ k, e ≠ .enter k)
    (hstopped : t.isStopped = s.isStopped)
    (hended : t.loop = .ended → s.loop = .ended ∨ s.isStopped = true)
    (hlate : ∀ k, Precedes .stop (.enter k) past → k ∉ submitted [e] ∧
      (t.phase k = s.phase k ∨ t.phase k = .returned (.error .stopped))) :
    Stopping (past ++ [e]) t := by
  refine ⟨?_, ?_, ?_⟩
  · rw [hstopped, h.isStopped_iff]
    simp [Ne.symm hstop]
  · intro ht
    rw [hstopped]
    rcases hended ht with hs | hs
    · exact h.stopped_of_ended hs
    · exact hs
  · intro k hk
    rcases precedes_concat_iff.mp hk with hbefore | ⟨rfl, -⟩
    · obtain ⟨hout, hphase⟩ := h.late k hbefore
      obtain ⟨hnew, hnext⟩ := hlate k hbefore
      refine ⟨by simp [hout, hnew], ?_⟩
      rcases hnext with hsame | hreturned
      · rwa [hsame]
      · exact .inr hreturned
    · exact absurd rfl (henter k)

lemma Stopping.not_late (h : Stopping past s) {k : ι} (hentered : s.phase k ≠ .entered)
    (hreturned : ∀ a, s.phase k ≠ .returned a) : ¬Precedes .stop (.enter k) past := by
  intro hk
  rcases (h.late k hk).2 with hphase | hphase
  · exact hentered hphase
  · exact hreturned _ hphase

variable [DecidableEq ι]

/-- A call that is not late goes on. -/
lemma Stopping.advance (h : Stopping past s) {k : ι} {p : CallPhase β} {queue : List ι}
    (hstop : e ≠ .stop) (henter : ∀ k, e ≠ .enter k) (hsubmitted : ∀ j ∈ submitted [e], j = k)
    (hk : ¬Precedes .stop (.enter k) past) :
    Stopping (past ++ [e]) { s with queue := queue, phase := Function.update s.phase k p } := by
  refine h.frame hstop henter rfl .inl fun j hj => ?_
  have hjk : j ≠ k := by
    rintro rfl
    exact hk hj
  exact ⟨fun hmem => hjk (hsubmitted j hmem), .inl (by simp [hjk])⟩

lemma Stopping.step (h : Stopping past s) (hqueueing : Queueing past s)
    (hstep : WorkerStep task s e t) : Stopping (past ++ [e]) t := by
  cases hstep with
  | @enter k hphase =>
    refine ⟨by simpa using h.isStopped_iff, h.stopped_of_ended, fun j hj => ?_⟩
    rw [submitted_append]
    by_cases hjk : j = k
    · subst hjk
      have hfresh := hqueueing.not_mem (k := j) (by simp [hphase]) (by simp [hphase])
      exact ⟨by simpa [submitted] using hfresh, .inl (by simp)⟩
    · rcases precedes_concat_iff.mp hj with hbefore | ⟨he, -⟩
      · simpa [hjk, submitted] using h.late j hbefore
      · cases he
        exact absurd rfl hjk
  | pass hphase hruns =>
    refine h.advance (by simp) (by simp) (by simp [submitted]) fun hk => ?_
    simp [h.isStopped_iff.mpr hk.mem.1] at hruns
  | submit hphase | receive hphase =>
    exact h.advance (by simp) (by simp) (by simp [submitted])
      (h.not_late (by simp [hphase]) (by simp [hphase]))
  | @refuse k =>
    refine h.frame (by simp) (by simp) rfl .inl fun j _ => ⟨by simp [submitted], ?_⟩
    by_cases hjk : j = k
    · simp [hjk]
    · simp [hjk]
  | take | access | finish | reply =>
    exact h.frame (by simp) (by simp) rfl (by simp) fun _ _ => ⟨by simp [submitted], .inl rfl⟩
  | stop =>
    refine ⟨by simp, fun _ => rfl, fun j hj => ?_⟩
    rcases precedes_concat_iff.mp hj with hbefore | ⟨he, -⟩
    · simpa [submitted] using h.late j hbefore
    · cases he
  | quit _ hstop =>
    exact h.frame (by simp) (by simp) rfl (fun _ => .inr hstop)
      fun _ _ => ⟨by simp [submitted], .inl rfl⟩

end Stopping

/-! ### Runs -/

structure Coherent (task : ι → WorkerTask σ β) (start : σ) (past : List (WorkerEvent ι))
    (s : WorkerSite ι σ β) : Prop where
  queueing : Queueing past s
  serving : Serving task start past s
  stopping : Stopping past s

section Runs

variable {task : ι → WorkerTask σ β} {start : σ} {events : List (WorkerEvent ι)}
  {s : WorkerSite ι σ β}

lemma coherent_start : Coherent task start [] ({ state := start } : WorkerSite ι σ β) where
  queueing := ⟨rfl, .nil, by simp [submitted], by simp, by simp⟩
  serving := ⟨⟨rfl, rfl⟩, by simp, by simp [finished], by simp⟩
  stopping := ⟨by simp, by simp, by simp [Precedes]⟩

lemma LoopFollows.settled_eq {calls done : List ι}
    (h : LoopFollows task start calls done s.state s.loop) :
    done <+: calls ∧ s.settled = (performed task start calls).state ∧
      ((∀ k rest, s.loop ≠ .running k rest) → done = calls ∧ s.settled = s.state) := by
  unfold WorkerSite.settled
  cases hloop : s.loop with
  | running k rest =>
    rw [hloop] at h
    obtain ⟨rfl, hrun⟩ := h
    refine ⟨List.prefix_append _ _, ?_, fun hout => absurd rfl (hout k rest)⟩
    rw [performed_concat, perform_performed, ← hrun]
  | replying k r =>
    rw [hloop] at h
    obtain ⟨rfl, hstate, -⟩ := h
    exact ⟨List.prefix_rfl, hstate, fun _ => ⟨rfl, rfl⟩⟩
  | _ =>
    rw [hloop] at h
    obtain ⟨rfl, hstate⟩ := h
    exact ⟨List.prefix_rfl, hstate, fun _ => ⟨rfl, rfl⟩⟩

variable [DecidableEq ι]

lemma coherent_of_steps (h : Steps (WorkerStep task) { state := start } events s) :
    Coherent task start events s := by
  refine h.invariant ?_ coherent_start
  intro past s e t hs hstep
  exact ⟨hs.queueing.step hstep, hs.serving.step hstep, hs.stopping.step hs.queueing hstep⟩

/-- The loop can bring to an end what it is doing. -/
lemma exists_free_of_running {k : ι} (rest : WorkerTask σ β) (h : s.loop = .running k rest) :
    ∃ more t, (∀ e ∈ more, WorkerEvent.ByLoop e) ∧ Steps (WorkerStep task) s more t ∧
      t.loop = .free ∧ t.queue = s.queue ∧ t.phase = s.phase := by
  induction rest generalizing s with
  | done r =>
    refine ⟨[.finish k, .reply k], _, ?_, .next (.finish h) (.single (.reply rfl)), rfl, rfl, rfl⟩
    simp [WorkerEvent.ByLoop]
  | access write next ih =>
    obtain ⟨more, t, hmore, hsteps, hfree, hqueue, hphase⟩ := ih s.state
      (s := { s with state := write s.state, loop := .running k (next s.state) }) rfl
    refine ⟨.access k :: more, t, ?_, .next (.access h) hsteps, hfree, hqueue, hphase⟩
    simpa [WorkerEvent.ByLoop] using hmore

lemma exists_free (task : ι → WorkerTask σ β) (h : s.loop ≠ .ended) :
    ∃ more t, (∀ e ∈ more, WorkerEvent.ByLoop e) ∧ Steps (WorkerStep task) s more t ∧
      t.loop = .free ∧ t.queue = s.queue ∧ t.phase = s.phase := by
  cases hloop : s.loop with
  | free => exact ⟨[], s, by simp, .done s, hloop, rfl, rfl⟩
  | running k rest => exact exists_free_of_running rest hloop
  | replying k r =>
    exact ⟨[.reply k], _, by simp [WorkerEvent.ByLoop], .single (.reply hloop), rfl, rfl, rfl⟩
  | ended => exact absurd hloop h

/-- The loop can serve all that waits. -/
lemma exists_drained (task : ι → WorkerTask σ β) (h : s.loop ≠ .ended) :
    ∃ more t, (∀ e ∈ more, WorkerEvent.ByLoop e) ∧ Steps (WorkerStep task) s more t ∧
      t.loop = .free ∧ t.queue = [] ∧ t.phase = s.phase := by
  obtain ⟨queue, hqueue⟩ : ∃ queue, s.queue = queue := ⟨_, rfl⟩
  induction queue generalizing s with
  | nil =>
    obtain ⟨more, t, hmore, hsteps, hfree, hsame, hphase⟩ := exists_free task h
    exact ⟨more, t, hmore, hsteps, hfree, hsame.trans hqueue, hphase⟩
  | cons k queue ih =>
    obtain ⟨first, t, hfirst, hsteps, hfree, hsame, hphase⟩ := exists_free task h
    obtain ⟨more, u, hmore, hsteps', hdone⟩ := ih
      (s := { t with queue := queue, loop := .running k (task k) }) (by simp) rfl
    rw [← hphase]
    refine ⟨first ++ .take k :: more, u, ?_,
      hsteps.append (.next (.take hfree (hsame.trans hqueue)) hsteps'), hdone⟩
    simp only [List.forall_mem_append, List.forall_mem_cons]
    exact ⟨hfirst, trivial, hmore⟩

lemma exists_answer (h : Steps (WorkerStep task) { state := start } events s)
    (hstop : WorkerEvent.stop ∉ events) {k : ι} (hk : s.phase k = .waiting) :
    ∃ more t r, (∀ e ∈ more, WorkerEvent.ByLoop e) ∧
      Steps (WorkerStep task) s (more ++ [.receive k]) t ∧
      ResultIn task start (finished (events ++ more)) k r ∧
      t.phase k = .returned (answerOf r) := by
  have hruns : s.loop ≠ .ended := by
    intro hended
    have hs := (coherent_of_steps h).stopping
    exact hstop (hs.isStopped_iff.mp (hs.stopped_of_ended hended))
  obtain ⟨more, t, hmore, hsteps, hfree, hqueue, hphase⟩ := exists_drained task hruns
  rw [← hphase] at hk
  have ht := coherent_of_steps (h.append hsteps)
  -- With the queue empty and the loop free, whatever was submitted is finished and replied to.
  have hfinished : k ∈ finished (events ++ more) := by
    have hmem := ht.queueing.mem_of_waiting k hk
    have hloop := ht.serving.loop
    rw [ht.queueing.submitted_eq, hqueue, List.append_nil] at hmem
    rw [hfree] at hloop
    rwa [← hloop.1]
  rcases ht.serving.replied k hfinished with ⟨r, hr⟩ | ⟨r, hreplying⟩
  · exact ⟨more, _, r, hmore, hsteps.append (.single (.receive hk hr)), ht.serving.replies k r hr,
      by simp⟩
  · simp [hfree] at hreplying

/-- In every interleaving, no task is lost, doubled or overtaken in the queue. The state is that of
a worker which performs the tasks one after the other as they were taken. A call that is not turned
away has the result of its own task, which ran once. While it is not stopped, the loop can answer
every call that waits, also behind tasks that panic. A call that enters after a stop is turned away,
and its task is never run. -/
theorem worker_serializes (h : Steps (WorkerStep task) { state := start } events s) :
    (submitted events = taken events ++ s.queue ∧ (submitted events).Nodup ∧
      s.queue.length ≤ queueCapacity) ∧
    (finished events <+: taken events ∧
      s.settled = (performed task start (taken events)).state ∧
      ((∀ k rest, s.loop ≠ .running k rest) →
        finished events = taken events ∧ s.settled = s.state)) ∧
    (∀ k a, s.phase k = .returned a → a ≠ .error .stopped →
      (finished events).count k = 1 ∧
        ∃ r, ResultIn task start (finished events) k r ∧ a = answerOf r) ∧
    (WorkerEvent.stop ∉ events → ∀ k, s.phase k = .waiting →
      ∃ more t r, (∀ e ∈ more, WorkerEvent.ByLoop e) ∧
        Steps (WorkerStep task) s (more ++ [.receive k]) t ∧
        ResultIn task start (finished (events ++ more)) k r ∧ t.phase k = .returned (answerOf r)) ∧
    ∀ k, Precedes .stop (.enter k) events → k ∉ submitted events ∧
      (s.phase k = .returned (.error .stopped) ∨
        ∃ t, WorkerStep task s (.refuse k) t ∧ t.phase k = .returned (.error .stopped)) := by
  obtain ⟨hqueueing, hserving, hstopping⟩ := coherent_of_steps h
  have hsettled := hserving.loop.settled_eq
  refine ⟨⟨hqueueing.submitted_eq, hqueueing.nodup, hqueueing.length_le⟩, hsettled, ?_, ?_, ?_⟩
  · intro k a hk ha
    rcases hserving.returned k a hk with hstopped | ⟨r, hr, rfl⟩
    · exact absurd hstopped ha
    · refine ⟨?_, r, hr, rfl⟩
      have hnodup := hqueueing.nodup
      rw [hqueueing.submitted_eq] at hnodup
      obtain ⟨before, later, hfinished, -⟩ := hr
      apply List.count_eq_one_of_mem (hnodup.of_append_left.sublist hsettled.1.sublist)
      simp [hfinished]
  · intro hstop k hk
    exact exists_answer h hstop hk
  · intro k hk
    obtain ⟨hout, hphase | hphase⟩ := hstopping.late k hk
    · have hstopped := hstopping.isStopped_iff.mpr hk.mem.1
      exact ⟨hout, .inr ⟨_, .refuse (.inl hphase) hstopped, by simp⟩⟩
    · exact ⟨hout, .inl hphase⟩

end Runs

/-- Tasks that put the number of their call on a list and return what the list held before, but for
one that fails. -/
def listing (k : Nat) : WorkerTask (List Nat) (List Nat) :=
  .access (fun seen => seen ++ [k]) fun seen => .done (if k = 1 then .error "full" else .ok seen)

/-- Two calls whose tasks overlap. The first to be taken panics, the worker is stopped while the
second is running, and a third call comes too late. -/
def listingEvents : List (WorkerEvent Nat) :=
  [.enter 0, .enter 1, .pass 1, .pass 0, .submit 1, .submit 0, .take 1, .access 1, .finish 1,
    .reply 1, .take 0, .access 0, .receive 1, .stop, .enter 2, .finish 0, .reply 0, .receive 0,
    .quit]

theorem listing_serialized :
    ∃ s : WorkerSite Nat (List Nat) (List Nat),
      Steps (WorkerStep listing) { state := [] } listingEvents s ∧
      s.phase 0 = .returned (.ok [1]) ∧ s.phase 1 = .returned (.error (.panicked "full")) ∧
      s.state = (performed listing [] [1, 0]).state ∧
      (∃ r, ResultIn listing [] [1, 0] 0 r ∧ .ok [1] = answerOf r) ∧
      (∃ r, ResultIn listing [] [1, 0] 1 r ∧ .error (.panicked "full") = answerOf r) ∧
      ∃ t, WorkerStep listing s (.refuse 2) t ∧ t.phase 2 = .returned (.error .stopped) := by
  obtain ⟨s, hrun, hzero, hone, htwo, hended⟩ : ∃ s : WorkerSite Nat (List Nat) (List Nat),
      Steps (WorkerStep listing) { state := [] } listingEvents s ∧
      s.phase 0 = .returned (.ok [1]) ∧ s.phase 1 = .returned (.error (.panicked "full")) ∧
      s.phase 2 = .entered ∧ s.loop = .ended := by
    refine ⟨_, .next (.enter rfl) <| .next (.enter rfl) <| .next (.pass rfl rfl) <|
      .next (.pass rfl rfl) <| .next (.submit rfl (by decide)) <|
      .next (.submit rfl (by decide)) <| .next (.take rfl rfl) <| .next (.access rfl) <|
      .next (.finish rfl) <| .next (.reply rfl) <| .next (.take rfl rfl) <| .next (.access rfl) <|
      .next (.receive rfl rfl) <| .next .stop <| .next (.enter rfl) <| .next (.finish rfl) <|
      .next (.reply rfl) <| .next (.receive rfl rfl) <| .next (.quit rfl rfl) (.done _),
      rfl, rfl, rfl, rfl⟩
  obtain ⟨-, ⟨-, hsettled, hbetween⟩, hown, -, hlate⟩ := worker_serializes hrun
  have hstate := (hbetween (by simp [hended])).2
  refine ⟨s, hrun, hzero, hone, hstate ▸ hsettled, (hown 0 _ hzero (by simp)).2,
    (hown 1 _ hone (by simp)).2, ?_⟩
  rcases (hlate 2 ⟨listingEvents.take 14, listingEvents.drop 15, rfl, by decide⟩).2 with hphase | ht
  · simp [htwo] at hphase
  · exact ht

end StackCode.Proofs
