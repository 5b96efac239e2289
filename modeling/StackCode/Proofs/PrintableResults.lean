import StackCode.Proofs.Containment
import StackCode.Proofs.WatchedRuns

/-!
# Results that can be printed

A program may store an array or object in itself, and nothing keeps it from returning the result,
which then cannot be printed. A result can be printed exactly if nothing that it leads to contains
itself. In a run in which no store closes a loop, nothing ever contains itself, so every result can
be printed.
-/

namespace StackCode.Proofs

/-! ### Steps -/

section Steps

variable {image : Image} {maxFrames : Int} {s s' : State}

lemma stepOf_heap {callers : List Frame} {depth steps : Nat} {polls : Option Nat} {name : Text}
    {offset : Nat} {action : Frame.Action}
    (h : stepOf image maxFrames callers depth steps polls name offset action = .running s') :
    heapAfter? action = some s'.heap := by
  cases action with
  | next f heap =>
    cases h
    rfl
  | call function arguments f heap =>
    obtain ⟨r, -, -, rfl⟩ := enter_eq_running h
    rfl
  | leave d heap =>
    obtain ⟨f, rest, -, rfl⟩ := leave_eq_running h
    rfl
  | fault cause heap => cases h
  | crash heap => cases h

/-- A step alters the parts of arrays and objects as its instruction does. -/
lemma step_alters (hstep : s.step image maxFrames = .running s') :
    current? s = none ∧ s'.heap = s.heap ∨
      ∃ i, current? s = some i ∧ Alters s.frame i s.heap s'.heap := by
  rw [step_eq] at hstep
  split_ifs at hstep with hend hneg
  · obtain ⟨f, rest, -, rfl⟩ := leave_eq_running hstep
    exact .inl ⟨if_pos (.inr hend), rfl⟩
  · split at hstep
    · cases hstep
    · have hcurrent : current? s =
          (State.fetch s.frame.routine.bytes s.frame.ip.toNat).toOption :=
        if_neg (not_or.mpr ⟨hneg, hend⟩)
      have hafter := stepOf_heap hstep
      unfold attempt at hafter
      cases hfetch : State.fetch s.frame.routine.bytes s.frame.ip.toNat with
      | error cause =>
        rw [hfetch] at hafter
        cases hafter
      | ok i =>
        rw [hfetch] at hafter hcurrent
        exact .inr ⟨i, hcurrent, execute_alters hafter⟩

/-- The next step stores a datum in an array or object to which that datum leads. -/
def ClosesLoop (image : Image) (maxFrames : Int) (s : State) : Prop :=
  ∃ i d target s', current? s = some i ∧ StoresIn s.frame i d target ∧
    s.step image maxFrames = .running s' ∧ LeadsTo s.heap d target

/-- Only a store that closes a loop makes something contain itself. -/
lemma acyclic_step_iff (hstep : s.step image maxFrames = .running s') (hh : Acyclic s.heap) :
    Acyclic s'.heap ↔ ¬ClosesLoop image maxFrames s := by
  rcases step_alters hstep with ⟨hnone, hsame⟩ | ⟨i, hi, halters⟩
  · rw [hsame]
    refine iff_of_true hh ?_
    rintro ⟨i, d, target, t, hi, -⟩
    rw [hnone] at hi
    cases hi
  · constructor
    · rintro hacyclic ⟨j, d, target, t, hj, hstores, -, hlead⟩
      cases hi.symm.trans hj
      exact ((halters.stores d target hstores).acyclic_iff hh).mp hacyclic hlead
    · intro hopen
      by_cases hstores : ∃ d target, StoresIn s.frame i d target
      · obtain ⟨d, target, hstores⟩ := hstores
        refine ((halters.stores d target hstores).acyclic_iff hh).mpr fun hlead => ?_
        exact hopen ⟨i, d, target, s', hi, hstores, hstep, hlead⟩
      · have hparts := halters.others fun d target h => hstores ⟨d, target, h⟩
        exact (acyclic_congr hparts).mpr hh

lemma leave_eq_done {d : Datum} {callers : List Frame} {depth steps : Nat} {heap : Heap}
    {polls : Option Nat} {f : Final}
    (h : State.leave d callers depth heap steps polls = .done f) :
    f = ⟨.value d, heap, steps⟩ := by
  cases callers with
  | nil =>
    cases h
    rfl
  | cons g callers => cases h

lemma enter_ne_value {function depth steps : Nat} {arguments : List Datum} {callers : List Frame}
    {heap : Heap} {polls : Option Nat} {f : Final}
    (h : State.enter image maxFrames function arguments callers depth heap steps polls = .done f)
    (d : Datum) : f.outcome ≠ .value d := by
  unfold State.enter at h
  split at h
  · cases h
    nofun
  · split_ifs at h
    · cases h
      nofun
    · cases h
      nofun

lemma start_ne_value {m : Machine} {settings : Machine.Settings} {entry : Text} {heap : Heap}
    {arguments : List Datum} {f : Final} (h : m.start settings entry heap arguments = .done f)
    (d : Datum) : f.outcome ≠ .value d := by
  unfold Machine.start at h
  split at h
  · cases h
    nofun
  · exact enter_ne_value h d

end Steps

/-! ### Runs -/

section Runs

variable {p : Program} (hp : SoundProgram p) {maxFrames : Int}

include hp

/-- A result is from the heap of the last state. -/
lemma step_value {s : State} (hsafe : SafeNext p (.running s)) {d : Datum} {heap : Heap} {n : Nat}
    (hstep : s.step p.image maxFrames = .done ⟨.value d, heap, n⟩) :
    heap = s.heap ∧ Closed s.heap ∧ Within s.heap d := by
  have hh := hsafe.closed
  have hf := hsafe.frame
  by_cases hmisses : StoresNowhere s
  · obtain ⟨f, hdone, hends⟩ := step_storesNowhere hp maxFrames hsafe hmisses
    cases hstep.symm.trans hdone
    rcases hends with hcrash | hcancelled
    · cases hcrash
    · cases hcancelled
  rcases reads_of_safe hp hf with hend | ⟨i, hip, hread, haccess⟩
  · rw [step_at_end p.image maxFrames (Int.le_of_eq hend.symm)] at hstep
    cases leave_eq_done hstep
    exact ⟨rfl, hh, trivial⟩
  rw [step_of_decodeAt p.image maxFrames hip hread] at hstep
  split at hstep
  · cases hstep
  · have haction : SafeAction p s.heap (s.frame.execute p.image s.heap i) :=
      execute_safe hp hh hf haccess.walked fun hmiss =>
        hmisses ⟨i, upcoming_of_decodeAt hip hread, hmiss⟩
    generalize s.frame.execute p.image s.heap i = action at haction hstep
    cases haction with
    | next => cases hstep
    | call => exact absurd rfl (enter_ne_value hstep d)
    | leave hd =>
      cases leave_eq_done hstep
      exact ⟨rfl, hh, hd⟩
    | fault => cases hstep

/-- A run that returns a value was in a last state, whose heap it leaves. -/
lemma exists_last {s : State} (hsafe : SafeNext p (.running s)) {n : Nat} {d : Datum} {heap : Heap}
    {k : Nat}
    (h : outcome? ((advance p.image maxFrames)^[n] (.running s)) = some ⟨.value d, heap, k⟩) :
    ∃ t, (process p.image maxFrames).Reaches (.running s) (.running t) ∧ t.heap = heap ∧
      Closed heap ∧ Within heap d := by
  induction n generalizing s with
  | zero => cases h
  | succ n ih =>
    rw [Function.iterate_succ_apply, advance] at h
    cases hstep : s.step p.image maxFrames with
    | done f =>
      rw [hstep, Function.iterate_fixed rfl] at h
      cases h
      obtain ⟨rfl, hh, hd⟩ := step_value hp hsafe hstep
      exact ⟨s, .refl _ _, rfl, hh, hd⟩
    | running s' =>
      rw [hstep] at h
      obtain ⟨t, hreach, hlast⟩ := ih (safe_of_reaches hp hsafe ⟨1, hstep⟩) h
      refine ⟨t, .head ?_, hlast⟩
      rw [← hstep] at hreach
      exact hreach

end Runs

/-- As long as no store closes a loop, nothing contains itself. -/
lemma acyclic_of_reaches {image : Image} {maxFrames : Int} {c : State.Next}
    (hstart : ∀ s, c = .running s → Acyclic s.heap)
    (hopen : ∀ s, (process image maxFrames).Reaches c (.running s) → ¬ClosesLoop image maxFrames s)
    {s : State} (h : (process image maxFrames).Reaches c (.running s)) : Acyclic s.heap :=
  h.state_invariant hstart fun s _ hs hacyclic hstep =>
    (acyclic_step_iff hstep hacyclic).mpr (hopen s hs)

lemma acyclic_run_iff {image : Image} {maxFrames : Int} {c : State.Next}
    (hstart : ∀ s, c = .running s → Acyclic s.heap) :
    (∀ s, (process image maxFrames).Reaches c (.running s) → Acyclic s.heap) ↔
      ∀ s, (process image maxFrames).Reaches c (.running s) → ¬ClosesLoop image maxFrames s := by
  -- a store that closes a loop leads to a reachable state too, where the loop stands
  refine ⟨fun hacyclic s hs hcloses => ?_, fun hopen s hs => acyclic_of_reaches hstart hopen hs⟩
  have ⟨_, _, _, s', _, _, hstep, _⟩ := hcloses
  have hs' : (process image maxFrames).Reaches c (.running s') := hs.trans ⟨1, hstep⟩
  exact (acyclic_step_iff hstep (hacyclic s hs)).mp (hacyclic s' hs') hcloses

lemma acyclic_empty : Acyclic {} := by
  intro x hself
  obtain ⟨y, hpart, -⟩ := Relation.TransGen.head'_iff.mp hself
  cases x <;> simp [HasPart, parts] at hpart

/-- A result of a verified program can be printed exactly if nothing that it leads to contains
itself, and its text is then what printing it gives at any depth that is enough. Nothing contains
itself during the run exactly if no store of the run closes a loop, and then every result can be
printed. -/
theorem result_printable_iff {p : Program} (hverify : p.verify = .ok ())
    (settings : Machine.Settings) (steps : Nat) (entry : Text) (arguments : List Value) :
    let machine : Machine := ⟨p.image, steps⟩
    let start := machine.start settings entry {} (arguments.map Datum.scalar)
    let run := process p.image settings.maxFrames
    ((∀ s, run.Reaches start (.running s) → Acyclic s.heap) ↔
        ∀ s, run.Reaches start (.running s) → ¬ClosesLoop p.image settings.maxFrames s) ∧
      ∀ limit d heap n, machine.run settings limit entry {} (arguments.map Datum.scalar) =
          some ⟨.value d, heap, n⟩ →
        ((heap.text? d).isSome ↔ AcyclicBelow heap d) ∧
          (∀ t, heap.text? d = some t ↔ ∃ depth, heap.textWithin depth d = some t) ∧
          ((∀ s, run.Reaches start (.running s) → ¬ClosesLoop p.image settings.maxFrames s) →
            (heap.text? d).isSome) := by
  intro machine start run
  have hp := (verify_eq_ok_iff p).mp hverify
  have hempty : ∀ s, start = .running s → Acyclic s.heap := by
    intro s hs
    obtain ⟨-, hheap, -, -⟩ := start_running hs
    rw [hheap]
    exact acyclic_empty
  refine ⟨acyclic_run_iff hempty, fun limit d heap n hrun => ?_⟩
  have hrun' : outcome? ((advance p.image settings.maxFrames)^[limit] start) =
      some ⟨.value d, heap, n⟩ := (finish_eq ..).symm.trans hrun
  obtain ⟨last, hreach, hlast, hclosed, hwithin⟩ : ∃ t, run.Reaches start (.running t) ∧
      t.heap = heap ∧ Closed heap ∧ Within heap d := by
    cases hstart : start with
    | done f =>
      rw [hstart, Function.iterate_fixed rfl] at hrun'
      cases hrun'
      exact absurd rfl (start_ne_value hstart d)
    | running s =>
      have hclosed : Closed {} := by decide
      have hscalars : ∀ d ∈ arguments.map Datum.scalar, Within {} d := by simp [Within]
      have hsafe : SafeNext p start := start_safe hp settings steps entry hclosed hscalars
      rw [hstart] at hrun' hsafe
      exact exists_last hp hsafe hrun'
  have hprinted := isSome_text_iff hclosed hwithin
  refine ⟨hprinted, text_eq_some_iff hclosed hwithin, fun hopen => hprinted.mpr fun x _ => ?_⟩
  rw [← hlast]
  exact acyclic_of_reaches hempty hopen hreach x

/-- Makes an object whose two fields hold the same array. -/
def sharing : Program where
  functions := [
    { name := "main"
      code := some #[176, 1, 33, 0, 32, 0, 16, 0, 3, 16, 0, 3, 178, 184, 0, 0, 33, 1, 32, 1, 32, 0,
        186, 0, 1, 32, 1, 32, 0, 186, 0, 2, 32, 1, 240]
      locals := 2 }]
  constants := [.str "Box", .str "left", .str "right", .int 0]

theorem sharing_printable :
    sharing.verify = .ok () ∧
      ∃ heap, Machine.run ⟨sharing.image, 0⟩ {} 20 "main" {} [] =
          some ⟨.value (.object 0), heap, 16⟩ ∧
        heap.text? (.object 0) = some "Box\x7bleft: [int 0], right: [int 0]\x7d" ∧
        AcyclicBelow heap (.object 0) := by
  have hverify : sharing.verify = .ok () := by cbv
  have hrun : Machine.run ⟨sharing.image, 0⟩ {} 20 "main" {} [] = some ⟨.value (.object 0),
      ⟨#[#[.scalar (.int 0)]], #[⟨"Box", some [("left", .array 0), ("right", .array 0)]⟩]⟩,
      16⟩ := by cbv
  have htext : Heap.text? ⟨#[#[.scalar (.int 0)]],
      #[⟨"Box", some [("left", .array 0), ("right", .array 0)]⟩]⟩ (.object 0) =
        some "Box\x7bleft: [int 0], right: [int 0]\x7d" := by cbv
  obtain ⟨hprinted, -⟩ := (result_printable_iff hverify {} 0 "main" []).2 20 _ _ _ hrun
  exact ⟨hverify, _, hrun, htext, hprinted.mp (by rw [htext]; rfl)⟩

/-- Makes an array that is its own element, and tells that it is. -/
def selfStoring : Program where
  functions := [
    { name := "main"
      code := some #[144, 1, 0, 33, 0, 32, 0, 32, 0, 16, 0, 0, 177, 96, 240]
      locals := 1 },
    { name := "make"
      code := some #[176, 1, 33, 0, 32, 0, 16, 0, 0, 32, 0, 178, 32, 0, 240]
      locals := 1 }]
  constants := [.int 0]

/-- A verified program can return a result that no depth is enough to print. -/
theorem self_storing_unprintable :
    selfStoring.verify = .ok () ∧
      (∃ heap, Machine.run ⟨selfStoring.image, 0⟩ {} 20 "make" {} [] =
          some ⟨.value (.array 0), heap, 8⟩ ∧
        Contains heap (.array 0) (.array 0) ∧ heap.text? (.array 0) = none ∧
        ∀ depth, heap.textWithin depth (.array 0) = none) ∧
      ∃ heap, Machine.run ⟨selfStoring.image, 0⟩ {} 20 "main" {} [] =
        some ⟨.value (.scalar (.bool true)), heap, 16⟩ := by
  have hverify : selfStoring.verify = .ok () := by cbv
  have hmake : Machine.run ⟨selfStoring.image, 0⟩ {} 20 "make" {} [] =
      some ⟨.value (.array 0), ⟨#[#[.array 0]], #[]⟩, 8⟩ := by cbv
  have hmain : Machine.run ⟨selfStoring.image, 0⟩ {} 20 "main" {} [] =
      some ⟨.value (.scalar (.bool true)), ⟨#[#[.array 0]], #[]⟩, 16⟩ := by cbv
  have hself : Contains ⟨#[#[.array 0]], #[]⟩ (.array 0) (.array 0) :=
    .single (by simp [HasPart, parts])
  have hnone (depth : Nat) : Heap.textWithin ⟨#[#[.array 0]], #[]⟩ depth (.array 0) = none := by
    rw [← Option.not_isSome_iff_eq_none]
    exact fun hprinted => not_contains_self hprinted hself
  exact ⟨hverify, ⟨_, hmake, hself, hnone _, hnone⟩, _, hmain⟩

end StackCode.Proofs
