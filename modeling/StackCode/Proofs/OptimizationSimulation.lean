import StackCode.Compile
import StackCode.Proofs.EmissionSimulation
import StackCode.Proofs.Folding

/-!
# Optimization preserves behaviour

The bodies of an optimized module run as those of the module do. A constant of an optimized body is
matched by the segment that computes it, every other instruction by itself. What stands after the
first return is only reached by a jump, and no jump of an emitted body leads there.
-/

namespace StackCode.Proofs

open Source

/-! ### Positions -/

/-- What is left of a body at one position is folded to what is left of another body, up to a part
behind a return. -/
def Corresponds (body body' : List Instr) (k k' : Nat) : Prop :=
  ∃ front front' rest rest' cut, body = front ++ (rest ++ cut) ∧ body' = front' ++ rest' ∧
    k = front.length ∧ k' = front'.length ∧ Folds rest rest' ∧
    (cut = [] ∨ ∃ before, rest' = before ++ [.ret])

/-- Two corresponding positions are both at the end, or at the same instruction, or at a segment and
the constant it computes. -/
inductive Reading (body body' : List Instr) (k k' : Nat) : Prop
  | ended (h : body[k]? = none) (h' : body'[k']? = none)
  | same {i} (h : body[k]? = some i) (h' : body'[k']? = some i)
    (hnext : i ≠ .ret → Corresponds body body' (k + 1) (k' + 1))
  | computed {front segment back v} (h : body = front ++ segment ++ back) (hk : k = front.length)
    (h' : body'[k']? = some (.const v)) (hsegment : Computes segment v)
    (hnext : Corresponds body body' (k + segment.length) (k' + 1))

lemma Corresponds.reading {body body' : List Instr} {k k' : Nat}
    (h : Corresponds body body' k k') : Reading body body' k k' := by
  obtain ⟨front, front', rest, rest', cut, rfl, rfl, rfl, rfl, hfolds, hcut⟩ := h
  -- Behind an instruction that is no return, the return is still to come.
  have hlater {i : Instr} {ys : List Instr} (hi : i ≠ .ret)
      (hcut : cut = [] ∨ ∃ before, i :: ys = before ++ [.ret]) :
      cut = [] ∨ ∃ before, ys = before ++ [.ret] := by
    rcases hcut with rfl | ⟨before, hbefore⟩
    · exact .inl rfl
    cases before with
    | nil =>
      cases hbefore
      exact absurd rfl hi
    | cons j before =>
      rw [List.cons_append, List.cons.injEq] at hbefore
      exact .inr ⟨before, hbefore.2⟩
  cases hfolds with
  | nil =>
    rcases hcut with rfl | ⟨before, hbefore⟩
    · exact .ended (by simp) (by simp)
    · simp at hbefore
  | @keep i xs ys hfolds =>
    refine .same (show _ = some i by simp) (by simp) fun hi => ?_
    exact ⟨front ++ [i], front' ++ [i], xs, ys, cut, by simp, by simp, by simp, by simp, hfolds,
      hlater hi hcut⟩
  | @fold segment v xs ys hsegment hfolds =>
    refine .computed (show _ = front ++ segment ++ (xs ++ cut) by simp) rfl (by simp) hsegment ?_
    exact ⟨front ++ segment, front' ++ [.const v], xs, ys, cut, by simp, by simp, by simp, by simp,
      hfolds, hlater (by simp) hcut⟩

lemma corresponds_start (f : Function) : Corresponds f.body f.optimize.1.body 0 0 := by
  obtain ⟨kept, cut, hbody, hfolds, hcut⟩ := folds_optimize f
  exact ⟨[], [], kept, _, cut, hbody, rfl, rfl, rfl, hfolds, hcut⟩

lemma idxOf?_append_cons {name : Text} {xs : List Instr} (h : .label name ∉ xs) (ys : List Instr) :
    (xs ++ .label name :: ys).idxOf? (.label name) = some xs.length := by
  have hxs : xs.findIdx? (· == .label name) = none := List.idxOf?_eq_none_iff.mpr h
  rw [List.idxOf?, List.findIdx?_append, hxs]
  simp [List.findIdx?_cons]

/-- The label that a jump of the optimized body leads to stands in the body. -/
lemma corresponds_label {f : Function} {name : Text} {k' : Nat}
    (hk' : f.optimize.1.body.idxOf? (.label name) = some k') :
    ∃ k, f.body.idxOf? (.label name) = some k ∧ Corresponds f.body f.optimize.1.body k k' := by
  obtain ⟨kept, cut, hbody, hfolds, hcut⟩ := folds_optimize f
  generalize f.optimize.1.body = body' at *
  obtain ⟨hlt, hget, hbefore⟩ := List.idxOf?_eq_some_iff.mp hk'
  have hdrop : .label name :: body'.drop (k' + 1) = body'.drop k' := by
    rw [← List.getElem_cons_drop hlt, hget]
  have hsplit := (List.take_append_drop k' body').symm
  rw [hsplit] at hfolds
  obtain ⟨front, rest, rfl, hfront, hrest⟩ := hfolds.split
  have hfresh : .label name ∉ front := by
    rw [hfront.label_mem]
    intro hmem
    obtain ⟨j, hj, hlabel⟩ := List.mem_take_iff_getElem.mp hmem
    exact hbefore j (by omega) hlabel
  refine ⟨front.length, ?_, front, body'.take k', rest, body'.drop k', cut, ?_, hsplit, rfl, ?_,
    hrest, ?_⟩
  · rw [← hdrop] at hrest
    cases hrest with
    | keep _ hxs =>
      rw [hbody, List.append_assoc, List.cons_append]
      exact idxOf?_append_cons hfresh _
  · rw [hbody, List.append_assoc]
  · rw [List.length_take]
    omega
  · rcases hcut with rfl | ⟨before, hbefore'⟩
    · exact .inl rfl
    · rw [hbefore', List.length_append, List.length_singleton] at hlt
      refine .inr ⟨before.drop k', ?_⟩
      rw [hbefore', List.drop_append_of_le_length (by omega)]

/-! ### Running a segment -/

lemma step_next (m : Module) (maxFrames : Int) {f : Function} {k : Nat} {front back : List Instr}
    {i : Instr} {vars vars' : Bindings} {stack stack' : List Datum} {h h' : Heap}
    (hbody : f.body = front ++ i :: back) (hk : front.length = k)
    (heffect : perform vars stack h i = .next vars' stack' h')
    (callers : List (Activation × Option Text)) (depth : Nat) :
    Source.advance m maxFrames (.running ⟨⟨f, k, vars, stack⟩, callers, depth, h⟩) =
      .running ⟨⟨f, k + 1, vars', stack'⟩, callers, depth, h'⟩ := by
  have hi : f.body[k]? = some i := by simp [hbody, ← hk]
  simp only [Source.advance, Source.step, hi, heffect, Source.stepOf]

lemma perform_const (v : Value) (vars : Bindings) (stack : List Datum) (h : Heap) :
    perform vars stack h (.const v) = .next vars (.scalar v :: stack) h := by
  rw [perform_of_operands (by simp [Instr.stackEffect]), Source.execute]

lemma perform_binary {op : BinOp} {a b r : Value} (hr : Value.combine? op a b = some r)
    (vars : Bindings) (stack : List Datum) (h : Heap) :
    perform vars (.scalar b :: .scalar a :: stack) h (.binary op) =
      .next vars (.scalar r :: stack) h := by
  obtain ⟨f, hf, hresult⟩ := arith_of_combine hr
  rw [perform_of_operands (by simp only [Instr.stackEffect, List.length_cons]; omega)]
  simp [Source.execute, hf, hresult, push]

lemma perform_unary {op : UnOp} {a r : Value} (hr : Value.transform? op a = some r)
    (vars : Bindings) (stack : List Datum) (h : Heap) :
    perform vars (.scalar a :: stack) h (.unary op) = .next vars (.scalar r :: stack) h := by
  obtain ⟨f, hf, hresult⟩ := unary_of_transform hr
  rw [perform_of_operands (by simp only [Instr.stackEffect, List.length_cons]; omega)]
  simp [Source.execute, hf, hresult, push]

lemma Computes.runs {segment : List Instr} {v : Value} (h : Computes segment v) (m : Module)
    (maxFrames : Int) {f : Function} {k : Nat} {front back : List Instr}
    (hbody : f.body = front ++ segment ++ back) (hk : front.length = k) (vars : Bindings)
    (stack : List Datum) (callers : List (Activation × Option Text)) (depth : Nat) (heap : Heap) :
    (Source.advance m maxFrames)^[segment.length]
        (.running ⟨⟨f, k, vars, stack⟩, callers, depth, heap⟩) =
      .running ⟨⟨f, k + segment.length, vars, .scalar v :: stack⟩, callers, depth, heap⟩ := by
  induction h generalizing front back k stack with
  | const v =>
    rw [List.append_assoc] at hbody
    exact step_next m maxFrames hbody hk (perform_const v vars stack heap) callers depth
  | @binary xs ys a b op r _ _ hr ihx ihy =>
    have hx := ihx (show f.body = front ++ xs ++ (ys ++ [.binary op] ++ back) by simp [hbody]) hk
      stack
    have hy := ihy (show f.body = (front ++ xs) ++ ys ++ ([.binary op] ++ back) by simp [hbody])
      (show _ = k + xs.length by simp [hk]) (.scalar a :: stack)
    have hop := step_next m maxFrames
      (show f.body = (front ++ xs ++ ys) ++ .binary op :: back by simp [hbody])
      (show _ = k + xs.length + ys.length by simp only [List.length_append, hk])
      (perform_binary hr vars stack heap) callers depth
    have hlength : (xs ++ ys ++ [Instr.binary op]).length = ys.length + xs.length + 1 := by
      simp only [List.length_append, List.length_singleton]
      omega
    rw [hlength, Function.iterate_succ_apply', Function.iterate_add_apply, hx, hy, hop]
    congr 3
    omega
  | @unary xs a op r _ hr ihx =>
    have hx := ihx (show f.body = front ++ xs ++ ([.unary op] ++ back) by simp [hbody]) hk stack
    have hop := step_next m maxFrames
      (show f.body = (front ++ xs) ++ .unary op :: back by simp [hbody])
      (show _ = k + xs.length by rw [List.length_append, hk])
      (perform_unary hr vars stack heap) callers depth
    rw [List.length_append, List.length_singleton, Function.iterate_succ_apply', hx, hop]
    rfl

/-! ### Jumps -/

/-- The labels that an instruction may jump to. -/
def targets : Instr → List Text
  | .jump label | .jumpIf label => [label]
  | .assign _ inner => targets inner
  | _ => []

lemma storing_eq_jump {e : Effect} {name label : Text} {stack : List Datum} {h : Heap}
    (he : e.storing name = .jump label stack h) : e = .jump label stack h := by
  unfold Effect.storing at he
  split at he
  · unfold store at he
    split_ifs at he
  · cases he
  · cases he
  · exact he

lemma push_ne_jump {vars : Bindings} {stack stack' : List Datum} {h h' : Heap} {label : Text}
    (result : Except Fault.Cause Datum) : push vars stack h result ≠ .jump label stack' h' := by
  cases result <;> simp [push]

lemma mem_targets_of_execute {vars : Bindings} {stack stack' : List Datum} {h h' : Heap} {i : Instr}
    {label : Text} (he : Source.execute vars stack h i = .jump label stack' h') :
    label ∈ targets i := by
  induction i with
  | assign name inner ih =>
    rw [Source.execute] at he
    exact ih (storing_eq_jump he)
  | jump l =>
    cases he
    simp [targets]
  | jumpIf l =>
    simp only [Source.execute] at he
    split at he
    · split_ifs at he
      cases he
      simp [targets]
    · cases he
    · cases he
  | store name =>
    simp only [Source.execute, store] at he
    split at he
    · split_ifs at he
    · cases he
  | binary op =>
    simp only [Source.execute] at he
    split at he
    · exact absurd he (push_ne_jump _)
    · cases he
  | unary op =>
    simp only [Source.execute] at he
    split at he
    · exact absurd he (push_ne_jump _)
    · cases he
  | load | ret | arrayLoad | arrayStore | getProp | setProp =>
    simp only [Source.execute] at he
    repeat' split at he
    all_goals cases he
  | missing | const | declare | call | label | newArray | newObject => cases he

lemma mem_targets {vars : Bindings} {stack stack' : List Datum} {h h' : Heap} {i : Instr}
    {label : Text} (he : perform vars stack h i = .jump label stack' h') : label ∈ targets i := by
  unfold perform at he
  split_ifs at he
  exact mem_targets_of_execute he

lemma EmittedRoutine.denotes_single {functions : List Text} {constants : List Value} {f : Function}
    {r : Routine} (h : EmittedRoutine functions constants f r) {k : Nat} {i : Instr}
    {q : Emit.Piece} (hi : f.body[k]? = some i) (hpieces : Emit.pieces i = [q])
    (hlabel : ¬IsLabel q) :
    ∃ x, Denotes (scopeOf functions f) constants (fun _ => LeadsToLabel (bodyPieces f.body))
      (offsetAt f.body k + totalSize []) q x := by
  have hat := at_offsetAt hi (show Emit.pieces i = [] ++ q :: [] from hpieces)
  obtain ⟨x, -, hd⟩ := h.lowered.reads hat hlabel
  exact ⟨x, hd⟩

/-- Every jump of the function leads to a label of its body. -/
def JumpsLand (f : Function) : Prop :=
  ∀ (k : Nat) (i : Instr) (label : Text), f.body[k]? = some i → label ∈ targets i →
    ∃ k', f.body.idxOf? (.label label) = some k'

/-- Emission refuses a body with a jump to a label that it lacks. -/
lemma EmittedRoutine.jumpsLand {functions : List Text} {constants : List Value} {f : Function}
    {r : Routine} (h : EmittedRoutine functions constants f r) : JumpsLand f := by
  intro k i label hi hlabel
  have hleads {t : Int} (ht : LeadsToLabel (bodyPieces f.body) label t) :
      ∃ k', f.body.idxOf? (.label label) = some k' := by
    obtain ⟨k', hk', -⟩ := position_of_leadsToLabel h.lowered ht
    exact ⟨k', hk'⟩
  cases i with
  | jump l =>
    rw [targets, List.mem_singleton] at hlabel
    subst hlabel
    obtain ⟨x, t, ht, -⟩ := h.denotes_single hi rfl id
    exact hleads ht
  | jumpIf l =>
    rw [targets, List.mem_singleton] at hlabel
    subst hlabel
    obtain ⟨x, t, ht, -⟩ := h.denotes_single hi rfl id
    exact hleads ht
  | assign name inner =>
    by_cases hmissing : inner = .missing
    · rw [hmissing] at hlabel
      cases hlabel
    by_cases hpush : inner.stackEffect.2 = 1
    · cases inner <;> simp [targets, Instr.stackEffect] at hlabel hpush
    · obtain ⟨x, hd⟩ := h.denotes_single hi (by rw [Emit.pieces, if_neg hmissing, if_pos hpush]) id
      cases hd
  | _ => cases hlabel

/-! ### Mirrored runs -/

/-- An activation of an optimized function, and the activation of the function that it mirrors. -/
structure Mirrors (m : Module) (a' a : Activation) : Prop where
  function : some a.function ∈ m.functions
  optimized : a'.function = a.function.optimize.1
  position : Corresponds a.function.body a'.function.body a.position a'.position
  vars : a'.vars = a.vars
  stack : a'.stack = a.stack

/-- The same of two that wait for a result. -/
inductive MirrorsWaiting (m : Module) : Activation × Option Text → Activation × Option Text → Prop
  | intro {a' a target} (h : Mirrors m a' a) : MirrorsWaiting m (a', target) (a, target)

/-- A run of an optimized module, and the run of the module that it mirrors. -/
inductive Mirror (m : Module) : Source.Next → Source.Next → Prop
  | running {s' s : Source.State} (hrun : Mirrors m s'.running s.running)
    (hcallers : List.Forall₂ (MirrorsWaiting m) s'.callers s.callers)
    (hdepth : s'.depth = s.depth) (hheap : s'.heap = s.heap) : Mirror m (.running s') (.running s)
  | done (o : Source.Final) : Mirror m (.done o) (.done o)

lemma lookup_optimize (m : Module) (name : Text) :
    m.optimize.1.lookup? name = (m.lookup? name).map fun f => f.optimize.1 := by
  have hfilter : (m.functions.map (Option.map fun f => f.optimize.1)).filterMap id =
      (m.functions.filterMap id).map fun f => f.optimize.1 := by
    rw [List.filterMap_map, List.map_filterMap]
    rfl
  unfold Module.lookup?
  rw [functions_optimize, hfilter, List.find?_map]
  rfl

lemma mem_of_lookup {m : Module} {name : Text} {f : Function} (h : m.lookup? name = some f) :
    some f ∈ m.functions := by
  have hmem := List.mem_of_find?_eq_some h
  obtain ⟨slot, hslot, rfl⟩ := List.mem_filterMap.mp hmem
  exact hslot

section Mirroring

variable {m : Module} (maxFrames : Int) {callers' callers : List (Activation × Option Text)}
  (hcallers : List.Forall₂ (MirrorsWaiting m) callers' callers)

include hcallers

lemma enter_mirrors {f : Function} (hf : some f ∈ m.functions) (arguments : List Datum)
    (depth : Nat)
    (heap : Heap) :
    Mirror m (Source.enter maxFrames f.optimize.1 arguments callers' depth heap)
      (Source.enter maxFrames f arguments callers depth heap) := by
  have hvars : f.optimize.1.vars = f.vars := rfl
  have hbindings : bindings f.optimize.1 arguments = bindings f arguments := rfl
  have hname : f.optimize.1.name = f.name := rfl
  unfold Source.enter
  rw [hvars, hname, hbindings]
  split_ifs
  · exact .done _
  · exact .done _
  · exact .running ⟨hf, rfl, corresponds_start f, rfl, rfl⟩ hcallers rfl rfl

lemma leave_mirrors (d : Datum) (depth : Nat) (heap : Heap) :
    Mirror m (Source.leave d callers' depth heap) (Source.leave d callers depth heap) := by
  cases hcallers with
  | nil => exact .done _
  | cons hc hrest =>
    obtain @⟨a', a, target, ha⟩ := hc
    cases target with
    | none =>
      refine .running ⟨ha.function, ha.optimized, ha.position, ha.vars, ?_⟩ hrest rfl rfl
      exact congrArg (d :: ·) ha.stack
    | some name =>
      simp only [Source.leave, ha.vars]
      split_ifs
      · exact .running ⟨ha.function, ha.optimized, ha.position, rfl, ha.stack⟩ hrest rfl rfl
      · exact .done _

lemma effect_mirrors {a' a : Activation} (h : Mirrors m a' a) {e : Effect}
    (hlabel : ∀ label stack h, e = .jump label stack h →
      ∃ k, a'.function.body.idxOf? (.label label) = some k)
    (hnext : Corresponds a.function.body a'.function.body (a.position + 1) (a'.position + 1))
    (depth : Nat) (heap heap' : Heap) :
    Mirror m (Source.stepOf m.optimize.1 maxFrames ⟨a', callers', depth, heap'⟩ e)
      (Source.stepOf m maxFrames ⟨a, callers, depth, heap⟩ e) := by
  cases e with
  | next vars stack h' =>
    exact .running ⟨h.function, h.optimized, hnext, rfl, rfl⟩ hcallers rfl rfl
  | jump label stack h' =>
    obtain ⟨k', hk'⟩ := hlabel label stack h' rfl
    have hk := hk'
    rw [h.optimized] at hk
    obtain ⟨k, hk, hcorresponds⟩ := corresponds_label hk
    simp only [Source.stepOf, hk', hk]
    rw [← h.optimized] at hcorresponds
    exact .running ⟨h.function, h.optimized, hcorresponds, h.vars, rfl⟩ hcallers rfl rfl
  | call name arguments target stack h' =>
    simp only [Source.stepOf, lookup_optimize]
    cases hf : m.lookup? name with
    | none => exact .done _
    | some f =>
      refine enter_mirrors maxFrames (.cons (.intro ?_) hcallers) (mem_of_lookup hf) arguments
        depth h'
      exact ⟨h.function, h.optimized, hnext, h.vars, rfl⟩
  | leave d h' => exact leave_mirrors hcallers d depth h'
  | fault kind h' =>
    simp only [Source.stepOf, h.optimized]
    exact .done _
  | stuck h' => exact .done _

end Mirroring

section Optimized

variable {m : Module} (maxFrames : Int)
  (hjumps : ∀ f, some f ∈ m.functions → JumpsLand f.optimize.1)

include hjumps

lemma step_mirrors {s' s : Source.State} (h : Mirror m (.running s') (.running s)) :
    ∃ n, 0 < n ∧ Mirror m (Source.step m.optimize.1 maxFrames s')
      ((Source.advance m maxFrames)^[n] (.running s)) := by
  cases h with
  | running hrun hcallers hdepth hheap =>
    obtain ⟨⟨f', k', vars', stack'⟩, callers', depth', heap'⟩ := s'
    obtain ⟨⟨f, k, vars, stack⟩, callers, depth, heap⟩ := s
    obtain ⟨hf, hf', hk, hvars, hstack⟩ := hrun
    simp only at hf hf' hk hvars hstack hcallers hdepth hheap
    subst hf' hvars hstack hdepth hheap
    cases hk.reading with
    | ended hi hi' =>
      refine ⟨1, Nat.one_pos, ?_⟩
      simp only [Function.iterate_one, Source.advance, Source.step, hi, hi']
      exact leave_mirrors hcallers .null depth' heap'
    | @same i hi hi' hnext =>
      refine ⟨1, Nat.one_pos, ?_⟩
      simp only [Function.iterate_one, Source.advance, Source.step, hi, hi']
      by_cases hret : i = .ret
      · subst hret
        cases stack' with
        | nil =>
          rw [perform_underflow (by simp [Instr.stackEffect])]
          exact .done _
        | cons d stack =>
          rw [perform_of_operands (by simp only [Instr.stackEffect, List.length_cons]; omega)]
          exact leave_mirrors hcallers d depth' heap'
      · have hmirrors : Mirrors m ⟨f.optimize.1, k', vars', stack'⟩ ⟨f, k, vars', stack'⟩ :=
          ⟨hf, rfl, hk, rfl, rfl⟩
        refine effect_mirrors maxFrames hcallers hmirrors ?_ (hnext hret) depth' heap' heap'
        intro label stack h he
        exact hjumps f hf k' i label hi' (mem_targets he)
    | @computed front segment back v hbody hfront hi' hsegment hnext =>
      refine ⟨segment.length, List.length_pos_iff.mpr hsegment.ne_nil, ?_⟩
      rw [hsegment.runs m maxFrames hbody hfront.symm]
      simp only [Source.step, hi', perform_const]
      exact .running ⟨hf, rfl, hnext, rfl, rfl⟩ hcallers rfl rfl

lemma optimization_simulation :
    Process.Simulation (Source.process m.optimize.1 maxFrames) (Source.process m maxFrames)
      (Mirror m) some fun _ => 0 where
  ended := by
    intro c d o hrel ho
    cases hrel with
    | running => cases ho
    | done => exact ⟨o, ho, rfl⟩
  live := by
    intro c d hrel ho
    cases hrel with
    | running => rfl
    | done => exact ho
  step := by
    intro c d hrel ho
    cases c with
    | done o => cases ho
    | running s' =>
      cases d with
      | done o => cases hrel
      | running s =>
        obtain ⟨n, hpos, hn⟩ := step_mirrors maxFrames hjumps hrel
        exact ⟨n, hn, fun hzero => by omega⟩

end Optimized

lemma start_mirrors (m : Module) (maxFrames : Int) (entry : Text) (heap : Heap)
    (arguments : List Datum) :
    Mirror m (Source.start m.optimize.1 maxFrames entry heap arguments)
      (Source.start m maxFrames entry heap arguments) := by
  unfold Source.start
  rw [lookup_optimize]
  cases hf : m.lookup? entry with
  | none => exact .done _
  | some f => exact enter_mirrors maxFrames .nil (mem_of_lookup hf) arguments 0 heap

/-! ### Compiled programs -/

lemma jumpsLand_of_emit {m : Module} {p : Program} (h : m.emit = .ok p) {f : Function}
    (hf : some f ∈ m.functions) : JumpsLand f := by
  obtain ⟨fs, hm, hp⟩ := emittedProgram_of_emit h
  have hmem : f ∈ fs := by simpa [hm] using hf
  obtain ⟨k, hk⟩ := List.getElem?_of_mem hmem
  obtain ⟨r, -, hemitted⟩ := hp.exists_routine hk
  exact hemitted.jumpsLand

/-- Optimization preserves behaviour. If a module compiles both ways, the plain and the optimized
program return the same data, fault with the same kind in the same function, leave the same heap, or
both run forever. -/
theorem optimization_preserves_behaviour {m : Module} {p₀ p₁ : Program}
    (h₀ : (m.compile false).result = .ok p₀) (h₁ : (m.compile true).result = .ok p₁)
    (maxFrames : Int) (steps₀ steps₁ : Nat) (entry : Text) (heap : Heap) (arguments : List Datum) :
    let plain := runOf p₀ maxFrames steps₀ entry heap arguments
    let optimized := runOf p₁ maxFrames steps₁ entry heap arguments
    (∀ d h, Returns plain d h ↔ Returns optimized d h) ∧
      (∀ kind function h, Faults plain kind function h ↔ Faults optimized kind function h) ∧
      (RunsForever plain ↔ RunsForever optimized) := by
  obtain ⟨hvalid, hemit₀⟩ := compile_eq_ok h₀
  obtain ⟨-, hemit₁⟩ := compile_eq_ok h₁
  simp only [if_true, Bool.false_eq_true, if_false] at hemit₀ hemit₁
  have hvars₀ := fun f => @vars_nodup_of_problems m hvalid f
  have hmem {f : Function} (hf : some f ∈ m.functions) :
      some f.optimize.1 ∈ m.optimize.1.functions := by
    rw [functions_optimize]
    exact List.mem_map_of_mem hf
  have hvars₁ : ∀ f, some f ∈ m.optimize.1.functions → (f.vars.map Var.name).Nodup := by
    intro f hf
    rw [functions_optimize] at hf
    obtain ⟨slot, hslot, heq⟩ := List.mem_map.mp hf
    obtain ⟨g, rfl, rfl⟩ := Option.map_eq_some_iff.mp heq
    exact hvars₀ g hslot
  have hsim := optimization_simulation maxFrames fun f hf => jumpsLand_of_emit hemit₁ (hmem hf)
  have hstart := start_mirrors m maxFrames entry heap arguments
  have hshows (o : Source.Final) :
      Shows (runOf p₀ maxFrames steps₀ entry heap arguments) o ↔
        Shows (runOf p₁ maxFrames steps₁ entry heap arguments) o := by
    rw [shows_iff_source hemit₀ hvars₀, shows_iff_source hemit₁ hvars₁, hsim.endsWith_iff hstart]
    simp
  refine ⟨fun d h => ?_, fun kind function h => ?_, ?_⟩
  · rw [returns_iff_shows, returns_iff_shows, hshows]
  · rw [faults_iff_shows, faults_iff_shows, hshows]
  · rw [runsForever_iff_source hemit₀ hvars₀, runsForever_iff_source hemit₁ hvars₁,
      hsim.diverges_iff hstart]

/-- The optimized program of the countdown: one constant less, one for the sum, and a shorter body. -/
def countdownOptimized : Program where
  functions := [
    { name := "main"
      code := some #[16, 0, 0, 33, 1, 32, 0, 16, 0, 1, 100, 129, 0, 18, 32, 0, 144, 1, 1, 33, 1, 32, 0,
        16, 0, 2, 81, 33, 0, 128, 255, 229, 32, 1, 240]
      locals := 1
      params := 1 },
    { name := "next"
      code := some #[32, 0, 16, 0, 2, 80, 33, 0, 32, 0, 240]
      params := 1 }]
  constants := [.int 5, .int 0, .int 1]
  symbols := ["main"]

theorem countdown_behaviour :
    (countdown.compile false).result = .ok countdownProgram ∧
      (countdown.compile true).result = .ok countdownOptimized ∧
      Returns (runOf countdownOptimized 2 0 "main" {} [.scalar (.int 2)]) (.scalar (.int 2)) {} := by
  have h₀ : (countdown.compile false).result = .ok countdownProgram := by cbv
  have h₁ : (countdown.compile true).result = .ok countdownOptimized := by cbv
  have hreturns :
      Returns (runOf countdownProgram 2 0 "main" {} [.scalar (.int 2)]) (.scalar (.int 2)) {} :=
    ⟨60, 46, by cbv⟩
  refine ⟨h₀, h₁, ?_⟩
  exact ((optimization_preserves_behaviour h₀ h₁ 2 0 0 "main" {} [.scalar (.int 2)]).1 _ _).mp
    hreturns

end StackCode.Proofs
