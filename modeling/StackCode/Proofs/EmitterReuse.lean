import StackCode.Proofs.Emission

/-!
# Using an emitter again

An emission may stop anywhere: before the variables of a function are known, in the middle of its
body, with jumps that still wait for their labels, with a full pool. The emitter then keeps what it
held. All of it is set anew before it is read, so the next module is emitted as by a new emitter.
-/

namespace StackCode.Proofs

open Emit

/-- Results that report the same: the same value, or an error with the same cause. -/
lemma reports_cases {ε σ α : Type} {x y : Except (ε × σ) α}
    (h : x.mapError Prod.fst = y.mapError Prod.fst) :
    (∃ a, x = .ok a ∧ y = .ok a) ∨ ∃ c s s', x = .error (c, s) ∧ y = .error (c, s') := by
  cases x with
  | ok a =>
    cases y with
    | ok b =>
      cases h
      exact .inl ⟨a, rfl, rfl⟩
    | error z => cases h
  | error w =>
    cases y with
    | ok b => cases h
    | error z =>
      have hcause : w.1 = z.1 := Except.error.inj h
      exact .inr ⟨w.1, w.2, z.2, rfl, by rw [hcause]⟩

section Congruence

variable {e e' : Emitter} (hpool : e.pool = e'.pool)
  (hfunctions : e.scope.functions = e'.scope.functions)

include hpool hfunctions

/-- Of what an emitter holds, a function only uses the constants and the names of the functions. If
it has too many variables, those of the function before stay in the emitter. -/
lemma emitBody_congr (f : Function) :
    (e.emitBody f).mapError Prod.fst = (e'.emitBody f).mapError Prod.fst := by
  unfold Emitter.emitBody
  dsimp only
  split_ifs with hmany
  · rfl
  · rw [hpool, hfunctions]

lemma emitFunction_congr (f : Function) :
    (e.emitFunction f).mapError Prod.fst = (e'.emitFunction f).mapError Prod.fst := by
  unfold Emitter.emitFunction
  obtain ⟨done, hok, hok'⟩ | ⟨cause, stopped, stopped', herror, herror'⟩ :=
    reports_cases (emitBody_congr hpool hfunctions f)
  · rw [hok, hok']
  · have hname :
        (emitterLeft (e.emitBody f)).function = (emitterLeft (e'.emitBody f)).function := by
      rw [(emitBody_leaves e f).1, (emitBody_leaves e' f).1]
    rw [herror, herror'] at hname ⊢
    have hstopped : stopped.function = stopped'.function := hname
    simp only [Except.mapError, hstopped]

/-- The first function sets what the later ones find. -/
lemma emitFunctions_congr (done : List Routine) (f : Function) (fs : List Function) :
    (e.emitFunctions done (f :: fs)).mapError Prod.fst =
      (e'.emitFunctions done (f :: fs)).mapError Prod.fst := by
  rw [Emitter.emitFunctions, Emitter.emitFunctions]
  obtain ⟨x, hok, hok'⟩ | ⟨c, stopped, stopped', herror, herror'⟩ :=
    reports_cases (emitFunction_congr hpool hfunctions f)
  · rw [hok, hok']
  · rw [herror, herror']
    rfl

end Congruence

lemma emit_eq_fresh (e : Emitter) (m : Module) : (e.emit m).1 = m.emit := by
  unfold Module.emit Emitter.emit
  cases Emitter.registered m with
  | error cause => rfl
  | ok fs =>
    cases fs with
    | nil => rfl
    | cons f fs =>
      have hsame := emitFunctions_congr
        (e := { e with pool := {}, scope.functions := (f :: fs).map Function.name })
        (show _ = (emitterOf (f :: fs)).pool from rfl) rfl [] f fs
      dsimp only
      obtain ⟨x, hok, hok'⟩ | ⟨c, stopped, stopped', herror, herror'⟩ := reports_cases hsame
      · rw [hok, hok']
      · rw [herror, herror']

/-- The results of one emitter that emits modules one after the other, and what it holds then. -/
def emitEach (e : Emitter) : List Module → List (Except Error Program) × Emitter
  | [] => ([], e)
  | m :: ms =>
    let rest := emitEach (e.emit m).2 ms
    ((e.emit m).1 :: rest.1, rest.2)

/-- An emitter carries nothing over. Whatever it holds, every module of a sequence gets the program
or the error that a new emitter gives for it. -/
theorem emitter_carries_nothing_over (e : Emitter) (ms : List Module) :
    (emitEach e ms).1 = ms.map Module.emit := by
  induction ms generalizing e with
  | nil => rfl
  | cons m ms ih => rw [emitEach, List.map_cons, ih, emit_eq_fresh]

/-- Stops in the middle of a body, where a label is set and a jump waits. -/
def stopping : Module where
  functions := [some { name := "f", body := [.label "top", .jump "end", .load "x"] }]

example : (({} : Emitter).emit stopping).1 = .error ⟨"f", .undefinedVariable "x"⟩ ∧
    (({} : Emitter).emit stopping).2.labels.map Prod.fst = ["top"] ∧
    (({} : Emitter).emit stopping).2.pending.map Prod.snd = ["end"] := by
  cbv

end StackCode.Proofs
