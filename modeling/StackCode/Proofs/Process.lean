import Mathlib

/-!
# Processes and their simulation

A process is a deterministic machine that may end. A simulation relates the configurations of two
processes: a step of the first is matched by some steps of the second, and only finitely many steps
in a row are matched by none. Related configurations then end with related outcomes, or both run
forever.
-/

namespace StackCode.Proofs

/-- A deterministic machine: how a configuration goes on, and the outcome of one that has ended. -/
structure Process (γ ω : Type) where
  advance : γ → γ
  outcome? : γ → Option ω
  advance_of_outcome : ∀ {c o}, outcome? c = some o → advance c = c

namespace Process

variable {γ δ ω π : Type}

/-- The run from a configuration ends with the outcome. -/
def EndsWith (P : Process γ ω) (c : γ) (o : ω) : Prop :=
  ∃ n, P.outcome? (P.advance^[n] c) = some o

/-- The run from a configuration never ends. -/
def Diverges (P : Process γ ω) (c : γ) : Prop :=
  ∀ n, P.outcome? (P.advance^[n] c) = none

/-- A configuration is on the run from another one. -/
def Reaches (P : Process γ ω) (c d : γ) : Prop := ∃ n, P.advance^[n] c = d

lemma iterate_of_outcome (P : Process γ ω) {c : γ} {o : ω} (h : P.outcome? c = some o) (n : Nat) :
    P.advance^[n] c = c :=
  Function.iterate_fixed (P.advance_of_outcome h) n

/-- An outcome stays: every longer run has it too. -/
lemma outcome_mono (P : Process γ ω) {c : γ} {o : ω} {m n : Nat} (hmn : m ≤ n)
    (h : P.outcome? (P.advance^[m] c) = some o) : P.outcome? (P.advance^[n] c) = some o := by
  obtain ⟨k, rfl⟩ := Nat.exists_eq_add_of_le hmn
  rw [Nat.add_comm, Function.iterate_add_apply, P.iterate_of_outcome h]
  exact h

lemma EndsWith.unique {P : Process γ ω} {c : γ} {o o' : ω} (h : P.EndsWith c o)
    (h' : P.EndsWith c o') : o = o' := by
  obtain ⟨m, hm⟩ := h
  obtain ⟨n, hn⟩ := h'
  have hm' := P.outcome_mono (Nat.le_max_left m n) hm
  have hn' := P.outcome_mono (Nat.le_max_right m n) hn
  exact Option.some.inj (hm'.symm.trans hn')

lemma not_diverges_iff (P : Process γ ω) (c : γ) : ¬P.Diverges c ↔ ∃ o, P.EndsWith c o := by
  constructor
  · intro h
    by_contra hno
    apply h
    intro n
    cases ho : P.outcome? (P.advance^[n] c) with
    | none => rfl
    | some o => exact absurd ⟨o, n, ho⟩ hno
  · rintro ⟨o, n, hn⟩ hd
    rw [hd n] at hn
    cases hn

lemma Diverges.advance {P : Process γ ω} {c : γ} (h : P.Diverges c) : P.Diverges (P.advance c) :=
  fun n => h (n + 1)

lemma EndsWith.of_iterate {P : Process γ ω} {c : γ} {o : ω} {n : Nat}
    (h : P.EndsWith (P.advance^[n] c) o) : P.EndsWith c o := by
  obtain ⟨m, hm⟩ := h
  exact ⟨m + n, by rw [Function.iterate_add_apply]; exact hm⟩

lemma Reaches.refl (P : Process γ ω) (c : γ) : P.Reaches c c := ⟨0, rfl⟩

lemma Reaches.head {P : Process γ ω} {c d : γ} (h : P.Reaches (P.advance c) d) : P.Reaches c d := by
  obtain ⟨n, hn⟩ := h
  exact ⟨n + 1, hn⟩

lemma Reaches.trans {P : Process γ ω} {c d e : γ} (h : P.Reaches c d) (h' : P.Reaches d e) :
    P.Reaches c e := by
  obtain ⟨m, rfl⟩ := h
  obtain ⟨n, rfl⟩ := h'
  exact ⟨n + m, Function.iterate_add_apply ..⟩

/-- What is on the run ends within as many steps as the start does. -/
lemma Reaches.outcome {P : Process γ ω} {c d : γ} (h : P.Reaches c d) {n : Nat} {o : ω}
    (ho : P.outcome? (P.advance^[n] c) = some o) : P.outcome? (P.advance^[n] d) = some o := by
  obtain ⟨m, rfl⟩ := h
  rw [← Function.iterate_add_apply]
  exact P.outcome_mono (Nat.le_add_right n m) ho

/-- What holds at the start and is kept by every step holds all along the run. -/
lemma Reaches.invariant {P : Process γ ω} {I : γ → Prop} (hstep : ∀ c, I c → I (P.advance c))
    {c d : γ} (h : P.Reaches c d) (hc : I c) : I d := by
  obtain ⟨n, rfl⟩ := h
  induction n generalizing c with
  | zero => exact hc
  | succ n ih => exact ih (hstep c hc)

/-- The steps of `P` are matched by steps of `Q`. The rank bounds how many steps of `P` in a row are
matched by none, and `view` says which outcome of `P` an outcome of `Q` stands for. -/
structure Simulation (P : Process γ ω) (Q : Process δ π) (rel : γ → δ → Prop)
    (view : π → Option ω) (rank : γ → Nat) : Prop where
  ended : ∀ {c d o}, rel c d → P.outcome? c = some o →
    ∃ o', Q.outcome? d = some o' ∧ view o' = some o
  live : ∀ {c d}, rel c d → P.outcome? c = none → Q.outcome? d = none
  step : ∀ {c d}, rel c d → P.outcome? c = none →
    ∃ n, rel (P.advance c) (Q.advance^[n] d) ∧ (n = 0 → rank (P.advance c) < rank c)

namespace Simulation

variable {P : Process γ ω} {Q : Process δ π} {rel : γ → δ → Prop} {view : π → Option ω}
  {rank : γ → Nat}

lemma endsWith (S : Simulation P Q rel view rank) {c : γ} {d : δ} {o : ω} (hr : rel c d)
    (h : P.EndsWith c o) : ∃ o', Q.EndsWith d o' ∧ view o' = some o := by
  obtain ⟨n, hn⟩ := h
  induction n generalizing c d with
  | zero =>
    obtain ⟨o', ho', hv⟩ := S.ended hr hn
    exact ⟨o', ⟨0, ho'⟩, hv⟩
  | succ n ih =>
    cases ho : P.outcome? c with
    | some o₁ =>
      obtain ⟨o', ho', hv⟩ := S.ended hr ho
      have he : o₁ = o := EndsWith.unique ⟨0, ho⟩ ⟨n + 1, hn⟩
      exact ⟨o', ⟨0, ho'⟩, he ▸ hv⟩
    | none =>
      obtain ⟨k, hk, -⟩ := S.step hr ho
      obtain ⟨o', ho', hv⟩ := ih hk hn
      exact ⟨o', ho'.of_iterate, hv⟩

/-- From a run that never ends the second process always gets at least one step further. -/
lemma exists_progress (S : Simulation P Q rel view rank) {c : γ} {d : δ} (hr : rel c d)
    (h : P.Diverges c) : ∃ c' n, P.Diverges c' ∧ rel c' (Q.advance^[n + 1] d) := by
  -- The silent steps run out: induction on the rank.
  induction hk : rank c using Nat.strongRecOn generalizing c with
  | ind k ih =>
    obtain ⟨n, hn, hrank⟩ := S.step hr (h 0)
    cases n with
    | zero => exact ih _ (hk ▸ hrank rfl) hn h.advance rfl
    | succ n => exact ⟨_, n, h.advance, hn⟩

lemma diverges (S : Simulation P Q rel view rank) {c : γ} {d : δ} (hr : rel c d)
    (h : P.Diverges c) : Q.Diverges d := by
  intro n
  have hlate : ∃ m c', n ≤ m ∧ P.Diverges c' ∧ rel c' (Q.advance^[m] d) := by
    induction n with
    | zero => exact ⟨0, c, Nat.le_refl 0, h, hr⟩
    | succ n ih =>
      obtain ⟨m, c', hm, hd, hrm⟩ := ih
      obtain ⟨c₂, k, hd₂, hr₂⟩ := S.exists_progress hrm hd
      refine ⟨k + 1 + m, c₂, by omega, hd₂, ?_⟩
      rwa [Function.iterate_add_apply]
  obtain ⟨m, c', hm, hd, hrm⟩ := hlate
  cases ho : Q.outcome? (Q.advance^[n] d) with
  | none => rfl
  | some o =>
    have hlive := S.live hrm (hd 0)
    rw [Q.outcome_mono hm ho] at hlive
    cases hlive

/-- Related configurations run forever together. -/
theorem diverges_iff (S : Simulation P Q rel view rank) {c : γ} {d : δ} (hr : rel c d) :
    P.Diverges c ↔ Q.Diverges d := by
  refine ⟨S.diverges hr, fun h => ?_⟩
  by_contra hc
  obtain ⟨o, ho⟩ := (P.not_diverges_iff c).mp hc
  obtain ⟨o', ho', -⟩ := S.endsWith hr ho
  exact (Q.not_diverges_iff d).mpr ⟨o', ho'⟩ h

/-- Related configurations end with the same outcome, as far as the first process can tell. -/
theorem endsWith_iff (S : Simulation P Q rel view rank) {c : γ} {d : δ} (hr : rel c d) (o : ω) :
    P.EndsWith c o ↔ ∃ o', Q.EndsWith d o' ∧ view o' = some o := by
  refine ⟨S.endsWith hr, ?_⟩
  rintro ⟨o', ho', hv⟩
  have hc : ¬P.Diverges c := fun hd => (Q.not_diverges_iff d).mpr ⟨o', ho'⟩ (S.diverges hr hd)
  obtain ⟨o₁, ho₁⟩ := (P.not_diverges_iff c).mp hc
  obtain ⟨o₂, ho₂, hv₂⟩ := S.endsWith hr ho₁
  have he : o₂ = o' := ho₂.unique ho'
  have hv₁ : some o₁ = some o := by rw [← hv₂, he, hv]
  exact Option.some.inj hv₁ ▸ ho₁

end Simulation

end Process

end StackCode.Proofs
