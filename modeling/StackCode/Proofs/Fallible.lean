import Mathlib

/-!
# Computations that can fail

What it means that a sequence of fallible steps succeeds: every step does.
-/

namespace StackCode.Proofs

lemma bind_eq_ok_iff {ε α β : Type} {x : Except ε α} {f : α → Except ε β} {b : β} :
    (x >>= f) = .ok b ↔ ∃ a, x = .ok a ∧ f a = .ok b := by
  cases x with
  | error e => simp [bind, Except.bind]
  | ok a => simp [bind, Except.bind]

lemma bind_eq_error_iff {ε α β : Type} {x : Except ε α} {f : α → Except ε β} {e : ε} :
    (x >>= f) = .error e ↔ x = .error e ∨ ∃ a, x = .ok a ∧ f a = .error e := by
  cases x with
  | error e => simp [bind, Except.bind]
  | ok a => simp [bind, Except.bind]

lemma eq_ok_of_mapError {ε ε' α : Type} {f : ε → ε'} {x : Except ε α} {a : α}
    (h : x.mapError f = .ok a) : x = .ok a := by
  cases x with
  | ok b =>
    cases h
    rfl
  | error e => cases h

lemma mapM_eq_ok_iff {ε α β : Type} {f : α → Except ε β} {xs : List α} {ys : List β} :
    xs.mapM f = .ok ys ↔ List.Forall₂ (fun x y => f x = .ok y) xs ys := by
  induction xs generalizing ys with
  | nil =>
    rw [List.mapM_nil, List.forall₂_nil_left_iff]
    constructor
    · rintro ⟨⟩
      rfl
    · rintro rfl
      rfl
  | cons x xs ih =>
    rw [List.mapM_cons, bind_eq_ok_iff, List.forall₂_cons_left_iff]
    constructor
    · rintro ⟨y, hy, hrest⟩
      obtain ⟨zs, hzs, hdone⟩ := bind_eq_ok_iff.mp hrest
      cases hdone
      exact ⟨y, zs, hy, ih.mp hzs, rfl⟩
    · rintro ⟨y, zs, hy, hzs, rfl⟩
      exact ⟨y, hy, bind_eq_ok_iff.mpr ⟨zs, ih.mpr hzs, rfl⟩⟩

lemma exists_of_forall₂ {α β : Type} {R : α → β → Prop} {xs : List α} {ys : List β}
    (h : List.Forall₂ R xs ys) {y : β} (hy : y ∈ ys) : ∃ x ∈ xs, R x y := by
  induction h with
  | nil => cases hy
  | @cons a b _ _ hab _ ih =>
    rcases List.mem_cons.mp hy with rfl | hy
    · exact ⟨a, by simp, hab⟩
    · obtain ⟨x, hx, hxy⟩ := ih hy
      exact ⟨x, by simp [hx], hxy⟩

lemma step_of_foldlM {ε α σ : Type} {f : σ → α → Except ε σ} {xs : List α} {s s' : σ}
    (h : xs.foldlM f s = .ok s') : ∀ x ∈ xs, ∃ t t', f t x = .ok t' := by
  induction xs generalizing s with
  | nil => simp
  | cons y xs ih =>
    rw [List.foldlM_cons] at h
    obtain ⟨t, hy, hxs⟩ := bind_eq_ok_iff.mp h
    intro x hx
    rcases List.mem_cons.mp hx with rfl | hx
    · exact ⟨s, t, hy⟩
    · exact ih hxs x hx

lemma error_of_foldlM {ε α σ : Type} {f : σ → α → Except ε σ} {xs : List α} {s : σ} {e : ε}
    (h : xs.foldlM f s = .error e) : ∃ x ∈ xs, ∃ t, f t x = .error e := by
  induction xs generalizing s with
  | nil => cases h
  | cons y xs ih =>
    rw [List.foldlM_cons] at h
    rcases bind_eq_error_iff.mp h with hy | ⟨t, -, hxs⟩
    · exact ⟨y, by simp, s, hy⟩
    · obtain ⟨x, hx, hstep⟩ := ih hxs
      exact ⟨x, by simp [hx], hstep⟩

/-- Two loops whose steps keep their states related: if the first ends well, so does the second. -/
lemma foldlM_alike {ε ε' α β σ τ : Type} {P : α → β → Prop} {R : σ → τ → Prop}
    {f : σ → α → Except ε σ} {g : τ → β → Except ε' τ} {xs : List α} {ys : List β}
    (hxy : List.Forall₂ P xs ys)
    (hstep : ∀ s t x y s', y ∈ ys → P x y → R s t → f s x = .ok s' →
      ∃ t', g t y = .ok t' ∧ R s' t')
    {s s' : σ} {t : τ} (hst : R s t) (h : xs.foldlM f s = .ok s') :
    ∃ t', ys.foldlM g t = .ok t' ∧ R s' t' := by
  induction hxy generalizing s t with
  | nil =>
    cases h
    exact ⟨t, rfl, hst⟩
  | @cons x y xs ys hp _ ih =>
    rw [List.foldlM_cons] at h
    obtain ⟨s₁, hx, hxs⟩ := bind_eq_ok_iff.mp h
    obtain ⟨t₁, hy, hrel⟩ := hstep s t x y s₁ (by simp) hp hst hx
    obtain ⟨t', hys, hend⟩ :=
      ih (fun s t x y s' hmem => hstep s t x y s' (by simp [hmem])) hrel hxs
    refine ⟨t', ?_, hend⟩
    rw [List.foldlM_cons]
    exact bind_eq_ok_iff.mpr ⟨t₁, hy, hys⟩

end StackCode.Proofs
