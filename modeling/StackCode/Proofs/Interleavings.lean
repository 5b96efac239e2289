import Mathlib

/-!
# Interleavings

Parts of a system that act at the same time are taken to act one at a time, in any order. A run is
then a list of events, and what holds of every list that the system allows holds in every
interleaving of its parts.
-/

namespace StackCode.Proofs

/-- A run of a system from one state to another, with the events in it. -/
inductive Steps {γ ε : Type} (step : γ → ε → γ → Prop) : γ → List ε → γ → Prop
  | done (s : γ) : Steps step s [] s
  | next {s t u : γ} {e : ε} {events : List ε} (h : step s e t) (rest : Steps step t events u) :
      Steps step s (e :: events) u

variable {γ ε : Type} {step : γ → ε → γ → Prop} {s t u : γ} {events more : List ε}

lemma Steps.append (h : Steps step s events t) (hmore : Steps step t more u) :
    Steps step s (events ++ more) u := by
  induction h with
  | done => exact hmore
  | next hstep _ ih => exact .next hstep (ih hmore)

lemma Steps.single {e : ε} (h : step s e t) : Steps step s [e] t := .next h (.done t)

/-- What each step keeps of the past and the state holds along a run from where it holds. -/
lemma Steps.invariant {P : List ε → γ → Prop}
    (hstep : ∀ {past s e t}, P past s → step s e t → P (past ++ [e]) t) (hs : P [] s)
    (h : Steps step s events t) : P events t := by
  have hrun : ∀ past, P past s → P (past ++ events) t := by
    clear hs
    induction h with
    | done => exact fun past hs => by rwa [List.append_nil]
    | next hone _ ih =>
      intro past hs
      rw [List.append_cons]
      exact ih _ (hstep hs hone)
  exact hrun [] hs

/-- The second event happens at some time after the first. -/
def Precedes (first second : ε) (events : List ε) : Prop :=
  ∃ before after, events = before ++ second :: after ∧ first ∈ before

variable {first second : ε}

lemma Precedes.mem (h : Precedes first second events) : first ∈ events ∧ second ∈ events := by
  obtain ⟨before, after, rfl, hfirst⟩ := h
  simp [hfirst]

lemma precedes_concat_iff {e : ε} : Precedes first second (events ++ [e]) ↔
    Precedes first second events ∨ e = second ∧ first ∈ events := by
  constructor
  · rintro ⟨before, after, hevents, hfirst⟩
    rcases List.eq_nil_or_concat after with rfl | ⟨after, last, rfl⟩
    · obtain ⟨rfl, he⟩ := List.append_inj' hevents rfl
      exact .inr ⟨by simpa using he, hfirst⟩
    · rw [List.concat_eq_append, ← List.cons_append, ← List.append_assoc] at hevents
      exact .inl ⟨before, after, (List.append_inj' hevents rfl).1, hfirst⟩
  · rintro (⟨before, after, rfl, hfirst⟩ | ⟨rfl, hfirst⟩)
    · exact ⟨before, after ++ [e], by simp, hfirst⟩
    · exact ⟨events, [], rfl, hfirst⟩

end StackCode.Proofs
