import Mathlib
import StackCode.Pool

/-!
# The constant pool

The index of a pool and its list of constants agree: a value is found exactly where it stands, each
value stands once, and interning only adds at the end.
-/

namespace StackCode.Proofs

lemma key_injective : Function.Injective Value.key := by
  intro v w h
  cases v <;> cases w <;> simp_all [Value.key]
  case bool.bool b c => cases b <;> cases c <;> simp_all
  case int.int m n => exact congrArg Int64.ofUInt64 h
  case float.float x y => exact congrArg Binary64.mk h

@[simp] lemma key_inj {v w : Value} : v.key = w.key ↔ v = w := key_injective.eq_iff

lemma equal_iff {v w : Value} : v.equal w ↔ v = w := by simp [Value.equal]

/-- A pool whose index and list of constants agree. -/
structure PoolValid (p : Pool) : Prop where
  nodup : p.values.toList.Nodup
  size_le : p.values.size ≤ Pool.capacity
  found : ∀ {v : Value} {i : UInt16}, p.index[v.key]? = some i ↔ p.values[i.toNat]? = some v

lemma poolValid_empty : PoolValid {} where
  nodup := List.nodup_nil
  size_le := Nat.zero_le _
  found := by simp

/-- A position below the limit is an index. -/
lemma toNat_index {n : Nat} (h : n < Pool.capacity) : (UInt16.ofNat n).toNat = n := by
  unfold Pool.capacity at h
  rw [UInt16.toNat_ofNat']
  omega

lemma PoolValid.found_at {p : Pool} (h : PoolValid p) {v : Value} {n : Nat}
    (hn : p.values[n]? = some v) : p.index[v.key]? = some (UInt16.ofNat n) := by
  have hlt := (Array.getElem?_eq_some_iff.mp hn).1
  rw [h.found, toNat_index (Nat.lt_of_lt_of_le hlt h.size_le)]
  exact hn

lemma PoolValid.not_mem {p : Pool} (h : PoolValid p) {v : Value} (hv : p.index[v.key]? = none) :
    v ∉ p.values.toList := by
  intro hmem
  obtain ⟨n, hn⟩ := List.getElem?_of_mem hmem
  have hfound := h.found_at ((Array.getElem?_toList).symm.trans hn)
  rw [hv] at hfound
  cases hfound

/-- A new constant goes to the end of the list. -/
lemma PoolValid.insert {p : Pool} (h : PoolValid p) {v : Value} (hv : p.index[v.key]? = none)
    (hroom : p.values.size < Pool.capacity) :
    PoolValid ⟨p.values.push v, p.index.insert v.key (UInt16.ofNat p.values.size)⟩ where
  nodup := by
    simp only [Array.toList_push]
    exact List.nodup_append.mpr ⟨h.nodup, List.nodup_singleton v, by
      simpa using fun a ha (hav : a = v) => h.not_mem hv (by simpa [← hav] using ha)⟩
  size_le := by
    rw [Array.size_push]
    omega
  found := by
    intro w i
    have hindex : UInt16.ofNat p.values.size = i ↔ i.toNat = p.values.size := by
      rw [← UInt16.toNat_inj, toNat_index hroom, eq_comm]
    rw [Std.HashMap.getElem?_insert, Array.getElem?_push]
    by_cases hvw : v = w
    · subst hvw
      simp only [BEq.rfl, if_true, Option.some.injEq, hindex]
      split_ifs with hi
      · simp [hi]
      · constructor
        · intro he
          exact absurd he hi
        · intro hold
          rw [h.found.mpr hold] at hv
          cases hv
    · simp only [beq_iff_eq, key_inj, hvw, if_false]
      split_ifs with hi
      · rw [h.found, hi]
        simp [hvw]
      · exact h.found

/-- Interning finds the value or adds it at the end. -/
lemma PoolValid.intern {p p' : Pool} {v : Value} {i : UInt16} (h : PoolValid p)
    (hi : p.intern v = (some i, p')) :
    PoolValid p' ∧ p'.values[i.toNat]? = some v ∧ p.values.toList <+: p'.values.toList := by
  unfold Pool.intern at hi
  cases hv : p.index[v.key]? with
  | some j =>
    simp only [hv, Prod.mk.injEq, Option.some.injEq] at hi
    obtain ⟨rfl, rfl⟩ := hi
    exact ⟨h, h.found.mp hv, List.prefix_refl _⟩
  | none =>
    simp only [hv] at hi
    split_ifs at hi with hfull
    · simp at hi
    · simp only [Prod.mk.injEq, Option.some.injEq] at hi
      obtain ⟨rfl, rfl⟩ := hi
      have hroom := Nat.not_le.mp hfull
      refine ⟨h.insert hv hroom, by simp [toNat_index hroom], ?_⟩
      rw [Array.toList_push]
      exact List.prefix_append _ _

/-! ### First occurrences -/

lemma eraseDups_concat (vs : List Value) (v : Value) :
    (vs ++ [v]).eraseDups = if v ∈ vs then vs.eraseDups else vs.eraseDups ++ [v] := by
  rw [List.eraseDups_append]
  by_cases hv : v ∈ vs
  · simp [List.removeAll, hv]
  · simp [List.removeAll, hv, List.eraseDups_cons]

lemma length_eraseDups_append_le (vs ws : List Value) :
    vs.eraseDups.length ≤ (vs ++ ws).eraseDups.length := by
  rw [List.eraseDups_append, List.length_append]
  omega

/-- A pool that holds the values used so far, in the order of their first use. -/
structure Collected (used : List Value) (p : Pool) : Prop where
  valid : PoolValid p
  values : p.values.toList = used.eraseDups

lemma collected_empty : Collected [] {} := ⟨poolValid_empty, rfl⟩

lemma Collected.length_le {used : List Value} {p : Pool} (h : Collected used p) :
    used.eraseDups.length ≤ Pool.capacity := by
  rw [← h.values, Array.length_toList]
  exact h.valid.size_le

lemma Collected.mem_iff {used : List Value} {p : Pool} (h : Collected used p) {v : Value} :
    v ∈ used ↔ ∃ i, p.index[v.key]? = some i := by
  rw [← List.mem_eraseDups, ← h.values, List.mem_iff_getElem?]
  simp only [Array.getElem?_toList]
  constructor
  · rintro ⟨n, hn⟩
    exact ⟨_, h.valid.found_at hn⟩
  · rintro ⟨i, hi⟩
    exact ⟨_, h.valid.found.mp hi⟩

lemma Collected.index_eq_none {used : List Value} {p : Pool} (h : Collected used p) {v : Value}
    (hv : v ∉ used) : p.index[v.key]? = none := by
  apply Option.eq_none_iff_forall_ne_some.mpr
  exact fun j hj => hv (h.mem_iff.mpr ⟨j, hj⟩)

lemma Collected.intern {used : List Value} {p p' : Pool} {v : Value} {i : UInt16}
    (h : Collected used p) (hi : p.intern v = (some i, p')) : Collected (used ++ [v]) p' := by
  refine ⟨(h.valid.intern hi).1, ?_⟩
  rw [eraseDups_concat, ← h.values]
  unfold Pool.intern at hi
  by_cases hv : v ∈ used
  · obtain ⟨j, hj⟩ := h.mem_iff.mp hv
    simp only [hj, Prod.mk.injEq] at hi
    rw [if_pos hv, ← hi.2]
  · simp only [h.index_eq_none hv] at hi
    split_ifs at hi
    · simp at hi
    · simp only [Prod.mk.injEq] at hi
      rw [if_neg hv, ← hi.2, Array.toList_push]

/-- Interning gives an index exactly if there is room for the values used so far and the new one. -/
lemma Collected.exists_intern_iff {used : List Value} {p : Pool} {v : Value}
    (h : Collected used p) :
    (∃ i p', p.intern v = (some i, p')) ↔ (used ++ [v]).eraseDups.length ≤ Pool.capacity := by
  have hsize : used.eraseDups.length = p.values.size := by rw [← h.values, Array.length_toList]
  rw [eraseDups_concat]
  unfold Pool.intern
  by_cases hv : v ∈ used
  · obtain ⟨j, hj⟩ := h.mem_iff.mp hv
    simp [hj, hv, hsize, h.valid.size_le]
  · simp only [h.index_eq_none hv, hv, if_false, List.length_append, hsize, List.length_singleton]
    by_cases hfull : Pool.capacity ≤ p.values.size
    · simp [hfull]
    · simp [hfull]
      omega

end StackCode.Proofs
