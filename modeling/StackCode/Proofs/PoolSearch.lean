import StackCode.Proofs.ConstantPool

/-!
# A pool without an index

The index of a pool only saves time. On every sequence of requests the pool answers as one that
searches its list from the start, keeps the same constants in the same order, and refuses the same
requests.
-/

namespace StackCode.Proofs

/-! ### Searching the list -/

/-- Interning by a search through the list. -/
def searchIntern (values : List Value) (v : Value) : Option Nat × List Value :=
  match values.findIdx? fun w => w = v with
  | some n => (some n, values)
  | none =>
    if Pool.capacity ≤ values.length then (none, values) else (some values.length, values ++ [v])

lemma searchIntern_of_getElem {values : List Value} {v : Value} {n : Nat} (hnodup : values.Nodup)
    (hn : values[n]? = some v) : searchIntern values v = (some n, values) := by
  obtain ⟨hlt, rfl⟩ := List.getElem?_eq_some_iff.mp hn
  have hfirst : (values.findIdx? fun w => w = values[n]) = some n := by
    rw [List.findIdx?_eq_some_iff_getElem]
    refine ⟨hlt, by simp, ?_⟩
    intro j hj
    have hne : values[j] ≠ values[n] := fun heq => hj.ne (hnodup.getElem_inj_iff.mp heq)
    simpa using hne
  simp [searchIntern, hfirst]

lemma searchIntern_of_not_mem {values : List Value} {v : Value} (hv : v ∉ values) :
    searchIntern values v =
      if Pool.capacity ≤ values.length then (none, values)
      else (some values.length, values ++ [v]) := by
  have hnone : (values.findIdx? fun w => w = v) = none := by
    rw [List.findIdx?_eq_none_iff]
    rintro w hw
    simpa using fun (h : w = v) => hv (h ▸ hw)
  simp [searchIntern, hnone]

/-- One request: the index finds what the search finds. -/
lemma PoolValid.intern_eq_search {p : Pool} (h : PoolValid p) (v : Value) :
    PoolValid (p.intern v).2 ∧
      (p.intern v).1.map UInt16.toNat = (searchIntern p.values.toList v).1 ∧
      (p.intern v).2.values.toList = (searchIntern p.values.toList v).2 := by
  cases hv : p.index[v.key]? with
  | some i =>
    have hi : p.values.toList[i.toNat]? = some v := by
      rw [Array.getElem?_toList]
      exact h.found.mp hv
    have hintern : p.intern v = (some i, p) := by simp [Pool.intern, hv]
    rw [hintern, searchIntern_of_getElem h.nodup hi]
    exact ⟨h, rfl, rfl⟩
  | none =>
    rw [searchIntern_of_not_mem (h.not_mem hv), Array.length_toList]
    by_cases hfull : Pool.capacity ≤ p.values.size
    · have hintern : p.intern v = (none, p) := by simp [Pool.intern, hv, hfull]
      rw [hintern, if_pos hfull]
      exact ⟨h, rfl, rfl⟩
    · have hroom := Nat.not_le.mp hfull
      simp only [Pool.intern, hv, if_neg hfull]
      exact ⟨h.insert hv hroom, by simp [toNat_index hroom], by simp⟩

/-! ### Sequences of requests -/

/-- The answers to requests made one after the other, and the pool after them. -/
def internAll {σ ι : Type} (intern : σ → Value → ι × σ) (s : σ) : List Value → List ι × σ
  | [] => ([], s)
  | v :: vs =>
    let rest := internAll intern (intern s v).2 vs
    ((intern s v).1 :: rest.1, rest.2)

lemma internAll_concat {σ ι : Type} (intern : σ → Value → ι × σ) (s : σ) (vs : List Value)
    (v : Value) :
    internAll intern s (vs ++ [v]) =
      ((internAll intern s vs).1 ++ [(intern (internAll intern s vs).2 v).1],
        (intern (internAll intern s vs).2 v).2) := by
  induction vs generalizing s with
  | nil => rfl
  | cons w vs ih => simp [internAll, ih]

lemma length_internAll {σ ι : Type} (intern : σ → Value → ι × σ) (s : σ) (vs : List Value) :
    (internAll intern s vs).1.length = vs.length := by
  induction vs generalizing s with
  | nil => rfl
  | cons w vs ih => simp [internAll, ih]

lemma PoolValid.internAll_eq_search {p : Pool} (h : PoolValid p) (requests : List Value) :
    PoolValid (internAll Pool.intern p requests).2 ∧
      (internAll Pool.intern p requests).1.map (Option.map UInt16.toNat) =
        (internAll searchIntern p.values.toList requests).1 ∧
      (internAll Pool.intern p requests).2.values.toList =
        (internAll searchIntern p.values.toList requests).2 := by
  induction requests generalizing p with
  | nil => exact ⟨h, rfl, rfl⟩
  | cons v vs ih =>
    obtain ⟨hvalid, hanswer, hvalues⟩ := h.intern_eq_search v
    obtain ⟨hvalid', hanswers, hvalues'⟩ := ih hvalid
    rw [hvalues] at hanswers hvalues'
    refine ⟨hvalid', ?_, hvalues'⟩
    rw [internAll, internAll, List.map_cons, hanswer, hanswers]

/-- The list holds the constants in the order of their first request, as far as there is room. -/
lemma search_entries (requests : List Value) :
    (internAll searchIntern [] requests).2 = requests.eraseDups.take Pool.capacity := by
  induction requests using List.reverseRecOn with
  | nil => rfl
  | append_singleton vs v ih =>
    obtain ⟨hvalid, -, hvalues⟩ := poolValid_empty.internAll_eq_search vs
    have hnodup : (vs.eraseDups.take Pool.capacity).Nodup := ih ▸ hvalues ▸ hvalid.nodup
    rw [internAll_concat, ih, eraseDups_concat]
    by_cases hv : v ∈ vs.eraseDups.take Pool.capacity
    · obtain ⟨n, hn⟩ := List.getElem?_of_mem hv
      have hmem : v ∈ vs := List.mem_eraseDups.mp (List.mem_of_mem_take hv)
      rw [searchIntern_of_getElem hnodup hn, if_pos hmem]
    · rw [searchIntern_of_not_mem hv, List.length_take]
      by_cases hfull : Pool.capacity ≤ vs.eraseDups.length
      · -- What was refused before and what is refused now stands behind the limit.
        rw [if_pos (by omega)]
        split_ifs
        · rfl
        · rw [List.take_append_of_le_length hfull]
      · have hall : vs.eraseDups.take Pool.capacity = vs.eraseDups :=
          List.take_of_length_le (by omega)
        rw [hall] at hv ⊢
        rw [if_neg (by omega), if_neg fun hmem => hv (List.mem_eraseDups.mpr hmem)]
        have hroom : (vs.eraseDups ++ [v]).length ≤ Pool.capacity := by
          rw [List.length_append, List.length_singleton]
          omega
        exact (List.take_of_length_le hroom).symm

lemma intern_refused {p : Pool} {v : Value} (h : (p.intern v).1 = none) : (p.intern v).2 = p := by
  cases hv : p.index[v.key]? with
  | some i => simp [Pool.intern, hv] at h
  | none =>
    by_cases hfull : Pool.capacity ≤ p.values.size
    · simp [Pool.intern, hv, hfull]
    · simp [Pool.intern, hv, hfull] at h

lemma PoolValid.intern_present {p : Pool} (h : PoolValid p) {v : Value} (hv : v ∈ p.values) :
    ∃ i, p.intern v = (some i, p) ∧ p.get? i = some v := by
  obtain ⟨n, hn⟩ := Array.getElem?_of_mem hv
  have hfound := h.found_at hn
  exact ⟨_, by simp [Pool.intern, hfound], h.found.mp hfound⟩

/-- A constant keeps its index: a request only adds behind the others. -/
lemma PoolValid.get_of_intern {p : Pool} (h : PoolValid p) {v w : Value} {i : UInt16}
    (hi : p.get? i = some w) : (p.intern v).2.get? i = some w := by
  have hmem : p.values.toList[i.toNat]? = some w := by
    rw [Array.getElem?_toList]
    exact hi
  have hprefix : p.values.toList <+: (p.intern v).2.values.toList := by
    cases hanswer : (p.intern v).1 with
    | none => rw [intern_refused hanswer]
    | some j => exact (h.intern (Prod.ext hanswer rfl)).2.2
  obtain ⟨more, hmore⟩ := hprefix
  rw [Pool.get?, ← Array.getElem?_toList, ← hmore,
    List.getElem?_append_left (List.getElem?_eq_some_iff.mp hmem).1]
  exact hmem

/-- So an index that was given stays good. -/
lemma get_of_answer {requests : List Value} {k : Nat} {v : Value} {i : UInt16}
    (hk : requests[k]? = some v)
    (hi : (internAll Pool.intern {} requests).1[k]? = some (some i)) :
    (internAll Pool.intern {} requests).2.get? i = some v := by
  induction requests using List.reverseRecOn with
  | nil => simp at hk
  | append_singleton vs w ih =>
    have hvalid := (poolValid_empty.internAll_eq_search vs).1
    have hlength := length_internAll Pool.intern {} vs
    rw [internAll_concat] at hi ⊢
    dsimp only at hi ⊢
    by_cases hlt : k < vs.length
    · rw [List.getElem?_append_left hlt] at hk
      rw [List.getElem?_append_left (by omega)] at hi
      exact hvalid.get_of_intern (ih hk hi)
    · have hend : k = vs.length := by
        have hle := (List.getElem?_eq_some_iff.mp hk).1
        rw [List.length_append, List.length_singleton] at hle
        omega
      rw [hend, List.getElem?_concat_length, Option.some.injEq] at hk
      rw [hend, ← hlength, List.getElem?_concat_length, Option.some.injEq] at hi
      rw [← hk]
      exact (hvalid.intern (Prod.ext hi rfl)).2.1

/-! ### The pool after any requests -/

/-- A pool after some requests and the answers that it gave to them. -/
structure Answered (requests : List Value) (answers : List (Option UInt16)) (pool : Pool) :
    Prop where
  distinct : pool.values.toList.Pairwise fun v w => ¬v.equal w
  /-- The constants stand in the order of their first request. -/
  order : pool.values.toList = requests.eraseDups.take 65536
  bounded : pool.values.size ≤ 65536
  /-- Every index that was given leads to its constant. -/
  kept : ∀ {k : Nat} {v : Value} {i : UInt16}, requests[k]? = some v → answers[k]? = some (some i) →
    ∃ w, pool.get? i = some w ∧ w.equal v
  /-- A request that is refused next changes nothing. -/
  refused : ∀ {v}, (pool.intern v).1 = none → (pool.intern v).2 = pool
  /-- A constant that is there is found, also in a full pool. -/
  present : ∀ {v w}, w ∈ pool.values → w.equal v → ∃ i, pool.intern v = (some i, pool) ∧
    pool.get? i = some w

/-- The pool with an index is the pool that searches its list: after every sequence of requests it
has given the same answers and holds the same constants. -/
theorem pool_answers_like_search (requests : List Value) :
    let answers := (internAll Pool.intern {} requests).1
    let pool := (internAll Pool.intern {} requests).2
    (∀ v w : Value, v.equal w ↔ v = w) ∧
      answers.map (Option.map UInt16.toNat) = (internAll searchIntern [] requests).1 ∧
      pool.values.toList = (internAll searchIntern [] requests).2 ∧
      Answered requests answers pool := by
  obtain ⟨hvalid, hanswers, hvalues⟩ := poolValid_empty.internAll_eq_search requests
  refine ⟨fun _ _ => equal_iff, hanswers, hvalues, ?_⟩
  exact {
    distinct := hvalid.nodup.imp fun hne heq => hne (equal_iff.mp heq)
    order := hvalues.trans (search_entries requests)
    bounded := hvalid.size_le
    kept := fun hk hi => ⟨_, get_of_answer hk hi, equal_iff.mpr rfl⟩
    refused := intern_refused
    present := fun hw heq => equal_iff.mp heq ▸ hvalid.intern_present hw }

end StackCode.Proofs
