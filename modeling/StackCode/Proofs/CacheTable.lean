import StackCode.Proofs.BuildCache
import StackCode.Proofs.StoredForms

/-!
# The cache as a table

What was put under a key last is what stands under it, up to the next purge. It is given back as it
was put if it can be read at all: the cache keeps every program, but it reads only programs whose
texts are UTF-8 and whose lists keep the limits of reading.
-/

namespace StackCode.Proofs

open Text

/-! ### Requests -/

/-- What a table is asked to do. -/
inductive TableRequest where
  | put (key : Text) (entry : Cache.Entry)
  | get (key : Text)
  | purge

/-- The cache after a request. -/
def TableRequest.perform (c : Cache) : TableRequest → Cache
  | .put key entry =>
    match c.put key entry with
    | .ok c => c
    | .error _ => c
  | .get _ => c
  | .purge =>
    match c.purge with
    | .ok (_, c) => c
    | .error _ => c

/-- The cache in a file that was empty before some requests. -/
def tableAfter (path : Text) (requests : List TableRequest) : Cache :=
  requests.foldl TableRequest.perform { path }

/-- The request decides what stands under the key. -/
def TableRequest.Decides (key : Text) : TableRequest → Prop
  | .put k _ => k = key
  | .get _ => False
  | .purge => True

/-- The entry is what was put under the key last, and there was no purge since. -/
def LastPut (requests : List TableRequest) (key : Text) (entry : Cache.Entry) : Prop :=
  ∃ before later, requests = before ++ .put key entry :: later ∧ ∀ r ∈ later, ¬r.Decides key

lemma not_lastPut_nil (key : Text) (entry : Cache.Entry) : ¬LastPut [] key entry := by
  rintro ⟨before, later, heq, -⟩
  simp at heq

lemma lastPut_snoc {requests : List TableRequest} {r : TableRequest} {key : Text}
    {entry : Cache.Entry} :
    LastPut (requests ++ [r]) key entry ↔
      r = .put key entry ∨ ¬r.Decides key ∧ LastPut requests key entry :=
  exists_split_snoc

lemma lastPut_put {requests : List TableRequest} {key other : Text} {entry entry' : Cache.Entry} :
    LastPut (requests ++ [.put other entry']) key entry ↔
      (other = key ∧ entry' = entry) ∨ other ≠ key ∧ LastPut requests key entry := by
  rw [lastPut_snoc, TableRequest.put.injEq]
  rfl

/-! ### One request -/

lemma perform_put {c : Cache} (hopen : c.isOpen = true) (key : Text) (entry : Cache.Entry) :
    (TableRequest.put key entry).perform c = c.insertRow key entry.encode := by
  simp [TableRequest.perform, Cache.put, hopen]

lemma perform_purge {c : Cache} (hopen : c.isOpen = true) :
    TableRequest.purge.perform c = { c with rows := [] } := by
  simp [TableRequest.perform, Cache.purge, hopen]

lemma nodup_insertRow {c : Cache} (h : (c.rows.map Prod.fst).Nodup) (key data : Text) :
    ((c.insertRow key data).rows.map Prod.fst).Nodup := by
  have hkept : ((c.rows.filter fun row => row.1 ≠ key).map Prod.fst).Sublist
      (c.rows.map Prod.fst) := List.filter_sublist.map Prod.fst
  show (key :: (c.rows.filter fun row => row.1 ≠ key).map Prod.fst).Nodup
  refine List.nodup_cons.mpr ⟨?_, h.sublist hkept⟩
  intro hmem
  obtain ⟨row, hrow, hkey⟩ := List.mem_map.mp hmem
  exact absurd hkey (by simpa using (List.mem_filter.mp hrow).2)

/-- What a cache holds after some requests: under each key the bytes of the last entry. -/
structure Tabled (requests : List TableRequest) (c : Cache) : Prop where
  isOpen : c.isOpen = true
  nodup : (c.rows.map Prod.fst).Nodup
  lookup : ∀ key data, c.rows.lookup key = some data ↔
    ∃ entry, LastPut requests key entry ∧ data = entry.encode

lemma Tabled.put {requests : List TableRequest} {c : Cache} (h : Tabled requests c) (key : Text)
    (entry : Cache.Entry) :
    Tabled (requests ++ [.put key entry]) ((TableRequest.put key entry).perform c) := by
  rw [perform_put h.isOpen]
  refine ⟨h.isOpen, nodup_insertRow h.nodup key entry.encode, ?_⟩
  intro other data
  by_cases hkey : other = key
  · subst hkey
    rw [lookup_insertRow_self]
    simp [lastPut_put, eq_comm]
  · rw [lookup_insertRow_ne c _ hkey, h.lookup]
    simp [lastPut_put, Ne.symm hkey]

lemma Tabled.get {requests : List TableRequest} {c : Cache} (h : Tabled requests c) (key : Text) :
    Tabled (requests ++ [.get key]) c := by
  refine ⟨h.isOpen, h.nodup, ?_⟩
  intro other data
  rw [h.lookup]
  simp [lastPut_snoc, TableRequest.Decides]

lemma Tabled.purge {requests : List TableRequest} {c : Cache} (h : Tabled requests c) :
    Tabled (requests ++ [.purge]) (TableRequest.purge.perform c) := by
  rw [perform_purge h.isOpen]
  refine ⟨h.isOpen, List.nodup_nil, ?_⟩
  intro other data
  simp [lastPut_snoc, TableRequest.Decides]

/-! ### All requests -/

lemma tabled_tableAfter (path : Text) (requests : List TableRequest) :
    Tabled requests (tableAfter path requests) := by
  induction requests using List.reverseRecOn with
  | nil =>
    refine ⟨rfl, List.nodup_nil, ?_⟩
    intro key data
    simp [tableAfter, not_lastPut_nil]
  | append_singleton requests r ih =>
    have hlast : tableAfter path (requests ++ [r]) = r.perform (tableAfter path requests) := by
      simp [tableAfter]
    rw [hlast]
    cases r with
    | put key entry => exact ih.put key entry
    | get key => exact ih.get key
    | purge => exact ih.purge

lemma mem_keys_iff {rows : List (Text × Text)} {key : Text} :
    key ∈ rows.map Prod.fst ↔ ∃ data, rows.lookup key = some data := by
  rw [← Option.isSome_iff_exists, List.lookup_isSome_iff, List.mem_map]
  constructor
  · rintro ⟨row, hrow, rfl⟩
    exact ⟨row, hrow, beq_self_eq_true row.1⟩
  · rintro ⟨row, hrow, hkey⟩
    exact ⟨row, hrow, (beq_iff_eq.mp hkey).symm⟩

/-- There are as many rows as keys under which something was put since the last purge. -/
lemma Tabled.length_rows {requests : List TableRequest} {c : Cache} (h : Tabled requests c) :
    c.rows.length = Set.ncard {key | ∃ entry, LastPut requests key entry} := by
  have hkeys : {key | ∃ entry, LastPut requests key entry} =
      ((c.rows.map Prod.fst).toFinset : Set Text) := by
    ext key
    rw [List.coe_toFinset, Set.mem_ofPred_eq, Set.mem_ofPred_eq, mem_keys_iff]
    simp only [h.lookup]
    constructor
    · rintro ⟨entry, hentry⟩
      exact ⟨_, entry, hentry, rfl⟩
    · rintro ⟨_, entry, hentry, -⟩
      exact ⟨entry, hentry⟩
  rw [hkeys, Set.ncard_coe_finset, List.toFinset_card_of_nodup h.nodup, List.length_map]

/-- A program that the cache can read back. -/
structure ReadsBack (p : Program) : Prop where
  texts : Utf8Texts p
  functions : p.functions.length ≤ 131072
  constants : p.constants.length ≤ 131072
  symbols : p.symbols.length ≤ 131072

lemma readable_iff {p : Program} : readable p = true ↔ ReadsBack p := by
  rw [readable, Bool.and_eq_true, textsAreUtf8_iff]
  simp only [listsAreReadable, Bool.and_eq_true, decide_eq_true_eq]
  constructor
  · rintro ⟨⟨⟨hfunctions, hconstants⟩, hsymbols⟩, htexts⟩
    exact ⟨htexts, hfunctions, hconstants, hsymbols⟩
  · rintro ⟨htexts, hfunctions, hconstants, hsymbols⟩
    exact ⟨⟨⟨hfunctions, hconstants⟩, hsymbols⟩, htexts⟩

lemma LastPut.mem {requests : List TableRequest} {key : Text} {entry : Cache.Entry}
    (h : LastPut requests key entry) : .put key entry ∈ requests := by
  obtain ⟨before, later, rfl, -⟩ := h
  simp

lemma Tabled.get_of_lastPut {requests : List TableRequest} {c : Cache} (h : Tabled requests c)
    {key : Text} {entry : Cache.Entry} (hlast : LastPut requests key entry)
    (hsize : entry.encode.length < 2 ^ 64) :
    c.get key = if readable entry.program then .ok entry else .error .corrupt := by
  have hrow := (h.lookup key _).mpr ⟨entry, hlast, rfl⟩
  rw [Cache.get, h.isOpen, hrow]
  simp only [decode?_encode hsize]
  cases readable entry.program <;> rfl

lemma Tabled.get_of_no_put {requests : List TableRequest} {c : Cache} (h : Tabled requests c)
    {key : Text} (hnone : ¬∃ entry, LastPut requests key entry) :
    c.get key = .error .notFound := by
  have hrow : c.rows.lookup key = none := by
    rw [Option.eq_none_iff_forall_ne_some]
    intro data hdata
    obtain ⟨entry, hlast, -⟩ := (h.lookup key data).mp hdata
    exact hnone ⟨entry, hlast⟩
  rw [Cache.get, h.isOpen, hrow]
  rfl

/-- A cache answers a key with what was put under it last since the last purge, if that can be read
back, and fails otherwise: as not found exactly if nothing was put. It keeps every entry, and its
size is the number of keys with one. The length of what is kept is a number of 64 bits. -/
theorem table_answers_last_put (path : Text) {requests : List TableRequest}
    (hsize : ∀ key entry, .put key entry ∈ requests → entry.encode.length < 2 ^ 64) (key : Text) :
    let c := tableAfter path requests
    (∀ entry, c.get key = .ok entry ↔ LastPut requests key entry ∧ ReadsBack entry.program) ∧
      (c.get key = .error .corrupt ↔
        ∃ entry, LastPut requests key entry ∧ ¬ReadsBack entry.program) ∧
      (c.get key = .error .notFound ↔ ¬∃ entry, LastPut requests key entry) ∧
      c.size = .ok (Set.ncard {key | ∃ entry, LastPut requests key entry}) ∧
      (∀ entry, ∃ c', c.put key entry = .ok c') ∧
      ∃ c', c.purge = .ok (Set.ncard {key | ∃ entry, LastPut requests key entry}, c') := by
  intro c
  have htabled : Tabled requests c := tabled_tableAfter path requests
  have hsizes : c.size = .ok c.rows.length ∧ (∀ entry, ∃ c', c.put key entry = .ok c') ∧
      ∃ c', c.purge = .ok (c.rows.length, c') := by
    simp [Cache.size, Cache.put, Cache.purge, htabled.isOpen]
  rw [htabled.length_rows] at hsizes
  have hget : ∀ entry, LastPut requests key entry →
      c.get key = if readable entry.program then .ok entry else .error .corrupt :=
    fun entry hlast => htabled.get_of_lastPut hlast (hsize key entry hlast.mem)
  by_cases hput : ∃ entry, LastPut requests key entry
  · obtain ⟨last, hlast⟩ := hput
    refine ⟨?_, ?_, ?_, hsizes⟩
    · intro entry
      constructor
      · intro hok
        rw [hget last hlast] at hok
        split_ifs at hok with hreadable
        cases hok
        exact ⟨hlast, readable_iff.mp hreadable⟩
      · rintro ⟨hentry, hreads⟩
        rw [hget entry hentry, if_pos (readable_iff.mpr hreads)]
    · constructor
      · intro hcorrupt
        rw [hget last hlast] at hcorrupt
        split_ifs at hcorrupt with hreadable
        exact ⟨last, hlast, fun hreads => hreadable (readable_iff.mpr hreads)⟩
      · rintro ⟨entry, hentry, hreads⟩
        rw [hget entry hentry, if_neg fun hreadable => hreads (readable_iff.mp hreadable)]
    · rw [hget last hlast]
      refine iff_of_false ?_ (not_not.mpr ⟨last, hlast⟩)
      split_ifs <;> simp
  · have hnone : ∀ entry, ¬LastPut requests key entry := not_exists.mp hput
    rw [htabled.get_of_no_put hput]
    refine ⟨?_, ?_, ?_, hsizes⟩ <;> simp [hnone]

/-- An entry that replaces one with half a character, after a purge. -/
theorem replaced_entry_answered :
    let entry : Cache.Entry := ⟨mixedProgram "値é", ⟨-3, 2⟩⟩
    let requests : List TableRequest :=
      [.put "b" entry, .purge, .put "k" ⟨mixedProgram [0xC3], ⟨0, 0⟩⟩, .put "k" entry, .get "b"]
    (∀ key entry, .put key entry ∈ requests → entry.encode.length < 2 ^ 64) ∧
      (tableAfter [] requests).get "k" = .ok entry ∧
      (tableAfter [] requests).get "b" = .error .notFound := by
  intro entry requests
  have hlength : entry.encode.length = 220 := by decide +kernel
  have hlength' : (Cache.Entry.encode ⟨mixedProgram [0xC3], ⟨0, 0⟩⟩).length = 216 := by
    decide +kernel
  have hsize : ∀ key entry, .put key entry ∈ requests → entry.encode.length < 2 ^ 64 := by
    intro key e hmem
    simp only [requests, List.mem_cons, TableRequest.put.injEq, List.not_mem_nil, reduceCtorEq,
      false_or, or_false] at hmem
    rcases hmem with ⟨-, rfl⟩ | ⟨-, rfl⟩ | ⟨-, rfl⟩
    · omega
    · omega
    · omega
  have hlast : LastPut requests "k" entry :=
    ⟨[.put "b" entry, .purge, .put "k" ⟨mixedProgram [0xC3], ⟨0, 0⟩⟩], [.get "b"], rfl,
      by simp [TableRequest.Decides]⟩
  have hnone : ¬∃ e, LastPut requests "b" e := by
    have hsplit : requests = [TableRequest.put "b" entry] ++ [TableRequest.purge] ++
        [TableRequest.put "k" ⟨mixedProgram [0xC3], ⟨0, 0⟩⟩] ++ [TableRequest.put "k" entry] ++
        [TableRequest.get "b"] := rfl
    rw [hsplit]
    simp +decide only [lastPut_snoc, TableRequest.put.injEq, TableRequest.Decides]
    simp
  obtain ⟨hget, -⟩ := table_answers_last_put [] hsize "k"
  obtain ⟨-, -, hmissing, -⟩ := table_answers_last_put [] hsize "b"
  exact ⟨hsize, (hget entry).mpr ⟨hlast, readable_iff.mp (by decide +kernel)⟩, hmissing.mpr hnone⟩

/-- Loads a string constant of one byte that is no character. -/
def byteProgram : Program where
  functions := [⟨"f", some #[16, 0, 0, 240], 0, 0⟩]
  constants := [.str [0xFF]]

/-- What was put under a key is neither given back nor reported as not found. -/
theorem byte_string_not_given_back :
    let requests : List TableRequest := [.put "k" ⟨byteProgram, ⟨0, 0⟩⟩]
    LastPut requests "k" ⟨byteProgram, ⟨0, 0⟩⟩ ∧
      (tableAfter [] requests).get "k" = .error .corrupt := by
  intro requests
  have hlast : LastPut requests "k" ⟨byteProgram, ⟨0, 0⟩⟩ := ⟨[], [], rfl, by simp⟩
  have hlength : (Cache.Entry.encode ⟨byteProgram, ⟨0, 0⟩⟩).length = 93 := by decide +kernel
  have hunreadable : readable byteProgram = false := by decide +kernel
  refine ⟨hlast, ?_⟩
  rw [(tabled_tableAfter [] requests).get_of_lastPut hlast (by omega), hunreadable]
  rfl

end StackCode.Proofs
