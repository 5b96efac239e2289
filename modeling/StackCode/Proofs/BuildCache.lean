import StackCode.Cache.Basic
import StackCode.Proofs.CanonicalForm
import StackCode.Proofs.CborRoundTrip
import StackCode.Proofs.Folding

/-!
# What the build cache answers

A cache that started empty answers like compilation, unless the module does not compile and the
cache has kept the compilation of another module with the same canonical form. The form leaves out
what only the check of a module looks at, and a module that is found in the cache is not checked.
-/

namespace StackCode.Proofs

open Cbor Text

/-! ### Entries -/

lemma length_encode_le (e : Cache.Entry) :
    (Program.CborForm.encode e.program).length ≤ e.encode.length := by
  simp only [Cache.Entry.encode, ofNumbered, ofBytes, List.flatMap_cons, List.length_append]
  omega

lemma decode?_encode {e : Cache.Entry} (h : e.encode.length < 2 ^ 64) :
    Cache.Entry.decode? e.encode = if readable e.program then some e else none := by
  have hprogram := cbor_decode_encode (Nat.lt_of_le_of_lt (length_encode_le e) h)
  have hwritten : Written e.encode (.map (numberedEntries [
      (1, .bytes (Program.CborForm.encode e.program)), (2, integerItem e.stats.folded),
      (3, integerItem e.stats.removed)])) := by
    have hkeys : ∀ k ∈ [1, 2, 3], Written (Cbor.ofNat k) (.uint k) :=
      fun k hk => written_ofNat (by simp at hk; omega)
    refine written_keyed Cbor.ofNat .uint (fun f hf => hkeys f.1 (List.mem_map_of_mem hf)) ?_
    exact .cons ⟨rfl, written_ofBytes _⟩ (.cons ⟨rfl, written_ofInt64 _⟩
      (.cons ⟨rfl, written_ofInt64 _⟩ .nil))
  have hlimits : ∀ n, withinLimits 31 (integerItem n) = true := by
    intro n
    unfold integerItem
    split_ifs <;> rfl
  have hread : Cbor.read e.encode = some (.map (numberedEntries [
      (1, .bytes (Program.CborForm.encode e.program)), (2, integerItem e.stats.folded),
      (3, integerItem e.stats.removed)])) := by
    rw [read_written hwritten h, if_pos]
    simp [maxLevels, withinLimits, numberedEntries, hlimits, maxElements]
  have hrecord : toRecord? [.number 1, .number 2, .number 3] (.map (numberedEntries [
      (1, .bytes (Program.CborForm.encode e.program)), (2, integerItem e.stats.folded),
      (3, integerItem e.stats.removed)])) =
      some [(.number 1, .bytes (Program.CborForm.encode e.program)),
        (.number 2, integerItem e.stats.folded), (.number 3, integerItem e.stats.removed)] := by
    apply toRecord?_of_keys
    · exact .cons ⟨rfl, rfl, rfl⟩ (.cons ⟨rfl, rfl, rfl⟩ (.cons ⟨rfl, rfl, rfl⟩ .nil))
    · show [Key.number 1, Key.number 2, Key.number 3].Nodup
      decide
  unfold Cache.Entry.decode?
  rw [hread, Option.bind_some, hrecord]
  simp only [field?, toBytes?, untag, toInt64?_integerItem, Option.bind_eq_bind, Option.bind_some,
    List.find?_cons, decide_true, decide_false, Key.number.injEq, Nat.reduceEqDiff,
    Option.getD_some, hprogram]
  cases readable e.program <;> rfl

/-! ### Keys -/

lemma hexOfByte_inj {a b : UInt8} (h : hexOfByte a = hexOfByte b) : a = b := by
  have hdigit : ∀ m < 16, ∀ n < 16, hexDigit m = hexDigit n → m = n := by decide
  have ha := a.toNat_lt
  have hb := b.toNat_lt
  simp only [hexOfByte, hexOfNat, List.nil_append, List.cons_append, List.cons.injEq, and_true] at h
  have hhigh := hdigit _ (Nat.mod_lt _ (by omega)) _ (Nat.mod_lt _ (by omega)) h.1
  have hlow := hdigit _ (Nat.mod_lt _ (by omega)) _ (Nat.mod_lt _ (by omega)) h.2
  apply UInt8.toNat_inj.mp
  omega

lemma toHex_inj {t u : Text} (h : toHex t = toHex u) : t = u := by
  have hcons : ∀ (b : UInt8) (t : Text), toHex (b :: t) = hexOfByte b ++ toHex t := fun _ _ => rfl
  have hlength : ∀ b, (hexOfByte b).length = 2 := fun _ => rfl
  have hne : ∀ (b : UInt8) (t : Text), toHex (b :: t) ≠ [] := by
    intro b t hnil
    have hzero := congrArg List.length hnil
    rw [hcons, List.length_append, hlength, List.length_nil] at hzero
    omega
  induction t generalizing u with
  | nil =>
    cases u with
    | nil => rfl
    | cons c u => exact absurd h.symm (hne c u)
  | cons b t ih =>
    cases u with
    | nil => exact absurd h (hne b t)
    | cons c u =>
      rw [hcons, hcons] at h
      obtain ⟨hfirst, hrest⟩ := List.append_inj h (by rw [hlength, hlength])
      rw [hexOfByte_inj hfirst, ih hrest]

/-- What is hashed for the key of a module. -/
def hashed (optimize : Bool) (m : Module) : Text := m.canonical ++ [if optimize then 1 else 0]

lemma hashed_inj {o o' : Bool} {m m' : Module} (h : hashed o m = hashed o' m') :
    o = o' ∧ m.canonical = m'.canonical := by
  obtain ⟨hforms, hflags⟩ := List.append_inj' h rfl
  refine ⟨?_, hforms⟩
  cases o <;> cases o' <;> simp_all

/-! ### Histories -/

/-- What a cache is asked to do. -/
inductive Request where
  | compile (optimize : Bool) (m : Module)
  | purge

/-- The cache after a request. -/
def Request.perform (c : Cache) : Request → Cache
  | .compile optimize m => (c.compile optimize m).2
  | .purge =>
    match c.purge with
    | .ok (_, c) => c
    | .error _ => c

/-- The cache in a file that was empty before some requests. -/
def cacheAfter (path : Text) (history : List Request) : Cache :=
  history.foldl Request.perform { path }

lemma cacheAfter_snoc (path : Text) (history : List Request) (r : Request) :
    cacheAfter path (history ++ [r]) = r.perform (cacheAfter path history) := by
  simp [cacheAfter]

/-- The module with the given flag was compiled since the last purge. -/
def Recent (history : List Request) (optimize : Bool) (m : Module) : Prop :=
  ∃ before later, history = before ++ .compile optimize m :: later ∧ .purge ∉ later

/-- A module with texts, lists and numbers of ordinary size, whose compilation can be stored. -/
structure OrdinaryModule (optimize : Bool) (m : Module) : Prop where
  short : ShortModule m
  fits : ∀ f, some f ∈ m.functions → OperandsFit f.body
  stored : ∀ p, (m.compile optimize).result = .ok p →
    (Cache.Entry.encode ⟨p, (m.compile optimize).stats⟩).length < 2 ^ 64

/-- Requests for ordinary modules, whose hashes do not collide. -/
structure Ordinary (requests : List Request) : Prop where
  module : ∀ o m, .compile o m ∈ requests → OrdinaryModule o m
  collisionFree : ∀ o m o' m', .compile o m ∈ requests → .compile o' m' ∈ requests →
    Digest.sha256 (hashed o m) = Digest.sha256 (hashed o' m') → hashed o m = hashed o' m'

lemma buildKey_inj {requests : List Request} (h : Ordinary requests) {o o' : Bool} {m m' : Module}
    (hm : .compile o m ∈ requests) (hm' : .compile o' m' ∈ requests)
    (hkeys : m.buildKey o = m'.buildKey o') : o = o' ∧ m.canonical = m'.canonical :=
  hashed_inj (h.collisionFree o m o' m' hm hm' (toHex_inj hkeys))

lemma buildKey_congr {m m' : Module} (h : m.canonical = m'.canonical) (o : Bool) :
    m.buildKey o = m'.buildKey o := by
  unfold Module.buildKey
  rw [h]

/-- Where an element stands with only certain ones after it, in a list with one more at its end. -/
lemma exists_split_snoc {α : Type} {P : α → Prop} {l : List α} {last a : α} :
    (∃ before later, l ++ [last] = before ++ a :: later ∧ ∀ x ∈ later, P x) ↔
      last = a ∨ P last ∧ ∃ before later, l = before ++ a :: later ∧ ∀ x ∈ later, P x := by
  constructor
  · rintro ⟨before, later, heq, hlater⟩
    rcases List.eq_nil_or_concat later with rfl | ⟨front, x, rfl⟩
    · exact .inl (List.cons.inj (List.append_inj' heq rfl).2).1
    · rw [List.concat_eq_append] at heq hlater
      rw [← List.cons_append, ← List.append_assoc] at heq
      obtain ⟨hl, hlast⟩ := List.append_inj' heq rfl
      rw [List.forall_mem_append, List.forall_mem_singleton] at hlater
      refine .inr ⟨?_, before, front, hl, hlater.1⟩
      rw [(List.cons.inj hlast).1]
      exact hlater.2
  · rintro (rfl | ⟨hlast, before, later, rfl, hlater⟩)
    · exact ⟨l, [], rfl, by simp⟩
    · refine ⟨before, later ++ [last], by simp, ?_⟩
      rw [List.forall_mem_append, List.forall_mem_singleton]
      exact ⟨hlater, hlast⟩

lemma recent_snoc {history : List Request} {r : Request} {o : Bool} {m : Module} :
    Recent (history ++ [r]) o m ↔ r = .compile o m ∨ r ≠ .purge ∧ Recent history o m := by
  have hpurge : ∀ later : List Request, .purge ∉ later ↔ ∀ x ∈ later, x ≠ .purge := by
    intro later
    rw [List.forall_mem_ne']
  simp only [Recent, hpurge]
  exact exists_split_snoc

lemma Recent.mem {history : List Request} {o : Bool} {m : Module} (h : Recent history o m) :
    .compile o m ∈ history := by
  obtain ⟨before, later, rfl, -⟩ := h
  simp

/-! ### One request -/

lemma lookup_insertRow_self (c : Cache) (key data : Text) :
    (c.insertRow key data).rows.lookup key = some data := by
  simp [Cache.insertRow]

lemma lookup_insertRow_ne (c : Cache) {key key' : Text} (data : Text) (h : key' ≠ key) :
    (c.insertRow key data).rows.lookup key' = c.rows.lookup key' := by
  have hne : (key' == key) = false := by simpa using h
  have hfilter : ∀ rows : List (Text × Text),
      (rows.filter fun row => row.1 ≠ key).lookup key' = rows.lookup key' := by
    intro rows
    induction rows with
    | nil => rfl
    | cons row rows ih =>
      obtain ⟨k, d⟩ := row
      by_cases hk : k = key
      · subst hk
        simpa [List.lookup_cons, hne] using ih
      · rw [List.filter_cons_of_pos (by simpa using hk), List.lookup_cons, List.lookup_cons, ih]
  simp only [Cache.insertRow, List.lookup_cons, hne]
  exact hfilter c.rows

lemma get_eq_ok_iff {c : Cache} (hopen : c.isOpen = true) {key : Text} {e : Cache.Entry} :
    c.get key = .ok e ↔
      ∃ data, c.rows.lookup key = some data ∧ Cache.Entry.decode? data = some e := by
  unfold Cache.get
  rw [hopen]
  cases c.rows.lookup key with
  | none => simp
  | some data => cases hdata : Cache.Entry.decode? data <;> simp [hdata]

/-- A cache answers from a row that it can read; otherwise it compiles and keeps what it gets. -/
lemma compile_cases {c : Cache} (hopen : c.isOpen = true) (o : Bool) (m : Module) :
    (∃ e, c.get (m.buildKey o) = .ok e ∧ c.compile o m = (⟨⟨e.stats, .ok e.program⟩, true⟩, c)) ∨
      (∀ e, c.get (m.buildKey o) ≠ .ok e) ∧ (c.compile o m).1 = ⟨m.compile o, false⟩ ∧
        ((∃ p, (m.compile o).result = .ok p ∧ (c.compile o m).2 =
            c.insertRow (m.buildKey o) (Cache.Entry.encode ⟨p, (m.compile o).stats⟩)) ∨
          (∀ p, (m.compile o).result ≠ .ok p) ∧ (c.compile o m).2 = c) := by
  unfold Cache.compile
  dsimp only
  cases hget : c.get (m.buildKey o) with
  | ok e => exact .inl ⟨e, rfl, rfl⟩
  | error err =>
    right
    refine ⟨by simp, ?_⟩
    cases hresult : (m.compile o).result with
    | error e => simp
    | ok p => simp [Cache.put, hopen]

/-! ### All requests -/

/-- What a cache holds after some requests: what was compiled since the last purge, under its key,
and of that everything that can be read back. -/
structure Holds (history : List Request) (c : Cache) : Prop where
  isOpen : c.isOpen = true
  row : ∀ key data, c.rows.lookup key = some data → ∃ o m p, Recent history o m ∧
    (m.compile o).result = .ok p ∧ key = m.buildKey o ∧
    data = Cache.Entry.encode ⟨p, (m.compile o).stats⟩
  kept : ∀ o m p, Recent history o m → (m.compile o).result = .ok p → readable p = true →
    ∃ e, c.get (m.buildKey o) = .ok e

lemma Holds.compile {history : List Request} {c : Cache} (h : Holds history c) {o : Bool}
    {m : Module} (hord : Ordinary (history ++ [.compile o m])) :
    Holds (history ++ [.compile o m]) (c.compile o m).2 := by
  have hold : ∀ {o' m'}, Recent history o' m' → Recent (history ++ [.compile o m]) o' m' :=
    fun hrecent => recent_snoc.mpr (.inr ⟨by simp, hrecent⟩)
  have hnew : Recent (history ++ [.compile o m]) o m := recent_snoc.mpr (.inl rfl)
  have hrow : ∀ key data, c.rows.lookup key = some data → ∃ o' m' p,
      Recent (history ++ [.compile o m]) o' m' ∧ (m'.compile o').result = .ok p ∧
        key = m'.buildKey o' ∧ data = Cache.Entry.encode ⟨p, (m'.compile o').stats⟩ := by
    intro key data hlookup
    obtain ⟨o', m', p, hrecent, hparts⟩ := h.row key data hlookup
    exact ⟨o', m', p, hold hrecent, hparts⟩
  rcases compile_cases h.isOpen o m with
    ⟨e, hget, hcache⟩ | ⟨hmiss, -, ⟨p, hp, hcache⟩ | ⟨hfails, hcache⟩⟩
  · rw [hcache]
    refine ⟨h.isOpen, hrow, ?_⟩
    intro o' m' p hrecent hp hreadable
    rcases recent_snoc.mp hrecent with heq | ⟨-, hrecent⟩
    · cases heq
      exact ⟨e, hget⟩
    · exact h.kept o' m' p hrecent hp hreadable
  · rw [hcache]
    have hopen : (c.insertRow (m.buildKey o) (Cache.Entry.encode ⟨p, (m.compile o).stats⟩)).isOpen =
        true := h.isOpen
    refine ⟨hopen, ?_, ?_⟩
    · intro key data hlookup
      by_cases hkey : key = m.buildKey o
      · rw [hkey, lookup_insertRow_self] at hlookup
        exact ⟨o, m, p, hnew, hp, hkey, (Option.some.inj hlookup).symm⟩
      · rw [lookup_insertRow_ne c _ hkey] at hlookup
        exact hrow key data hlookup
    · intro o' m' p' hrecent hp' hreadable
      rcases recent_snoc.mp hrecent with heq | ⟨-, hrecent⟩
      · cases heq
        rw [hp] at hp'
        cases hp'
        have hstored := (hord.module o m (by simp)).stored p hp
        refine ⟨⟨p, (m.compile o).stats⟩,
          (get_eq_ok_iff hopen).mpr ⟨_, lookup_insertRow_self c _ _, ?_⟩⟩
        rw [decode?_encode hstored, if_pos hreadable]
      · obtain ⟨e, hget⟩ := h.kept o' m' p' hrecent hp' hreadable
        -- the new row replaces no kept one: under its key nothing was found
        have hkey : m'.buildKey o' ≠ m.buildKey o := fun heq => hmiss e (heq ▸ hget)
        obtain ⟨data, hlookup, hdata⟩ := (get_eq_ok_iff h.isOpen).mp hget
        refine ⟨e, (get_eq_ok_iff hopen).mpr ⟨data, ?_, hdata⟩⟩
        rw [lookup_insertRow_ne c _ hkey, hlookup]
  · rw [hcache]
    refine ⟨h.isOpen, hrow, ?_⟩
    intro o' m' p hrecent hp hreadable
    rcases recent_snoc.mp hrecent with heq | ⟨-, hrecent⟩
    · cases heq
      exact absurd hp (hfails p)
    · exact h.kept o' m' p hrecent hp hreadable

lemma Holds.purge {history : List Request} {c : Cache} (h : Holds history c) :
    Holds (history ++ [.purge]) (Request.perform c .purge) := by
  have hperform : Request.perform c .purge = { c with rows := [] } := by
    simp [Request.perform, Cache.purge, h.isOpen]
  rw [hperform]
  refine ⟨h.isOpen, by simp, ?_⟩
  intro o m p hrecent
  rcases recent_snoc.mp hrecent with heq | ⟨hne, -⟩
  · cases heq
  · exact absurd rfl hne

lemma Ordinary.subset {requests requests' : List Request} (h : Ordinary requests)
    (hsub : requests' ⊆ requests) : Ordinary requests' where
  module o m hm := h.module o m (hsub hm)
  collisionFree o m o' m' hm hm' := h.collisionFree o m o' m' (hsub hm) (hsub hm')

lemma holds_cacheAfter (path : Text) {history : List Request} (h : Ordinary history) :
    Holds history (cacheAfter path history) := by
  induction history using List.reverseRecOn with
  | nil =>
    refine ⟨rfl, by simp [cacheAfter], ?_⟩
    rintro o m p ⟨before, later, heq, -⟩
    simp at heq
  | append_singleton history r ih =>
    have hbefore := ih (h.subset (List.subset_append_left history [r]))
    rw [cacheAfter_snoc]
    cases r with
    | compile o m => exact hbefore.compile h
    | purge => exact hbefore.purge

/-- The cache has kept the compilation of a module with the same canonical form. -/
def Remembered (history : List Request) (optimize : Bool) (m : Module) : Prop :=
  ∃ m' p, Recent history optimize m' ∧ m'.canonical = m.canonical ∧
    (m'.compile optimize).result = .ok p ∧ readable p = true

/-- A cache answers with the compilation of a module with the same canonical form if it has kept
one, and compiles the module otherwise. -/
lemma answer_cases (path : Text) {history : List Request} {optimize : Bool} {m : Module}
    (h : Ordinary (history ++ [.compile optimize m])) :
    (∃ m' p, Recent history optimize m' ∧ m'.canonical = m.canonical ∧
        (m'.compile optimize).result = .ok p ∧ readable p = true ∧
        ((cacheAfter path history).compile optimize m).1 = ⟨m'.compile optimize, true⟩) ∨
      ¬Remembered history optimize m ∧
        ((cacheAfter path history).compile optimize m).1 = ⟨m.compile optimize, false⟩ := by
  have hholds := holds_cacheAfter path (h.subset (List.subset_append_left history _))
  rcases compile_cases hholds.isOpen optimize m with ⟨e, hget, hanswer⟩ | ⟨hmiss, hanswer, -⟩
  · left
    obtain ⟨data, hlookup, hdata⟩ := (get_eq_ok_iff hholds.isOpen).mp hget
    obtain ⟨o, m', p, hrecent, hp, hkey, rfl⟩ := hholds.row _ data hlookup
    have hmem : .compile o m' ∈ history ++ [.compile optimize m] :=
      List.mem_append_left _ hrecent.mem
    obtain ⟨rfl, hform⟩ := buildKey_inj h (by simp) hmem hkey
    rw [decode?_encode ((h.module _ m' hmem).stored p hp)] at hdata
    split_ifs at hdata with hreadable
    cases hdata
    refine ⟨m', p, hrecent, hform.symm, hp, hreadable, ?_⟩
    rw [hanswer, ← hp]
  · right
    refine ⟨?_, hanswer⟩
    rintro ⟨m', p, hrecent, hform, hp, hreadable⟩
    obtain ⟨e, hget⟩ := hholds.kept optimize m' p hrecent hp hreadable
    rw [buildKey_congr hform] at hget
    exact hmiss e hget

lemma operandsFit_optimize {f : Function} (h : OperandsFit f.body) :
    OperandsFit f.optimize.1.body := by
  obtain ⟨kept, rest, hbody, hfolds, -⟩ := folds_optimize f
  intro i hi piece hpiece
  rcases hfolds.mem_or_const hi with hmem | ⟨v, rfl⟩
  · exact h i (by rw [hbody]; simp [hmem]) piece hpiece
  · rw [List.mem_singleton.mp hpiece]
    trivial

lemma operandsFit_prepared {m : Module} (h : ∀ f, some f ∈ m.functions → OperandsFit f.body)
    (optimize : Bool) (g : Function) (hg : some g ∈ (prepared optimize m).functions) :
    OperandsFit g.body := by
  cases optimize with
  | false => exact h g hg
  | true =>
    have hmem : some g ∈ m.functions.map (Option.map fun f => f.optimize.1) :=
      functions_optimize m ▸ hg
    obtain ⟨slot, hslot, heq⟩ := List.mem_map.mp hmem
    obtain ⟨f, rfl, rfl⟩ := Option.map_eq_some_iff.mp heq
    exact operandsFit_optimize (h f hslot)

/-- After any requests, a cache that started empty answers from its rows exactly if it remembers the
form of the module. The answer is that of compilation exactly if the module compiles or is not
remembered, and always if the form describes the module. -/
theorem cache_answers_like_compile (path : Text) {history : List Request} {optimize : Bool}
    {m : Module} (h : Ordinary (history ++ [.compile optimize m])) :
    let answer := ((cacheAfter path history).compile optimize m).1
    (answer.hit = true ↔ Remembered history optimize m) ∧
      (answer.outcome = m.compile optimize ↔
        (∃ p, (m.compile optimize).result = .ok p) ∨ ¬Remembered history optimize m) ∧
      (FormFaithful m → answer.outcome = m.compile optimize) := by
  dsimp only
  rcases answer_cases path h with ⟨m', p, hrecent, hform, hp, hreadable, hanswer⟩ | ⟨hnew, hanswer⟩
  · have hremembered : Remembered history optimize m := ⟨m', p, hrecent, hform, hp, hreadable⟩
    have hm := h.module optimize m (by simp)
    have hm' := h.module optimize m' (List.mem_append_left _ hrecent.mem)
    have hsame : FormFaithful m → m'.compile optimize = m.compile optimize := fun hfaithful =>
      (compile_eq_of_canonical_eq hm'.short hm.short hp hfaithful
        (operandsFit_prepared hm.fits optimize) hform).symm
    rw [hanswer]
    refine ⟨by simp [hremembered], ?_, hsame⟩
    constructor
    · intro heq
      exact .inl ⟨p, heq ▸ hp⟩
    · rintro (⟨q, hq⟩ | hnot)
      · exact hsame (formFaithful_of_compile hq)
      · exact absurd hremembered hnot
  · rw [hanswer]
    exact ⟨by simp [hnew], by simp [hnew], fun _ => rfl⟩

/-- Two modules with one form leave nothing to collide. -/
lemma ordinary_pair {o : Bool} {m m' : Module} (hm : OrdinaryModule o m)
    (hm' : OrdinaryModule o m') (hform : m.canonical = m'.canonical) :
    Ordinary ([.compile o m] ++ [.compile o m']) := by
  have hhashed : hashed o m = hashed o m' := by rw [hashed, hashed, hform]
  constructor
  · intro o' n hn
    simp only [List.mem_append, List.mem_singleton, Request.compile.injEq] at hn
    rcases hn with ⟨rfl, rfl⟩ | ⟨rfl, rfl⟩
    · exact hm
    · exact hm'
  · intro o₁ m₁ o₂ m₂ h₁ h₂ _
    simp only [List.mem_append, List.mem_singleton, Request.compile.injEq] at h₁ h₂
    rcases h₁ with ⟨rfl, rfl⟩ | ⟨rfl, rfl⟩ <;> rcases h₂ with ⟨rfl, rfl⟩ | ⟨rfl, rfl⟩ <;>
      simp [hhashed]

lemma ordinary_looping {x top : Text} (hx : Short x)
    (hcompile : (looping x top).compile true = ⟨⟨1, 1⟩, .ok loopingProgram⟩) :
    OrdinaryModule true (looping x top) := by
  refine ⟨shortModule_looping hx top, ?_, ?_⟩
  · intro f hf
    simp only [looping, List.mem_singleton, Option.some.injEq] at hf
    subst hf
    simp [OperandsFit, Emit.pieces, OperandFits, BinOp.opcode?, Instr.stackEffect]
  · intro p hp
    rw [hcompile] at hp ⊢
    cases hp
    have hlength : (Cache.Entry.encode ⟨loopingProgram, ⟨1, 1⟩⟩).length = 112 := by cbv
    rw [hlength]
    norm_num

theorem renamed_loop_served :
    Ordinary ([.compile true (looping "x" "top")] ++ [.compile true (looping "last" "x")]) ∧
      Remembered [.compile true (looping "x" "top")] true (looping "last" "x") ∧
      ((cacheAfter [] [.compile true (looping "x" "top")]).compile true
        (looping "last" "x")).1.hit = true ∧
      ((cacheAfter [] [.compile true (looping "x" "top")]).compile true
        (looping "last" "x")).1.outcome = (looping "last" "x").compile true := by
  have hfirst : (looping "x" "top").compile true = ⟨⟨1, 1⟩, .ok loopingProgram⟩ := by cbv
  have hsecond : (looping "last" "x").compile true = ⟨⟨1, 1⟩, .ok loopingProgram⟩ := by cbv
  have hx : Short ("x" : Text) := by unfold Short; decide
  have hlast : Short ("last" : Text) := by unfold Short; decide
  have hform : (looping "x" "top").canonical = (looping "last" "x").canonical := by cbv
  have hord := ordinary_pair (ordinary_looping hx hfirst) (ordinary_looping hlast hsecond) hform
  have hremembered : Remembered [.compile true (looping "x" "top")] true (looping "last" "x") :=
    ⟨_, loopingProgram, ⟨[], [], rfl, by simp⟩, hform, by rw [hfirst], by decide⟩
  obtain ⟨hhit, houtcome, -⟩ := cache_answers_like_compile [] hord
  refine ⟨hord, hremembered, hhit.mpr hremembered, houtcome.mpr (.inl ⟨loopingProgram, ?_⟩)⟩
  rw [hsecond]

/-- Returns the first of two parameters. -/
def selecting (x y : Text) : Module where
  functions := [some { name := "f", params := [⟨x, []⟩, ⟨y, []⟩], body := [.load x, .ret] }]

def selectingProgram : Program where
  functions := [{ name := "f", code := some #[32, 0, 240], params := 2 }]

lemma ordinary_selecting {y : Text}
    (hstored : ∀ p, ((selecting "x" y).compile false).result = .ok p →
      (Cache.Entry.encode ⟨p, ((selecting "x" y).compile false).stats⟩).length < 2 ^ 64) :
    OrdinaryModule false (selecting "x" y) := by
  have hf : Short ("f" : Text) := by unfold Short; decide
  have hx : Short ("x" : Text) := by unfold Short; decide
  refine ⟨⟨by simp [selecting], ?_, by simp [selecting], by simp [selecting]⟩, ?_, hstored⟩
  · intro f hmem
    simp only [selecting, List.mem_singleton, Option.some.injEq] at hmem
    subst hmem
    exact ⟨hf, by simp, by simp [ShortInstr, hx]⟩
  · intro f hmem
    simp only [selecting, List.mem_singleton, Option.some.injEq] at hmem
    subst hmem
    simp [OperandsFit, Emit.pieces, OperandFits]

/-- A module that names two parameters alike is not compiled, but a cache that has seen the module
with different names serves the program of that one. -/
theorem repeated_parameter_served :
    ((selecting "x" "x").compile false).result =
        .error (.invalid [.duplicateVariable "f" "x"]) ∧
      ((cacheAfter [] [.compile false (selecting "x" "y")]).compile false
        (selecting "x" "x")).1.outcome.result = .ok selectingProgram ∧
      ((cacheAfter [] [.compile false (selecting "x" "y")]).compile false
        (selecting "x" "x")).1.outcome ≠ (selecting "x" "x").compile false := by
  have hvalid : (selecting "x" "y").compile false = ⟨{}, .ok selectingProgram⟩ := by cbv
  have hinvalid : (selecting "x" "x").compile false =
      ⟨{}, .error (.invalid [.duplicateVariable "f" "x"])⟩ := by cbv
  have hform : (selecting "x" "y").canonical = (selecting "x" "x").canonical := by cbv
  have hord : Ordinary
      ([.compile false (selecting "x" "y")] ++ [.compile false (selecting "x" "x")]) := by
    apply ordinary_pair (ordinary_selecting ?_) (ordinary_selecting ?_) hform
    · intro p hp
      rw [hvalid] at hp ⊢
      cases hp
      have hlength : (Cache.Entry.encode ⟨selectingProgram, {}⟩).length = 84 := by cbv
      rw [hlength]
      norm_num
    · intro p hp
      rw [hinvalid] at hp
      cases hp
  have hremembered : Remembered [.compile false (selecting "x" "y")] false (selecting "x" "x") :=
    ⟨_, selectingProgram, ⟨[], [], rfl, by simp⟩, hform, by rw [hvalid], by decide⟩
  rcases answer_cases [] hord with ⟨m', p, hrecent, -, -, -, hanswer⟩ | ⟨hnew, -⟩
  · have hm' : m' = selecting "x" "y" := by
      have hmem := hrecent.mem
      simp only [List.mem_singleton, Request.compile.injEq, true_and] at hmem
      exact hmem
    rw [hanswer, hm', hvalid, hinvalid]
    simp
  · exact absurd hremembered hnew

end StackCode.Proofs
