import StackCode.Proofs.ArtifactLoading
import StackCode.Proofs.KeptAnswers
import StackCode.Server.Service

/-!
# What a loader keeps

A loader keeps modules and its resolver keeps paths. The two are filled at different points of a
load, which can fail in between, and the files may change at any time. Whatever happens, a module
that is kept was verified, exports the symbols of its program, and has the path that the resolver
keeps for its name.
-/

namespace StackCode.Proofs

open Text

/-! ### Modules -/

/-- The number is that of the first function of the given name. -/
def FirstNamed (p : Program) (name : Text) (i : Nat) : Prop :=
  (∃ r, p.functions[i]? = some r ∧ r.name = name) ∧
    ∀ j < i, ∀ r, p.functions[j]? = some r → r.name ≠ name

/-- The export table lists the symbols of the program, each once and with the first function of that
name. -/
structure ExportsSymbols (m : LoadedModule) : Prop where
  nodup : (m.exports.map Prod.fst).Nodup
  listed : ∀ symbol ∈ m.program.symbols, ∃ i, m.export? symbol = some i
  linked : ∀ symbol i, m.export? symbol = some i →
    symbol ∈ m.program.symbols ∧ FirstNamed m.program symbol i

lemma indexOf?_eq_some_iff {p : Program} {name : Text} {i : Nat} :
    p.indexOf? name = some i ↔ FirstNamed p name i := by
  rw [Program.indexOf?, List.findIdx?_eq_some_iff_getElem, FirstNamed]
  constructor
  · rintro ⟨hlt, hname, hbefore⟩
    refine ⟨⟨p.functions[i], List.getElem?_eq_getElem hlt, by simpa using hname⟩, ?_⟩
    intro j hj r hr
    obtain ⟨hlt', rfl⟩ := List.getElem?_eq_some_iff.mp hr
    simpa using hbefore j hj
  · rintro ⟨⟨r, hr, hname⟩, hbefore⟩
    obtain ⟨hlt, rfl⟩ := List.getElem?_eq_some_iff.mp hr
    refine ⟨hlt, by simpa using hname, ?_⟩
    intro j hj
    simpa using hbefore j hj _ (List.getElem?_eq_getElem (hj.trans hlt))

/-- A table that was linked has each symbol once, and every symbol names a function. -/
lemma known_of_linked {p : Program} {symbols : List Text} {table : List (Text × Nat)}
    (h : symbols.foldlM (link p) [] = .ok table) :
    (table.map Prod.fst).Nodup ∧ ∀ s ∈ symbols, s ∈ p.functions.map Routine.name := by
  induction symbols using List.reverseRecOn generalizing table with
  | nil =>
    cases h
    exact ⟨List.nodup_nil, by simp⟩
  | append_singleton symbols symbol ih =>
    rw [List.foldlM_append] at h
    obtain ⟨before, hbefore, hlast⟩ := bind_eq_ok_iff.mp h
    obtain ⟨hnodup, hknown⟩ := ih hbefore
    obtain ⟨after, hlink, hdone⟩ := bind_eq_ok_iff.mp hlast
    cases hdone
    unfold link at hlink
    cases hi : p.indexOf? symbol with
    | none => simp [hi] at hlink
    | some i =>
      simp only [hi, Except.ok.injEq] at hlink
      have hsymbol : symbol ∈ p.functions.map Routine.name := by
        rw [← List.isSome_idxOf?, ← indexOf?_eq_idxOf?, hi]
        rfl
      constructor
      · rw [← hlink]
        split_ifs with hany
        · exact hnodup
        · have hnew : symbol ∉ before.map Prod.fst := by simpa using hany
          rw [List.map_append, List.map_singleton, ← List.concat_eq_append]
          exact hnodup.concat hnew
      · intro s hs
        rcases List.mem_append.mp hs with hs | hs
        · exact hknown s hs
        · rwa [List.mem_singleton.mp hs]

lemma exportsSymbols_of_exports {m : LoadedModule} (h : m.program.exports = .ok m.exports) :
    ExportsSymbols m := by
  obtain ⟨hnodup, hknown⟩ := known_of_linked (exports_eq m.program ▸ h)
  obtain ⟨table, htable, hlinks⟩ := exports_of_known hknown
  obtain rfl : table = m.exports := Except.ok.inj (htable.symm.trans h)
  refine ⟨hnodup, ?_, ?_⟩
  · intro symbol hsymbol
    rw [LoadedModule.export?, hlinks symbol, if_pos hsymbol, indexOf?_eq_idxOf?]
    exact Option.isSome_iff_exists.mp (List.isSome_idxOf?.mpr (hknown symbol hsymbol))
  · intro symbol i hi
    rw [LoadedModule.export?, hlinks symbol] at hi
    split_ifs at hi with hsymbol
    exact ⟨hsymbol, indexOf?_eq_some_iff.mp hi⟩

/-- What is loaded from a file has passed every check on the way. -/
lemma loadFrom_ok {d : Disk} {name path : Text} {m : LoadedModule}
    (h : Loader.loadFrom d name path = .ok m) :
    m.name = name ∧ m.path = path ∧ m.program.verify = .ok () ∧ ExportsSymbols m := by
  unfold Loader.loadFrom at h
  obtain ⟨data, -, h⟩ := bind_eq_ok_iff.mp h
  obtain ⟨⟨program, format⟩, -, h⟩ := bind_eq_ok_iff.mp h
  obtain ⟨⟨⟩, hverify, h⟩ := bind_eq_ok_iff.mp h
  obtain ⟨exports, hexports, h⟩ := bind_eq_ok_iff.mp h
  cases h
  exact ⟨rfl, rfl, eq_ok_of_mapError hverify,
    exportsSymbols_of_exports (eq_ok_of_mapError hexports)⟩

/-! ### Loads -/

/-- A load while the files change: the file is looked for on one disk and read from another. -/
def loadAcross (l : Loader) (looking reading : Disk) (name : Text) :
    Except Loader.Error LoadedModule × Loader :=
  match l.loaded? name with
  | some m => (.ok m, l)
  | none =>
    match l.resolver.resolve looking.isPresent name with
    | (.error e, r) => (.error (.resolve e), { l with resolver := r })
    | (.ok path, r) =>
      match Loader.loadFrom reading name path with
      | .error e => (.error e, { l with resolver := r })
      | .ok m => (.ok m, ⟨r, m :: l.modules⟩)

lemma loadAcross_same (l : Loader) (d : Disk) (name : Text) :
    loadAcross l d d name = l.load d name := rfl

/-- A load gives a module that is kept, or fails, or keeps the module of a file. -/
lemma loadAcross_cases (l : Loader) (looking reading : Disk) (name : Text) :
    (∃ m, l.loaded? name = some m ∧ loadAcross l looking reading name = (.ok m, l)) ∨
    (∃ e, loadAcross l looking reading name =
      (.error e, ⟨(l.resolver.resolve looking.isPresent name).2, l.modules⟩)) ∨
    ∃ path m, l.loaded? name = none ∧
      (l.resolver.resolve looking.isPresent name).1 = .ok path ∧
      Loader.loadFrom reading name path = .ok m ∧ loadAcross l looking reading name =
        (.ok m, ⟨(l.resolver.resolve looking.isPresent name).2, m :: l.modules⟩) := by
  unfold loadAcross
  cases hkept : l.loaded? name with
  | some m => exact .inl ⟨m, rfl, rfl⟩
  | none =>
    right
    rcases hanswer : l.resolver.resolve looking.isPresent name with ⟨_ | path, r⟩
    · exact .inl ⟨_, rfl⟩
    cases hfile : Loader.loadFrom reading name path with
    | error e => exact .inl ⟨e, by simp only [hfile]⟩
    | ok m => exact .inr ⟨path, m, rfl, rfl, hfile, by simp only [hfile]⟩

lemma mem_of_loaded {l : Loader} {name : Text} {m : LoadedModule} (h : l.loaded? name = some m) :
    m ∈ l.modules ∧ m.name = name :=
  ⟨List.mem_of_find?_eq_some h, by simpa using List.find?_some h⟩

lemma loaded_of_mem {l : Loader} (hnodup : (l.modules.map LoadedModule.name).Nodup)
    {m : LoadedModule} (hm : m ∈ l.modules) : l.loaded? m.name = some m := by
  cases hfound : l.loaded? m.name with
  | none =>
    have hno := List.find?_eq_none.mp hfound m hm
    simp at hno
  | some other =>
    obtain ⟨hother, hname⟩ := mem_of_loaded hfound
    rw [List.inj_on_of_nodup_map hnodup hother hm hname]

lemma lookup_resolve_self {r : Resolver} {present : Text → Bool} {name p : Text}
    (h : (r.resolve present name).1 = .ok p) :
    (r.resolve present name).2.found.lookup name = some p := by
  cases hfound : r.found.lookup name with
  | some q =>
    rw [resolve_of_kept present hfound] at h ⊢
    cases h
    exact hfound
  | none =>
    rw [resolve_of_unknown present hfound] at h
    rw [Resolver.resolve, hfound]
    dsimp only
    rw [h]
    simp

lemma lookup_loadAcross {l : Loader} (looking reading : Disk) (other : Text) {name p : Text}
    (h : l.resolver.found.lookup name = some p) :
    (loadAcross l looking reading other).2.resolver.found.lookup name = some p := by
  have hresolved := lookup_resolve_of_kept looking.isPresent other h
  rcases loadAcross_cases l looking reading other with
    ⟨m, -, heq⟩ | ⟨e, heq⟩ | ⟨path, m, -, -, -, heq⟩
  · rwa [heq]
  · rwa [heq]
  · rwa [heq]

/-- A loader whose modules were all checked, and whose resolver knows their paths. -/
structure SoundLoader (l : Loader) : Prop where
  nodup : (l.modules.map LoadedModule.name).Nodup
  verified : ∀ m ∈ l.modules, m.program.verify = .ok ()
  exports : ∀ m ∈ l.modules, ExportsSymbols m
  path : ∀ m ∈ l.modules, l.resolver.found.lookup m.name = some m.path

namespace SoundLoader

variable {l : Loader}

/-- The resolver may find more. -/
lemma withResolver (h : SoundLoader l) {r : Resolver}
    (hr : ∀ name p, l.resolver.found.lookup name = some p → r.found.lookup name = some p) :
    SoundLoader { l with resolver := r } :=
  ⟨h.nodup, h.verified, h.exports, fun m hm => hr m.name m.path (h.path m hm)⟩

lemma ask (h : SoundLoader l) (present : Text → Bool) (request : ResolverRequest)
    (hrequest : request ≠ .clearCache) :
    SoundLoader { l with resolver := serve present l.resolver request } :=
  h.withResolver fun _ _ hfound => lookup_serve_of_kept present hfound hrequest

lemma loadAcross (h : SoundLoader l) (looking reading : Disk) (name : Text) :
    SoundLoader (loadAcross l looking reading name).2 := by
  have hresolved := h.ask looking.isPresent (.resolve name) (by simp)
  rcases loadAcross_cases l looking reading name with
    ⟨m, -, heq⟩ | ⟨e, heq⟩ | ⟨path, m, hnew, hanswer, hfile, heq⟩
  · rwa [heq]
  · rw [heq]
    exact hresolved
  · rw [heq]
    obtain ⟨hname, hpath, hverify, hexports⟩ := loadFrom_ok hfile
    have hfresh : m.name ∉ l.modules.map LoadedModule.name := by
      rintro hmem
      obtain ⟨other, hother, heq'⟩ := List.mem_map.mp hmem
      rw [← hname, ← heq', loaded_of_mem h.nodup hother] at hnew
      cases hnew
    refine ⟨List.nodup_cons.mpr ⟨hfresh, h.nodup⟩, ?_, ?_, ?_⟩
    · exact List.forall_mem_cons.mpr ⟨hverify, h.verified⟩
    · exact List.forall_mem_cons.mpr ⟨hexports, h.exports⟩
    · refine List.forall_mem_cons.mpr ⟨?_, hresolved.path⟩
      rw [hname, hpath]
      exact lookup_resolve_self hanswer

lemma clear (l : Loader) : SoundLoader l.clear :=
  ⟨List.nodup_nil, by simp [Loader.clear], by simp [Loader.clear], by simp [Loader.clear]⟩

end SoundLoader

/-! ### All that happens -/

/-- What can happen to a loader and its files. -/
inductive LoaderEvent where
  /-- A load of the name. By the time that the file is read, the disk is the given one. -/
  | loaded (name : Text) (reading : Disk)
  | cleared
  /-- The resolver is asked for something by another part of the program. -/
  | asked (request : ResolverRequest)
  | changed (disk : Disk)

/-- A loader and the disk that its files are on. -/
structure LoaderSite where
  disk : Disk
  loader : Loader

def LoaderSite.after (s : LoaderSite) : LoaderEvent → LoaderSite
  | .loaded name reading => ⟨reading, (loadAcross s.loader s.disk reading name).2⟩
  | .cleared => { s with loader := s.loader.clear }
  | .asked request =>
    { s with loader.resolver := serve s.disk.isPresent s.loader.resolver request }
  | .changed disk => { s with disk }

/-- A new loader and a disk, after what happened to them. -/
def loaderSiteAfter (r : Resolver) (disk : Disk) (events : List LoaderEvent) : LoaderSite :=
  events.foldl LoaderSite.after ⟨disk, { resolver := r }⟩

open LoaderEvent (asked cleared)

lemma SoundLoader.after {s : LoaderSite} (h : SoundLoader s.loader) {event : LoaderEvent}
    (hevent : event ≠ asked .clearCache) : SoundLoader (s.after event).loader := by
  cases event with
  | loaded name reading => exact h.loadAcross s.disk reading name
  | cleared => exact SoundLoader.clear s.loader
  | asked request =>
    apply h.ask
    rintro rfl
    exact hevent rfl
  | changed disk => exact h

lemma SoundLoader.afterAll {s : LoaderSite} (h : SoundLoader s.loader) {events : List LoaderEvent}
    (hevents : asked .clearCache ∉ events) :
    SoundLoader (events.foldl LoaderSite.after s).loader := by
  induction events generalizing s with
  | nil => exact h
  | cons event events ih =>
    rw [List.mem_cons, not_or] at hevents
    exact ih (h.after (Ne.symm hevents.1)) hevents.2

lemma soundLoader_loaderSiteAfter (r : Resolver) (disk : Disk) {events : List LoaderEvent}
    (hevents : asked .clearCache ∉ events) :
    SoundLoader (loaderSiteAfter r disk events).loader := by
  apply SoundLoader.afterAll _ hevents
  exact ⟨List.nodup_nil, by simp, by simp, by simp⟩

/-- Only a clear takes a module away. -/
lemma mem_modules_after {s : LoaderSite} {m : LoadedModule} (h : m ∈ s.loader.modules)
    {event : LoaderEvent} (hevent : event ≠ cleared) : m ∈ (s.after event).loader.modules := by
  cases event with
  | loaded name reading =>
    rcases loadAcross_cases s.loader s.disk reading name with
      ⟨m', -, heq⟩ | ⟨e, heq⟩ | ⟨path, m', -, -, -, heq⟩
    · simpa only [LoaderSite.after, heq] using h
    · simpa only [LoaderSite.after, heq] using h
    · simpa only [LoaderSite.after, heq] using List.mem_cons_of_mem m' h
  | cleared => exact absurd rfl hevent
  | asked request => exact h
  | changed disk => exact h

lemma mem_modules_afterAll {s : LoaderSite} {m : LoadedModule} (h : m ∈ s.loader.modules)
    {events : List LoaderEvent} (hevents : cleared ∉ events) :
    m ∈ (events.foldl LoaderSite.after s).loader.modules := by
  induction events generalizing s with
  | nil => exact h
  | cons event events ih =>
    rw [List.mem_cons, not_or] at hevents
    exact ih (mem_modules_after h (Ne.symm hevents.1)) hevents.2

lemma SoundLoader.loadAcross_of_mem {l : Loader} (h : SoundLoader l) {m : LoadedModule}
    (hm : m ∈ l.modules) (looking reading : Disk) :
    Proofs.loadAcross l looking reading m.name = (.ok m, l) := by
  rw [Proofs.loadAcross, loaded_of_mem h.nodup hm]

lemma modules_of_error {l : Loader} {looking reading : Disk} {name : Text} {e : Loader.Error}
    (h : (loadAcross l looking reading name).1 = .error e) :
    (loadAcross l looking reading name).2.modules = l.modules := by
  rcases loadAcross_cases l looking reading name with
    ⟨m, -, heq⟩ | ⟨e', heq⟩ | ⟨path, m, -, -, -, heq⟩
  · rw [heq] at h
    cases h
  · rw [heq]
  · rw [heq] at h
    cases h

lemma mem_modules_of_ok {l : Loader} {looking reading : Disk} {name : Text} {m : LoadedModule}
    (h : (loadAcross l looking reading name).1 = .ok m) :
    m.name = name ∧ m ∈ (loadAcross l looking reading name).2.modules := by
  rcases loadAcross_cases l looking reading name with
    ⟨m', hkept, heq⟩ | ⟨e, heq⟩ | ⟨path, m', -, -, hfile, heq⟩
  · rw [heq] at h ⊢
    cases h
    exact (mem_of_loaded hkept).symm
  · rw [heq] at h
    cases h
  · rw [heq] at h ⊢
    cases h
    exact ⟨(loadFrom_ok hfile).1, List.mem_cons_self⟩

/-- The answer to a client takes the path from what the resolver keeps and the exports from what the
loader keeps. -/
lemma SoundLoader.find {l : Loader} (h : SoundLoader l) {d : Disk} {q : Server.ResolveRequest}
    {response : Server.ResolveResponse} (hload : q.load = true)
    (hfind : (Server.find d q l).1 = .ok response) :
    ∃ m ∈ (Server.find d q l).2.modules, m.name = q.name ∧ response.path = m.path ∧
      response.exports = m.sortedExports.map Prod.fst := by
  have hresolved := h.ask d.isPresent (.resolve q.name) (by simp)
  unfold Server.find at hfind ⊢
  rcases hanswer : l.resolver.resolve d.isPresent q.name with ⟨_ | path, r⟩
  · simp [hanswer] at hfind
  have hkept : r.found.lookup q.name = some path := by
    have hself := lookup_resolve_self (r := l.resolver) (congrArg Prod.fst hanswer)
    rwa [hanswer] at hself
  rw [serve, hanswer] at hresolved
  simp only [hanswer, hload, if_true] at hfind ⊢
  rcases hmodule : Loader.load { l with resolver := r } d q.name with ⟨_ | m, l'⟩
  · simp [hmodule] at hfind
  simp only [hmodule, Except.ok.injEq] at hfind ⊢
  have hl' : (Proofs.loadAcross { l with resolver := r } d d q.name) = (.ok m, l') := hmodule
  obtain ⟨hname, hm⟩ := mem_modules_of_ok (congrArg Prod.fst hl')
  rw [hl'] at hm
  have hpath : l'.resolver.found.lookup q.name = some path := by
    have hstays := lookup_loadAcross (l := { l with resolver := r }) d d q.name hkept
    rwa [hl'] at hstays
  have hsound := hresolved.loadAcross d d q.name
  rw [hl'] at hsound
  have hown := hsound.path m hm
  rw [hname, hpath] at hown
  cases hown
  subst hfind
  exact ⟨m, hm, hname, rfl, rfl⟩

/-- Whatever happens to a loader and its files, as long as nobody else clears its resolver: every
module that is kept was verified, exports the symbols of its program and has the path that the
resolver keeps for its name. Up to the next clear a load of the name gives that module. A load that
fails leaves the modules as they are, and one that succeeds gives a module that is kept. A client is
told the path of the module whose exports it is told. -/
theorem kept_modules_are_sound (r : Resolver) (disk : Disk) {events : List LoaderEvent}
    (hevents : asked .clearCache ∉ events) :
    let s := loaderSiteAfter r disk events
    (∀ m ∈ s.loader.modules, m.program.verify = .ok () ∧ ExportsSymbols m ∧
      s.loader.resolver.found.lookup m.name = some m.path ∧
      ∀ more, asked .clearCache ∉ more → cleared ∉ more → ∀ looking reading,
        let l := (loaderSiteAfter r disk (events ++ more)).loader
        loadAcross l looking reading m.name = (.ok m, l)) ∧
    (∀ name reading e, (loadAcross s.loader s.disk reading name).1 = .error e →
      (loadAcross s.loader s.disk reading name).2.modules = s.loader.modules) ∧
    (∀ name reading m, (loadAcross s.loader s.disk reading name).1 = .ok m →
      m.name = name ∧ m ∈ (loadAcross s.loader s.disk reading name).2.modules) ∧
    ∀ q response, q.load = true → (Server.find s.disk q s.loader).1 = .ok response →
      ∃ m ∈ (Server.find s.disk q s.loader).2.modules, m.name = q.name ∧
        response.path = m.path ∧ response.exports = m.sortedExports.map Prod.fst := by
  intro s
  have hs : SoundLoader s.loader := soundLoader_loaderSiteAfter r disk hevents
  refine ⟨?_, fun name reading e => modules_of_error, fun name reading m => mem_modules_of_ok,
    fun q response => hs.find⟩
  intro m hm
  refine ⟨hs.verified m hm, hs.exports m hm, hs.path m hm, ?_⟩
  intro more hmore hclear looking reading l
  have hl : l = (more.foldl LoaderSite.after s).loader :=
    congrArg LoaderSite.loader List.foldl_append
  rw [hl]
  exact (hs.afterAll hmore).loadAcross_of_mem (mem_modules_afterAll hm hclear) looking reading

/-- Two functions of one name, which is exported twice. -/
def twinProgram : Program where
  functions := [⟨"f", some #[240], 0, 0⟩, ⟨"g", some #[240], 0, 0⟩, ⟨"f", some #[240], 0, 0⟩]
  symbols := ["g", "f", "f"]

/-- A module is looked for in vain, then its file is made, found, read and taken away again. -/
theorem twins_kept :
    let late := diskWith ((twinProgram.store .binary).toOption.getD [])
    let events : List LoaderEvent := [.loaded "module:a" {}, .changed late,
      asked (.resolve "module:a"), .loaded "module:a" late, .changed {}]
    let s := loaderSiteAfter (Resolver.new "/" "/") {} events
    asked .clearCache ∉ events ∧
      ∃ m, s.loader.modules = [m] ∧ m.program = twinProgram ∧
        m.program.verify = .ok () ∧ m.exports = [(Text.ofString "g", 1), (Text.ofString "f", 0)] ∧
        s.loader.resolver.found.lookup (Text.ofString "module:a") =
          some (Text.ofString "/src/a.velac") ∧
        m.path = "/src/a.velac" ∧ s.loader.load {} "module:a" = (.ok m, s.loader) := by
  intro late events s
  have hevents : asked .clearCache ∉ events := by simp [events]
  have hmodules : s.loader.modules.map (fun m => (m.name, m.program, m.exports)) =
      [(Text.ofString "module:a", twinProgram,
        [(Text.ofString "g", 1), (Text.ofString "f", 0)])] := by
    decide +kernel
  have hfound : s.loader.resolver.found.lookup (Text.ofString "module:a") =
      some (Text.ofString "/src/a.velac") := by
    decide +kernel
  obtain ⟨m, hm, hfields⟩ := List.map_eq_singleton_iff.mp hmodules
  obtain ⟨hname, hprogram, hexports⟩ : m.name = _ ∧ m.program = _ ∧ m.exports = _ := by
    simpa only [Prod.mk.injEq] using hfields
  obtain ⟨hverify, -, hpath, hagain⟩ :=
    (kept_modules_are_sound (Resolver.new "/" "/") {} hevents).1 m (hm ▸ List.mem_singleton_self m)
  rw [hname] at hpath hagain
  refine ⟨hevents, m, hm, hprogram, hverify, hexports, hfound, ?_, ?_⟩
  · exact Option.some.inj (hpath.symm.trans hfound)
  · have hstays := hagain [] (by simp) (by simp) {} {}
    rw [List.append_nil] at hstays
    rw [← loadAcross_same]
    exact hstays

end StackCode.Proofs
