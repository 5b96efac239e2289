import StackCode.Resolver.Basic
import StackCode.Proofs.LexicalPaths

/-!
# What a resolver answers

A resolver keeps what it has found, and roots are added between two questions. An added root is
searched after all that were there, so what was found first is still found first. While the files
stay as they are, a kept answer is therefore the answer of a new search.
-/

namespace StackCode.Proofs

open Text StackCode.Path Resolver

/-! ### Names -/

lemma ofName?_name (kind : ModuleKind) : ModuleKind.ofName? kind.name = some kind := by
  cases kind <;> rfl

lemma ofName?_eq_none {word : Text} (h : ∀ kind : ModuleKind, kind.name ≠ word) :
    ModuleKind.ofName? word = none := by
  rw [ModuleKind.ofName?, List.find?_eq_none]
  intro kind _
  simpa using h kind

lemma colon_not_mem_name (kind : ModuleKind) : byte ':' ∉ kind.name := by
  cases kind <;> decide

lemma read_direct {path : Text} (h : byte ':' ∉ path) :
    ModuleName.read path = .ok (.direct path) := by
  rw [ModuleName.read, cut_of_not_mem h]

lemma read_qualified (kind : ModuleKind) (path : Text) :
    ModuleName.read (kind.name ++ byte ':' :: path) = .ok (.qualified kind path) := by
  rw [ModuleName.read, cut_append (colon_not_mem_name kind)]
  simp only [ofName?_name]

lemma read_unknown {word : Text} (hword : byte ':' ∉ word)
    (h : ∀ kind : ModuleKind, kind.name ≠ word) (rest : Text) :
    ModuleName.read (word ++ byte ':' :: rest) =
      .error (.unknownPrefix (word ++ byte ':' :: rest) word) := by
  rw [ModuleName.read, cut_append hword]
  simp only [ofName?_eq_none h]

/-- A name is direct, or it starts with a kind or with another word before its first colon. -/
lemma name_cases (name : Text) : byte ':' ∉ name ∨
    (∃ (kind : ModuleKind) (path : Text), name = kind.name ++ byte ':' :: path) ∨
    ∃ word rest, name = word ++ byte ':' :: rest ∧ byte ':' ∉ word ∧
      ∀ kind : ModuleKind, kind.name ≠ word := by
  by_cases hcolon : byte ':' ∈ name
  · right
    obtain ⟨word, rest, rfl, hword⟩ := List.eq_append_cons_of_mem hcolon
    by_cases hkind : ∃ kind : ModuleKind, kind.name = word
    · left
      obtain ⟨kind, rfl⟩ := hkind
      exact ⟨kind, rest, rfl⟩
    · right
      push Not at hkind
      exact ⟨word, rest, rfl, hword, hkind⟩
  · exact .inl hcolon

/-! ### Answers -/

/-- The first of the paths that is present. -/
def FirstPresent (present : Text → Bool) (paths : List Text) (p : Text) : Prop :=
  ∃ earlier later, paths = earlier ++ p :: later ∧ present p = true ∧
    ∀ q ∈ earlier, present q = false

/-- The first path that is present when the roots are gone through in order and, in each root, the
file names. -/
def FirstInRoots (present : Text → Bool) (roots names : List Text) (p : Text) : Prop :=
  ∃ earlier root later, roots = earlier ++ root :: later ∧
    FirstPresent present (names.map fun name => Path.join [root, name]) p ∧
    ∀ r ∈ earlier, ∀ name ∈ names, present (Path.join [r, name]) = false

/-- The file names to look for in a root. An asset is looked for as it is named. -/
def fileNames (kind : ModuleKind) (path : Text) : List Text :=
  if kind = .assets then [path]
  else [path ++ Text.ofString ".velac", Path.join [path, "mod.velac"],
    Path.join [path, "index.velac"], path ++ Text.ofString ".vela", path]

/-- Where a file without a kind may be. A path from the root does not count from the directory. -/
def directPaths (directory path : Text) : List Text :=
  if isAbsolute path then [path, path ++ Text.ofString ".velac"]
  else [Path.join [directory, path], Path.join [directory, path] ++ Text.ofString ".velac"]

/-- What a name stands for among the files that are present, with a directory for relative paths and
the roots of each kind. -/
inductive Finds (present : Text → Bool) (directory : Text) (roots : ModuleKind → List Text) :
    Text → Except ResolveError Text → Prop
  | relative {path p : Text} (direct : byte ':' ∉ path) (relative : isAbsolute path = false)
      (first : FirstPresent present (directPaths directory path) p) :
      Finds present directory roots path (.ok p)
  | absolute {path p : Text} (direct : byte ':' ∉ path) (absolute : isAbsolute path = true)
      (first : FirstPresent present (directPaths directory path) p) :
      Finds present directory roots path (.ok (clean p))
  | notBelow {path : Text} (direct : byte ':' ∉ path)
      (absent : ∀ p ∈ directPaths directory path, present p = false) :
      Finds present directory roots path (.error (.notBelow path directory))
  | qualified {kind : ModuleKind} {path p : Text}
      (first : FirstInRoots present (roots kind) (fileNames kind path) p) :
      Finds present directory roots (kind.name ++ byte ':' :: path) (.ok p)
  | notInRoots {kind : ModuleKind} {path : Text}
      (absent : ∀ root ∈ roots kind, ∀ name ∈ fileNames kind path,
        present (Path.join [root, name]) = false) :
      Finds present directory roots (kind.name ++ byte ':' :: path)
        (.error (.notInRoots (kind.name ++ byte ':' :: path) kind path))
  | unknown {word rest : Text} (first : byte ':' ∉ word)
      (unknown : ∀ kind : ModuleKind, kind.name ≠ word) :
      Finds present directory roots (word ++ byte ':' :: rest)
        (.error (.unknownPrefix (word ++ byte ':' :: rest) word))

lemma find?_eq_some_iff {present : Text → Bool} {paths : List Text} {p : Text} :
    paths.find? present = some p ↔ FirstPresent present paths p := by
  rw [List.find?_eq_some_iff_append]
  constructor
  · rintro ⟨hp, earlier, later, hpaths, habsent⟩
    exact ⟨earlier, later, hpaths, hp, fun q hq => by simpa using habsent q hq⟩
  · rintro ⟨earlier, later, hpaths, hp, habsent⟩
    exact ⟨hp, earlier, later, hpaths, fun q hq => by simpa using habsent q hq⟩

lemma find?_inRoots_eq_some_iff {present : Text → Bool} {roots names : List Text} {p : Text} :
    (roots.flatMap fun root => names.map fun name => Path.join [root, name]).find? present =
      some p ↔ FirstInRoots present roots names p := by
  rw [List.find?_flatMap, List.findSome?_eq_some_iff]
  simp only [find?_eq_some_iff, List.find?_eq_none, List.forall_mem_map, Bool.not_eq_true]
  rfl

lemma find?_inRoots_eq_none_iff {present : Text → Bool} {roots names : List Text} :
    (roots.flatMap fun root => names.map fun name => Path.join [root, name]).find? present = none ↔
      ∀ root ∈ roots, ∀ name ∈ names, present (Path.join [root, name]) = false := by
  rw [List.find?_eq_none]
  simp only [List.forall_mem_flatMap, List.forall_mem_map, Bool.not_eq_true]

lemma candidates_direct (r : Resolver) (path : Text) :
    r.candidates (.direct path) = directPaths r.cwd path := by
  rw [candidates, directPaths]
  split_ifs <;> rfl

lemma candidates_qualified (r : Resolver) (kind : ModuleKind) (path : Text) :
    r.candidates (.qualified kind path) = (r.searchPaths kind.name).flatMap fun root =>
      (fileNames kind path).map fun name => Path.join [root, name] := by
  cases kind with
  | assets =>
    rw [candidates, List.map_eq_flatMap]
    rfl
  | _ => rfl

lemma search_of_first {r : Resolver} {present : Text → Bool} {name p : Text} {n : ModuleName}
    (hread : ModuleName.read name = .ok n) (h : (r.candidates n).find? present = some p) :
    r.search present name = .ok (answer n p) := by
  rw [search, hread]
  simp only [bind, Except.bind, h, pure, Except.pure]

lemma search_of_absent {r : Resolver} {present : Text → Bool} {name : Text} {n : ModuleName}
    (hread : ModuleName.read name = .ok n) (h : (r.candidates n).find? present = none) :
    r.search present name = .error (r.missing name n) := by
  rw [search, hread]
  simp only [bind, Except.bind, h, throw, throwThe, MonadExceptOf.throw]

lemma search_of_unread {r : Resolver} {present : Text → Bool} {name : Text} {e : ResolveError}
    (hread : ModuleName.read name = .error e) : r.search present name = .error e := by
  rw [search, hread]
  rfl

lemma join_directory {directory : Text} (h : directory ≠ []) (path : Text) :
    Path.join [directory, path] = clean (Text.join "/" [directory, path]) := by
  rw [Path.join, List.dropWhile_cons_of_neg (by simpa using h)]

/-- A path below a directory is clean, and so it is with the ending of a stored program. -/
lemma clean_of_mem_directPaths {directory path p : Text} (hdirectory : directory ≠ [])
    (hrelative : isAbsolute path = false) (hp : p ∈ directPaths directory path) : clean p = p := by
  have hbase : clean (Path.join [directory, path]) = Path.join [directory, path] := by
    rw [join_directory hdirectory, clean_clean]
  rw [directPaths, if_neg (by simp [hrelative])] at hp
  rcases List.mem_pair.mp hp with rfl | rfl
  · exact hbase
  · exact clean_append hbase (by decide) (by decide)

/-- The search finds what the name stands for. -/
lemma search_of_finds {r : Resolver} {present : Text → Bool} {name : Text}
    {result : Except ResolveError Text} (hcwd : r.cwd ≠ [])
    (h : Finds present r.cwd (fun kind => r.searchPaths kind.name) name result) :
    r.search present name = result := by
  cases h with
  | @relative path p direct relative first =>
    rw [← candidates_direct, ← find?_eq_some_iff] at first
    have hmem := List.mem_of_find?_eq_some first
    rw [candidates_direct] at hmem
    rw [search_of_first (read_direct direct) first, answer,
      clean_of_mem_directPaths hcwd relative hmem]
  | absolute direct absolute first =>
    rw [← candidates_direct, ← find?_eq_some_iff] at first
    exact search_of_first (read_direct direct) first
  | notBelow direct absent =>
    apply search_of_absent (read_direct direct)
    rw [candidates_direct, List.find?_eq_none]
    simpa using absent
  | qualified first =>
    apply search_of_first (read_qualified _ _)
    rw [candidates_qualified]
    exact find?_inRoots_eq_some_iff.mpr first
  | notInRoots absent =>
    apply search_of_absent (read_qualified _ _)
    rw [candidates_qualified]
    exact find?_inRoots_eq_none_iff.mpr absent
  | unknown first unknown => exact search_of_unread (read_unknown first unknown _)

/-- Every name stands for something or is refused for one reason. -/
lemma finds_search {r : Resolver} {present : Text → Bool} (hcwd : r.cwd ≠ []) (name : Text) :
    Finds present r.cwd (fun kind => r.searchPaths kind.name) name (r.search present name) := by
  rcases name_cases name with hdirect | ⟨kind, path, rfl⟩ | ⟨word, rest, rfl, hword, hunknown⟩
  · have hread := read_direct hdirect
    cases hfind : (r.candidates (.direct name)).find? present with
    | none =>
      rw [search_of_absent hread hfind]
      apply Finds.notBelow hdirect
      rw [candidates_direct, List.find?_eq_none] at hfind
      simpa using hfind
    | some p =>
      have hmem := List.mem_of_find?_eq_some hfind
      rw [search_of_first hread hfind, answer]
      rw [candidates_direct] at hfind hmem
      cases habsolute : isAbsolute name with
      | false =>
        rw [clean_of_mem_directPaths hcwd habsolute hmem]
        exact .relative hdirect habsolute (find?_eq_some_iff.mp hfind)
      | true => exact .absolute hdirect habsolute (find?_eq_some_iff.mp hfind)
  · have hread := read_qualified kind path
    cases hfind : (r.candidates (.qualified kind path)).find? present with
    | none =>
      rw [search_of_absent hread hfind]
      rw [candidates_qualified] at hfind
      exact .notInRoots (find?_inRoots_eq_none_iff.mp hfind)
    | some p =>
      rw [search_of_first hread hfind, answer]
      rw [candidates_qualified] at hfind
      exact .qualified (find?_inRoots_eq_some_iff.mp hfind)
  · rw [search_of_unread (read_unknown hword hunknown rest)]
    exact .unknown hword hunknown

lemma search_eq_iff {r : Resolver} {present : Text → Bool} {name : Text}
    {result : Except ResolveError Text} (hcwd : r.cwd ≠ []) :
    r.search present name = result ↔
      Finds present r.cwd (fun kind => r.searchPaths kind.name) name result := by
  refine ⟨?_, search_of_finds hcwd⟩
  rintro rfl
  exact finds_search hcwd name

/-! ### Roots -/

/-- The place of a directory that is given to a resolver. -/
def place (root dir : Text) : Text := if isAbsolute dir then clean dir else Path.join [root, dir]

lemma lookup_filter_of_ne {kind other : Text} (h : other ≠ kind) (roots : List (Text × List Text)) :
    (roots.filter fun entry => entry.1 ≠ kind).lookup other = roots.lookup other := by
  induction roots with
  | nil => rfl
  | cons entry roots ih =>
    by_cases hentry : entry.1 = kind
    · have hother : (other == entry.1) = false := by simp [hentry, h]
      rw [List.filter_cons_of_neg (by simpa using hentry), ih, List.lookup, hother]
    · rw [List.filter_cons_of_pos (by simpa using hentry), List.lookup, List.lookup, ih]

/-- An added root comes after those that its kind has, and other kinds keep theirs. -/
lemma searchPaths_addSearchPath (r : Resolver) (kind dir other : Text) :
    (r.addSearchPath kind dir).searchPaths other =
      r.searchPaths other ++ if other = kind then [place r.root dir] else [] := by
  by_cases hkind : other = kind
  · subst hkind
    simp [addSearchPath, searchPaths, place]
  · have hother : (other == kind) = false := by simpa using hkind
    rw [if_neg hkind, List.append_nil, searchPaths, searchPaths,
      ← lookup_filter_of_ne hkind r.roots]
    simp only [addSearchPath, List.lookup, hother]

lemma cwd_addSearchPath (r : Resolver) (kind dir : Text) :
    (r.addSearchPath kind dir).cwd = r.cwd := rfl

/-- The candidates of before are tried before those in an added root. -/
lemma candidates_addSearchPath (r : Resolver) (kind dir : Text) (n : ModuleName) :
    r.candidates n <+: (r.addSearchPath kind dir).candidates n := by
  cases n with
  | direct path =>
    rw [candidates_direct, candidates_direct, cwd_addSearchPath]
  | qualified k path =>
    rw [candidates_qualified, candidates_qualified, searchPaths_addSearchPath, List.flatMap_append]
    exact List.prefix_append _ _

/-- What is found is still found with a further root. -/
lemma search_addSearchPath {r : Resolver} {present : Text → Bool} {name p : Text}
    (kind dir : Text) (h : r.search present name = .ok p) :
    (r.addSearchPath kind dir).search present name = .ok p := by
  cases hread : ModuleName.read name with
  | error e =>
    rw [search_of_unread hread] at h
    cases h
  | ok n =>
    cases hfind : (r.candidates n).find? present with
    | none =>
      rw [search_of_absent hread hfind] at h
      cases h
    | some q =>
      rw [search_of_first hread hfind] at h
      obtain ⟨more, hmore⟩ := candidates_addSearchPath r kind dir n
      have hstill : ((r.addSearchPath kind dir).candidates n).find? present = some q := by
        rw [← hmore, List.find?_append, hfind, Option.some_or]
      rw [search_of_first hread hstill, h]

/-! ### Histories -/

/-- What a new resolver can be told. -/
inductive ResolverSetting where
  | workingDir (dir : Text)
  | searchPath (kind : Text) (dirs : List Text)
  deriving DecidableEq, Repr

/-- What a resolver can be asked for. -/
inductive ResolverRequest where
  | resolve (name : Text)
  | canResolve (name : Text)
  | addSearchPath (kind dir : Text)
  | clearCache
  deriving DecidableEq, Repr

/-- The resolver after a setting. Relative directories count from `here`. -/
def configure (here : Text) (r : Resolver) : ResolverSetting → Resolver
  | .workingDir dir => r.withCwd here dir
  | .searchPath kind dirs => dirs.foldl (fun r dir => r.addSearchPath kind dir) r

/-- The resolver after a request. -/
def serve (present : Text → Bool) (r : Resolver) : ResolverRequest → Resolver
  | .resolve name => (r.resolve present name).2
  | .canResolve name => (r.canResolve present name).2
  | .addSearchPath kind dir => r.addSearchPath kind dir
  | .clearCache => r.clear

/-- The resolver that was made with the settings and has served the requests. -/
def resolverAfter (here root : Text) (settings : List ResolverSetting) (present : Text → Bool)
    (requests : List ResolverRequest) : Resolver :=
  requests.foldl (serve present) (settings.foldl (configure here) (Resolver.new here root))

/-- The directory for relative paths after a setting. -/
def ResolverSetting.directory (here directory : Text) : ResolverSetting → Text
  | .workingDir dir => Path.absolute here dir
  | .searchPath _ _ => directory

/-- The directory for relative paths: the last one that was set, else that of the process. -/
def directoryAfter (here : Text) (settings : List ResolverSetting) : Text :=
  settings.foldl (ResolverSetting.directory here) here

/-- The directories that a setting adds to those of a kind. -/
def ResolverSetting.dirs (kind : Text) : ResolverSetting → List Text
  | .workingDir _ => []
  | .searchPath k dirs => if kind = k then dirs else []

/-- The directories that a request adds to those of a kind. -/
def ResolverRequest.dirs (kind : Text) : ResolverRequest → List Text
  | .addSearchPath k dir => if kind = k then [dir] else []
  | _ => []

/-- The roots of a kind: the defaults, and then what was added, in the order of adding. -/
def rootsAfter (root : Text) (settings : List ResolverSetting) (requests : List ResolverRequest)
    (kind : ModuleKind) : List Text :=
  (kind.defaultRoots ++ settings.flatMap (ResolverSetting.dirs kind.name) ++
    requests.flatMap (ResolverRequest.dirs kind.name)).map (place root)

/-- The second resolver has further directories of a kind after those of the first one. -/
def Grown (kind : Text) (dirs : List Text) (r r' : Resolver) : Prop :=
  r'.root = r.root ∧ r'.searchPaths kind = r.searchPaths kind ++ dirs.map (place r.root)

lemma grown_of_eq {kind : Text} {r r' : Resolver} (hroot : r'.root = r.root)
    (hroots : r'.roots = r.roots) : Grown kind [] r r' := by
  refine ⟨hroot, ?_⟩
  rw [searchPaths, hroots, List.map_nil, List.append_nil]
  rfl

lemma grown_addSearchPath (kind other : Text) (r : Resolver) (dir : Text) :
    Grown kind (if kind = other then [dir] else []) r (r.addSearchPath other dir) := by
  refine ⟨rfl, ?_⟩
  rw [searchPaths_addSearchPath]
  split_ifs <;> rfl

lemma grown_foldl {α : Type} {kind : Text} {step : Resolver → α → Resolver} {dirs : α → List Text}
    (h : ∀ r a, Grown kind (dirs a) r (step r a)) (as : List α) (r : Resolver) :
    Grown kind (as.flatMap dirs) r (as.foldl step r) := by
  induction as generalizing r with
  | nil => exact grown_of_eq rfl rfl
  | cons a as ih =>
    obtain ⟨hroot, hroots⟩ := h r a
    obtain ⟨hroot', hroots'⟩ := ih (step r a)
    refine ⟨hroot'.trans hroot, ?_⟩
    rw [List.foldl_cons, hroots', hroots, hroot, List.flatMap_cons, List.map_append,
      List.append_assoc]

lemma grown_configure (kind here : Text) (r : Resolver) (setting : ResolverSetting) :
    Grown kind (setting.dirs kind) r (configure here r setting) := by
  cases setting with
  | workingDir dir => exact grown_of_eq rfl rfl
  | searchPath other dirs =>
    have hdirs : (ResolverSetting.searchPath other dirs).dirs kind =
        dirs.flatMap fun dir => if kind = other then [dir] else [] := by
      by_cases hkind : kind = other
      · simp [ResolverSetting.dirs, hkind]
      · simp [ResolverSetting.dirs, hkind]
    rw [hdirs]
    exact grown_foldl (grown_addSearchPath kind other) dirs r

/-- A resolution keeps what it finds and changes nothing else. -/
lemma resolve_cases (r : Resolver) (present : Text → Bool) (name : Text) :
    (r.resolve present name).2 = r ∨ ∃ p, r.search present name = .ok p ∧
      (r.resolve present name).2 = { r with found := (name, p) :: r.found } := by
  unfold Resolver.resolve
  cases r.found.lookup name with
  | some p => exact .inl rfl
  | none =>
    cases r.search present name with
    | error e => exact .inl rfl
    | ok p => exact .inr ⟨p, rfl, rfl⟩

lemma exists_found_resolve (r : Resolver) (present : Text → Bool) (name : Text) :
    ∃ found, (r.resolve present name).2 = { r with found } := by
  rcases resolve_cases r present name with heq | ⟨p, -, heq⟩
  · exact ⟨r.found, heq⟩
  · exact ⟨(name, p) :: r.found, heq⟩

lemma grown_resolve (kind : Text) (r : Resolver) (present : Text → Bool) (name : Text) :
    Grown kind [] r (r.resolve present name).2 := by
  obtain ⟨found, heq⟩ := exists_found_resolve r present name
  rw [heq]
  exact grown_of_eq rfl rfl

lemma grown_serve (kind : Text) (present : Text → Bool) (r : Resolver) (request : ResolverRequest) :
    Grown kind (request.dirs kind) r (serve present r request) := by
  cases request with
  | resolve name => exact grown_resolve kind r present name
  | canResolve name => exact grown_resolve kind r present name
  | addSearchPath other dir => exact grown_addSearchPath kind other r dir
  | clearCache => exact grown_of_eq rfl rfl

lemma searchPaths_new (here root : Text) (kind : ModuleKind) :
    (Resolver.new here root).searchPaths kind.name =
      kind.defaultRoots.map (place (Path.absolute here root)) := by
  cases kind <;> rfl

lemma searchPaths_resolverAfter (here root : Text) (settings : List ResolverSetting)
    (present : Text → Bool) (requests : List ResolverRequest) (kind : ModuleKind) :
    (resolverAfter here root settings present requests).searchPaths kind.name =
      rootsAfter (Path.absolute here root) settings requests kind := by
  obtain ⟨hroot, hroots⟩ := grown_foldl (grown_configure kind.name here) settings
    (Resolver.new here root)
  obtain ⟨-, hroots'⟩ := grown_foldl (grown_serve kind.name present) requests
    (settings.foldl (configure here) (Resolver.new here root))
  rw [resolverAfter, hroots', hroots, hroot, searchPaths_new, rootsAfter, List.map_append,
    List.map_append]
  rfl

/-- Adding roots changes neither the directory for relative paths nor what is kept. -/
lemma addSearchPaths_keeps (kind : Text) (dirs : List Text) (r : Resolver) :
    (dirs.foldl (fun r dir => r.addSearchPath kind dir) r).cwd = r.cwd ∧
      (dirs.foldl (fun r dir => r.addSearchPath kind dir) r).found = r.found := by
  induction dirs generalizing r with
  | nil => exact ⟨rfl, rfl⟩
  | cons dir dirs ih => exact ih (r.addSearchPath kind dir)

lemma configured (here : Text) (settings : List ResolverSetting) (r : Resolver) :
    (settings.foldl (configure here) r).cwd =
        settings.foldl (ResolverSetting.directory here) r.cwd ∧
      (settings.foldl (configure here) r).found = r.found := by
  induction settings generalizing r with
  | nil => exact ⟨rfl, rfl⟩
  | cons setting settings ih =>
    obtain ⟨hcwd, hfound⟩ := ih (configure here r setting)
    rw [List.foldl_cons, List.foldl_cons, hcwd, hfound]
    cases setting with
    | workingDir dir => exact ⟨rfl, rfl⟩
    | searchPath kind dirs =>
      obtain ⟨hcwd, hfound⟩ := addSearchPaths_keeps kind dirs r
      exact ⟨congrArg (settings.foldl (ResolverSetting.directory here)) hcwd, hfound⟩

lemma cwd_serve (present : Text → Bool) (r : Resolver) (request : ResolverRequest) :
    (serve present r request).cwd = r.cwd := by
  cases request with
  | addSearchPath kind dir => rfl
  | clearCache => rfl
  | resolve name | canResolve name =>
    obtain ⟨found, heq⟩ := exists_found_resolve r present name
    exact (congrArg Resolver.cwd heq :)

lemma cwd_resolverAfter (here root : Text) (settings : List ResolverSetting) (present : Text → Bool)
    (requests : List ResolverRequest) :
    (resolverAfter here root settings present requests).cwd = directoryAfter here settings := by
  have hserved : ∀ r : Resolver, (requests.foldl (serve present) r).cwd = r.cwd := by
    induction requests with
    | nil => exact fun r => rfl
    | cons request requests ih => exact fun r => (ih _).trans (cwd_serve present r request)
  rw [resolverAfter, hserved, (configured here settings _).1]
  rfl

lemma absolute_ne_nil {here : Text} (h : here ≠ []) (dir : Text) : Path.absolute here dir ≠ [] := by
  unfold Path.absolute
  split_ifs
  · exact clean_ne_nil dir
  · rw [join_directory h]
    exact clean_ne_nil _

lemma directoryAfter_ne_nil {here : Text} (h : here ≠ []) (settings : List ResolverSetting) :
    directoryAfter here settings ≠ [] := by
  have hsteps : ∀ directory : Text, directory ≠ [] →
      settings.foldl (ResolverSetting.directory here) directory ≠ [] := by
    induction settings with
    | nil => exact fun directory hdirectory => hdirectory
    | cons setting settings ih =>
      intro directory hdirectory
      apply ih
      cases setting with
      | workingDir dir => exact absolute_ne_nil h dir
      | searchPath kind dirs => exact hdirectory
  exact hsteps here h

/-! ### What is kept -/

/-- Every answer that is kept is the one that a search gives. -/
def Faithful (present : Text → Bool) (r : Resolver) : Prop :=
  ∀ name p, r.found.lookup name = some p → r.search present name = .ok p

lemma Faithful.resolve_eq {present : Text → Bool} {r : Resolver} (h : Faithful present r)
    (name : Text) : (r.resolve present name).1 = r.search present name := by
  unfold Resolver.resolve
  cases hfound : r.found.lookup name with
  | some p => exact (h name p hfound).symm
  | none =>
    dsimp only
    cases hsearch : r.search present name <;> rfl

lemma Faithful.resolve {present : Text → Bool} {r : Resolver} (h : Faithful present r)
    (name : Text) : Faithful present (r.resolve present name).2 := by
  rcases resolve_cases r present name with heq | ⟨p, hsearch, heq⟩
  · rwa [heq]
  · rw [heq]
    intro other q hother
    by_cases hname : other = name
    · subst hname
      obtain rfl : p = q := by simpa using hother
      exact hsearch
    · have hne : (other == name) = false := by simpa using hname
      rw [List.lookup, hne] at hother
      exact h other q hother

lemma faithful_clear (present : Text → Bool) (r : Resolver) : Faithful present r.clear := by
  intro name p hfound
  cases hfound

/-- A request keeps the answers faithful: a root that is added is searched last. -/
lemma Faithful.serve {present : Text → Bool} {r : Resolver} (h : Faithful present r)
    (request : ResolverRequest) : Faithful present (serve present r request) := by
  cases request with
  | resolve name => exact h.resolve name
  | canResolve name => exact h.resolve name
  | addSearchPath kind dir =>
    exact fun name p hfound => search_addSearchPath kind dir (h name p hfound)
  | clearCache => exact faithful_clear present r

lemma faithful_resolverAfter (here root : Text) (settings : List ResolverSetting)
    (present : Text → Bool) (requests : List ResolverRequest) :
    Faithful present (resolverAfter here root settings present requests) := by
  have hserved : ∀ r, Faithful present r → Faithful present (requests.foldl (serve present) r) := by
    induction requests with
    | nil => exact fun r hr => hr
    | cons request requests ih => exact fun r hr => ih _ (hr.serve request)
  apply hserved
  intro name p hfound
  rw [(configured here settings _).2] at hfound
  cases hfound

/-- While the files stay as they are, a resolver answers every name as if it had kept nothing,
whatever it was told and asked before: the first file in the order of the roots, or of the directory
for relative paths, and an error exactly if there is none. -/
theorem resolve_answers_from_files {here : Text} (hhere : here ≠ []) (root : Text)
    (settings : List ResolverSetting) (present : Text → Bool) (requests : List ResolverRequest)
    (name : Text) :
    let r := resolverAfter here root settings present requests
    let finds := Finds present (directoryAfter here settings)
      (rootsAfter (Path.absolute here root) settings requests) name
    (r.resolve present name).1 = (r.clear.resolve present name).1 ∧
      (∀ result, (r.resolve present name).1 = result ↔ finds result) ∧
      ((r.canResolve present name).1 = true ↔ ∃ p, finds (.ok p)) := by
  intro r finds
  have hfaithful : Faithful present r := faithful_resolverAfter here root settings present requests
  have hanswer : ∀ result, (r.resolve present name).1 = result ↔ finds result := by
    intro result
    have hcwd : r.cwd = directoryAfter here settings := cwd_resolverAfter ..
    have hroots : (fun kind : ModuleKind => r.searchPaths kind.name) =
        rootsAfter (Path.absolute here root) settings requests :=
      funext fun kind => searchPaths_resolverAfter ..
    rw [hfaithful.resolve_eq, search_eq_iff (hcwd ▸ directoryAfter_ne_nil hhere settings), hcwd,
      hroots]
  refine ⟨?_, hanswer, ?_⟩
  · rw [hfaithful.resolve_eq, (faithful_clear present r).resolve_eq]
    rfl
  · show (r.resolve present name).1.isOk = true ↔ _
    cases hresult : (r.resolve present name).1 with
    | ok p => exact ⟨fun _ => ⟨p, (hanswer _).mp hresult⟩, fun _ => rfl⟩
    | error e =>
      constructor
      · intro hok
        exact absurd hok (by simp [Except.isOk, Except.toBool])
      · rintro ⟨p, hp⟩
        rw [← hanswer, hresult] at hp
        cases hp

/-- A library in a root that was added between two questions, found again when a later root has it
too. -/
theorem late_library_answered :
    let present : Text → Bool :=
      [Text.ofString "/opt/a/mod.velac", Text.ofString "/p/late/a.velac"].contains
    Text.ofString "/w" ≠ [] ∧
      ((resolverAfter "/w" "/p" [.workingDir "src", .searchPath "library" ["vendor"]] present
        [.resolve "library:a", .addSearchPath "library" "/opt/", .canResolve "library:a",
          .addSearchPath "library" "late"]).resolve present "library:a").1 =
        .ok "/opt/a/mod.velac" := by
  refine ⟨by decide, ?_⟩
  apply ((resolve_answers_from_files (by decide) _ _ _ _ _).2.1 _).mpr
  show Finds _ _ _ (ModuleKind.library.name ++ byte ':' :: Text.ofString "a") _
  apply Finds.qualified
  refine ⟨[Text.ofString "/p/lib", Text.ofString "/p/libraries", Text.ofString "/p/vendor"],
    Text.ofString "/opt", [Text.ofString "/p/late"], by decide, ?_, by decide⟩
  exact ⟨[Text.ofString "/opt/a.velac"], [Text.ofString "/opt/a/index.velac",
    Text.ofString "/opt/a.vela", Text.ofString "/opt/a"], by decide, by decide, by decide⟩

/-- A path from the root is not looked for below the directory, where it would be found. -/
theorem absolute_name_leaves_directory :
    let present : Text → Bool := [Text.ofString "/lib/a", Text.ofString "/w/lib/a"].contains
    FirstPresent present
      [Path.join ["/w", "/lib/a"], Path.join ["/w", "/lib/a"] ++ Text.ofString ".velac"]
      "/w/lib/a" ∧
    ((Resolver.new "/w" "/p").resolve present "/lib/a").1 = .ok "/lib/a" := by
  refine ⟨⟨[], [Text.ofString "/w/lib/a.velac"], by decide, by decide, by simp⟩, ?_⟩
  decide

end StackCode.Proofs
