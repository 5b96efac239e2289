import StackCode.Proofs.Resolution

/-!
# Kept answers among changing files

Between two questions to a resolver anything may happen to the files. What the resolver keeps is
then no longer what a search would find, but it was at a moment since the last clear, and it stays
the answer up to the next one. A name that was not found leaves no trace. A question is one event:
no file comes or goes between the paths that it looks at.

A path from the root is looked for as it is given and kept in its cleaned form. If the two differ,
what is kept need not have been there at any moment.
-/

namespace StackCode.Proofs

open Text StackCode.Path Resolver

/-! ### Sites -/

/-- What can happen between two looks at a resolver: it is asked for something, which it answers at
once, or other files are present than before. -/
inductive Occurrence where
  | asked (request : ResolverRequest)
  | changed (present : Text → Bool)

/-- A resolver and the files that it looks at. -/
structure Site where
  present : Text → Bool
  resolver : Resolver

def Site.after (s : Site) : Occurrence → Site
  | .asked request => { s with resolver := serve s.present s.resolver request }
  | .changed present => { s with present }

/-- The files that are present at the end. -/
def presentAfter (present : Text → Bool) : List Occurrence → Text → Bool
  | [] => present
  | .asked _ :: occurrences => presentAfter present occurrences
  | .changed present :: occurrences => presentAfter present occurrences

def Occurrence.requests : Occurrence → List ResolverRequest
  | .asked request => [request]
  | .changed _ => []

/-- The requests among what happened. -/
def requestsOf (occurrences : List Occurrence) : List ResolverRequest :=
  occurrences.flatMap Occurrence.requests

/-- The requests that look a name up. -/
def lookups (name : Text) : List ResolverRequest := [.resolve name, .canResolve name]

/-- The request looks up a name and does not find it. -/
def Site.Fails (s : Site) : ResolverRequest → Prop
  | .resolve name => ∃ e, (s.resolver.resolve s.present name).1 = .error e
  | .canResolve name => (s.resolver.canResolve s.present name).1 = false
  | _ => False

/-- The first path that is present among those where the file of a name may be. -/
inductive FirstFor (present : Text → Bool) (directory : Text) (roots : ModuleKind → List Text) :
    Text → Text → Prop
  | direct {path p : Text} (direct : byte ':' ∉ path)
      (first : FirstPresent present (directPaths directory path) p) :
      FirstFor present directory roots path p
  | qualified {kind : ModuleKind} {path p : Text}
      (first : FirstInRoots present (roots kind) (fileNames kind path) p) :
      FirstFor present directory roots (kind.name ++ byte ':' :: path) p

/-- The name is a path from the root, and not the shortest one that is lexically the same. -/
def Unclean (name : Text) : Prop :=
  byte ':' ∉ name ∧ isAbsolute name = true ∧ clean name ≠ name

lemma clean_of_firstPresent {present : Text → Bool} {directory path p : Text}
    (habsolute : isAbsolute path = true) (hclean : clean path = path)
    (h : FirstPresent present (directPaths directory path) p) : clean p = p := by
  obtain ⟨earlier, later, hpaths, -, -⟩ := h
  have hp : p ∈ directPaths directory path := by simp [hpaths]
  rw [directPaths, if_pos habsolute] at hp
  rcases List.mem_pair.mp hp with rfl | rfl
  · exact hclean
  · exact clean_append hclean (by decide) (by decide)

/-- What a name stands for is the first path that is present, unless that is cleaned. -/
lemma Finds.firstFor {present : Text → Bool} {directory : Text} {roots : ModuleKind → List Text}
    {name p : Text} (h : Finds present directory roots name (.ok p)) (hname : ¬Unclean name) :
    FirstFor present directory roots name p := by
  cases h with
  | relative direct relative first => exact .direct direct first
  | absolute direct absolute first =>
    have hclean : clean name = name := by
      by_contra hunclean
      exact hname ⟨direct, absolute, hunclean⟩
    rw [clean_of_firstPresent absolute hclean first]
    exact .direct direct first
  | qualified first => exact .qualified first

open Occurrence (asked)

section

variable (here root : Text) (settings : List ResolverSetting) (present : Text → Bool)

/-- A resolver that was made with the settings, and the files, after what happened to them. -/
def siteAfter (occurrences : List Occurrence) : Site :=
  occurrences.foldl Site.after ⟨present, resolverAfter here root settings present []⟩

/-- What a name stands for among the files and the roots of the moment after the occurrences. -/
def FindsAfter (occurrences : List Occurrence) (name : Text) (result : Except ResolveError Text) :
    Prop :=
  Finds (presentAfter present occurrences) (directoryAfter here settings)
    (rootsAfter (Path.absolute here root) settings (requestsOf occurrences)) name result

/-- The path is the first one that is present when the name is looked for after the occurrences. -/
def FirstAfter (occurrences : List Occurrence) (name p : Text) : Prop :=
  FirstFor (presentAfter present occurrences) (directoryAfter here settings)
    (rootsAfter (Path.absolute here root) settings (requestsOf occurrences)) name p

variable {here root settings present}

lemma siteAfter_append (occurrences more : List Occurrence) :
    siteAfter here root settings present (occurrences ++ more) =
      more.foldl Site.after (siteAfter here root settings present occurrences) :=
  List.foldl_append

lemma siteAfter_snoc (occurrences : List Occurrence) (o : Occurrence) :
    siteAfter here root settings present (occurrences ++ [o]) =
      (siteAfter here root settings present occurrences).after o :=
  siteAfter_append occurrences [o]

lemma present_siteAfter (occurrences : List Occurrence) :
    (siteAfter here root settings present occurrences).present =
      presentAfter present occurrences := by
  have hsteps : ∀ s : Site,
      (occurrences.foldl Site.after s).present = presentAfter s.present occurrences := by
    induction occurrences with
    | nil => exact fun s => rfl
    | cons o occurrences ih =>
      intro s
      rw [List.foldl_cons, ih]
      cases o <;> rfl
  exact hsteps _

lemma Grown.trans {kind : Text} {dirs dirs' : List Text} {r r' r'' : Resolver}
    (h : Grown kind dirs r r') (h' : Grown kind dirs' r' r'') :
    Grown kind (dirs ++ dirs') r r'' := by
  refine ⟨h'.1.trans h.1, ?_⟩
  rw [h'.2, h.2, h.1, List.map_append, List.append_assoc]

lemma grown_siteAfter (kind : Text) (occurrences : List Occurrence) :
    Grown kind ((requestsOf occurrences).flatMap (ResolverRequest.dirs kind))
      (resolverAfter here root settings present [])
      (siteAfter here root settings present occurrences).resolver := by
  induction occurrences using List.reverseRecOn with
  | nil => exact grown_of_eq rfl rfl
  | append_singleton occurrences o ih =>
    rw [siteAfter_snoc, requestsOf, List.flatMap_append, List.flatMap_append,
      List.flatMap_singleton]
    apply ih.trans
    cases o with
    | changed present => exact grown_of_eq rfl rfl
    | asked request =>
      rw [Occurrence.requests, List.flatMap_singleton]
      exact grown_serve kind _ _ request

lemma searchPaths_siteAfter (occurrences : List Occurrence) (kind : ModuleKind) :
    (siteAfter here root settings present occurrences).resolver.searchPaths kind.name =
      rootsAfter (Path.absolute here root) settings (requestsOf occurrences) kind := by
  have hgrown : Grown kind.name _ (resolverAfter here root settings present []) _ :=
    grown_siteAfter kind.name occurrences
  have hstart : (resolverAfter here root settings present []).root = Path.absolute here root :=
    (grown_foldl (grown_configure kind.name here) settings (Resolver.new here root)).1
  rw [hgrown.2, searchPaths_resolverAfter, hstart, rootsAfter, rootsAfter, List.flatMap_nil,
    List.append_nil, ← List.map_append]

lemma cwd_siteAfter (occurrences : List Occurrence) :
    (siteAfter here root settings present occurrences).resolver.cwd =
      directoryAfter here settings := by
  induction occurrences using List.reverseRecOn with
  | nil => exact cwd_resolverAfter here root settings present []
  | append_singleton occurrences o ih =>
    rw [siteAfter_snoc, ← ih]
    cases o with
    | changed present => rfl
    | asked request => exact cwd_serve _ _ request

/-- A search at a moment finds what the name stands for then. -/
lemma search_siteAfter_iff (hhere : here ≠ []) {occurrences : List Occurrence} {name : Text}
    {result : Except ResolveError Text} :
    (siteAfter here root settings present occurrences).resolver.search
        (presentAfter present occurrences) name = result ↔
      FindsAfter here root settings present occurrences name result := by
  have hcwd : (siteAfter here root settings present occurrences).resolver.cwd = _ :=
    cwd_siteAfter occurrences
  have hroots : (fun kind : ModuleKind =>
      (siteAfter here root settings present occurrences).resolver.searchPaths kind.name) =
      rootsAfter (Path.absolute here root) settings (requestsOf occurrences) :=
    funext fun kind => searchPaths_siteAfter occurrences kind
  rw [search_eq_iff (hcwd ▸ directoryAfter_ne_nil hhere settings), hcwd, hroots]
  rfl

end

/-! ### One request -/

lemma resolve_of_kept {r : Resolver} {name p : Text} (present : Text → Bool)
    (h : r.found.lookup name = some p) : r.resolve present name = (.ok p, r) := by
  rw [Resolver.resolve, h]

lemma resolve_of_unknown {r : Resolver} {name : Text} (present : Text → Bool)
    (h : r.found.lookup name = none) :
    (r.resolve present name).1 = r.search present name := by
  rw [Resolver.resolve, h]
  dsimp only
  cases r.search present name <;> rfl

/-- A failed resolution changes nothing, and the name was not kept. -/
lemma resolve_of_error {r : Resolver} {present : Text → Bool} {name : Text} {e : ResolveError}
    (h : (r.resolve present name).1 = .error e) :
    (r.resolve present name).2 = r ∧ r.found.lookup name = none := by
  cases hfound : r.found.lookup name with
  | some p =>
    rw [resolve_of_kept present hfound] at h
    cases h
  | none =>
    rw [resolve_of_unknown present hfound] at h
    rw [Resolver.resolve, hfound]
    dsimp only
    rw [h]
    exact ⟨rfl, rfl⟩

lemma serve_lookup {name : Text} {request : ResolverRequest} (h : request ∈ lookups name)
    (present : Text → Bool) (r : Resolver) :
    serve present r request = (r.resolve present name).2 := by
  rcases List.mem_pair.mp h with rfl | rfl <;> rfl

lemma exists_error_of_fails {s : Site} {name : Text} {request : ResolverRequest}
    (hrequest : request ∈ lookups name) (h : s.Fails request) :
    ∃ e, (s.resolver.resolve s.present name).1 = .error e := by
  rcases List.mem_pair.mp hrequest with rfl | rfl
  · exact h
  · have hnot : (s.resolver.resolve s.present name).1.isOk = false := h
    cases hresult : (s.resolver.resolve s.present name).1 with
    | error e => exact ⟨e, rfl⟩
    | ok p =>
      rw [hresult] at hnot
      cases hnot

lemma lookup_cons_of_ne {name other : Text} (h : name ≠ other) (p : Text)
    (found : List (Text × Text)) : ((other, p) :: found).lookup name = found.lookup name := by
  have hne : (name == other) = false := by simpa using h
  rw [List.lookup, hne]

/-- Where a kept answer comes from: it was kept before, or it has just been found. -/
lemma lookup_resolve_cases {r : Resolver} {present : Text → Bool} {name other p : Text}
    (h : (r.resolve present other).2.found.lookup name = some p) :
    r.found.lookup name = some p ∨ other = name ∧ r.search present name = .ok p := by
  rcases resolve_cases r present other with heq | ⟨q, hsearch, heq⟩
  · rw [heq] at h
    exact .inl h
  · rw [heq] at h
    by_cases hname : name = other
    · subst hname
      obtain rfl : q = p := by simpa using h
      exact .inr ⟨rfl, hsearch⟩
    · rw [lookup_cons_of_ne hname] at h
      exact .inl h

lemma lookup_serve_cases {r : Resolver} {present : Text → Bool} {request : ResolverRequest}
    {name p : Text} (h : (serve present r request).found.lookup name = some p) :
    (request ≠ .clearCache ∧ r.found.lookup name = some p) ∨
      (request ∈ lookups name ∧ r.search present name = .ok p) := by
  cases request with
  | addSearchPath kind dir => exact .inl ⟨by simp, h⟩
  | clearCache => cases h
  | resolve other =>
    rcases lookup_resolve_cases h with hkept | ⟨rfl, hsearch⟩
    · exact .inl ⟨by simp, hkept⟩
    · exact .inr ⟨by simp [lookups], hsearch⟩
  | canResolve other =>
    rcases lookup_resolve_cases h with hkept | ⟨rfl, hsearch⟩
    · exact .inl ⟨by simp, hkept⟩
    · exact .inr ⟨by simp [lookups], hsearch⟩

lemma lookup_resolve_of_kept {r : Resolver} {name p : Text} (present : Text → Bool) (other : Text)
    (h : r.found.lookup name = some p) :
    (r.resolve present other).2.found.lookup name = some p := by
  by_cases hname : name = other
  · subst hname
    rw [resolve_of_kept present h]
    exact h
  · rcases resolve_cases r present other with heq | ⟨q, -, heq⟩
    · rwa [heq]
    · rw [heq, lookup_cons_of_ne hname]
      exact h

/-- Only a clear takes away what is kept. -/
lemma lookup_serve_of_kept {r : Resolver} {request : ResolverRequest} {name p : Text}
    (present : Text → Bool) (h : r.found.lookup name = some p) (hclear : request ≠ .clearCache) :
    (serve present r request).found.lookup name = some p := by
  cases request with
  | addSearchPath kind dir => exact h
  | clearCache => exact absurd rfl hclear
  | resolve other => exact lookup_resolve_of_kept present other h
  | canResolve other => exact lookup_resolve_of_kept present other h

/-! ### All that happens -/

lemma kept_after {s : Site} {name p : Text} (h : s.resolver.found.lookup name = some p)
    {more : List Occurrence} (hmore : asked .clearCache ∉ more) :
    (more.foldl Site.after s).resolver.found.lookup name = some p := by
  induction more generalizing s with
  | nil => exact h
  | cons o more ih =>
    rw [List.mem_cons, not_or] at hmore
    apply ih _ hmore.2
    cases o with
    | changed present => exact h
    | asked request =>
      apply lookup_serve_of_kept _ h
      rintro rfl
      exact hmore.1 rfl

/-- A name that nobody asks for stays unknown. -/
lemma unknown_after {s : Site} {name : Text} (h : s.resolver.found.lookup name = none)
    {more : List Occurrence} (hmore : ∀ request ∈ lookups name, asked request ∉ more) :
    (more.foldl Site.after s).resolver.found.lookup name = none := by
  induction more generalizing s with
  | nil => exact h
  | cons o more ih =>
    apply ih _ fun request hrequest hmem => hmore request hrequest (List.mem_cons_of_mem o hmem)
    cases o with
    | changed present => exact h
    | asked request =>
      rw [Option.eq_none_iff_forall_ne_some]
      intro p hp
      rcases lookup_serve_cases hp with ⟨-, hkept⟩ | ⟨hlookup, -⟩
      · rw [h] at hkept
        cases hkept
      · exact hmore request hlookup List.mem_cons_self

section

variable {here root : Text} {settings : List ResolverSetting} {present : Text → Bool}

/-- An answer that is kept was found by a lookup since the last clear. -/
lemma lookup_siteAfter {occurrences : List Occurrence} {name p : Text}
    (h : (siteAfter here root settings present occurrences).resolver.found.lookup name = some p) :
    ∃ before request later, occurrences = before ++ asked request :: later ∧
      request ∈ lookups name ∧ asked .clearCache ∉ later ∧
      (siteAfter here root settings present before).resolver.search (presentAfter present before)
        name = .ok p ∧
      (siteAfter here root settings present
        (before ++ [asked request])).resolver.found.lookup name = some p := by
  induction occurrences using List.reverseRecOn with
  | nil =>
    have hfound : (siteAfter here root settings present []).resolver.found = [] :=
      (configured here settings _).2
    rw [hfound] at h
    cases h
  | append_singleton occurrences o ih =>
    -- what was kept before the last occurrence has its moment already
    have hearlier : o ≠ asked .clearCache →
        (siteAfter here root settings present occurrences).resolver.found.lookup name = some p →
        ∃ before request later, occurrences ++ [o] = before ++ asked request :: later ∧
          request ∈ lookups name ∧ asked .clearCache ∉ later ∧
          (siteAfter here root settings present before).resolver.search
            (presentAfter present before) name = .ok p ∧
          (siteAfter here root settings present
            (before ++ [asked request])).resolver.found.lookup name = some p := by
      intro ho hkept
      obtain ⟨before, request, later, rfl, hrequest, hlater, hmoment⟩ := ih hkept
      refine ⟨before, request, later ++ [o], by simp, hrequest, ?_, hmoment⟩
      simpa [hlater] using Ne.symm ho
    cases o with
    | changed present' =>
      rw [siteAfter_snoc] at h
      exact hearlier (by simp) h
    | asked request =>
      have hserved := h
      rw [siteAfter_snoc] at hserved
      rcases lookup_serve_cases hserved with ⟨hrequest, hkept⟩ | ⟨hrequest, hsearch⟩
      · exact hearlier (by simpa using hrequest) hkept
      · rw [present_siteAfter] at hsearch
        exact ⟨occurrences, request, [], rfl, hrequest, by simp, hsearch, h⟩

/-- No name is kept twice. -/
lemma nodup_siteAfter (occurrences : List Occurrence) :
    ((siteAfter here root settings present occurrences).resolver.found.map Prod.fst).Nodup := by
  have hresolve : ∀ (r : Resolver) (present : Text → Bool) (name : Text),
      (r.found.map Prod.fst).Nodup → ((r.resolve present name).2.found.map Prod.fst).Nodup := by
    intro r present name hr
    cases hfound : r.found.lookup name with
    | some p => rwa [resolve_of_kept present hfound]
    | none =>
      rcases resolve_cases r present name with heq | ⟨p, -, heq⟩
      · rwa [heq]
      · rw [heq, List.map_cons, List.nodup_cons]
        refine ⟨?_, hr⟩
        intro hmem
        obtain ⟨entry, hentry, hname⟩ := List.mem_map.mp hmem
        have habsent := List.lookup_eq_none_iff.mp hfound entry hentry
        simp [hname] at habsent
  induction occurrences using List.reverseRecOn with
  | nil =>
    have hfound : (siteAfter here root settings present []).resolver.found = [] :=
      (configured here settings _).2
    rw [hfound]
    exact List.nodup_nil
  | append_singleton occurrences o ih =>
    rw [siteAfter_snoc]
    cases o with
    | changed present' => exact ih
    | asked request =>
      cases request with
      | resolve name => exact hresolve _ _ name ih
      | canResolve name => exact hresolve _ _ name ih
      | addSearchPath kind dir => exact ih
      | clearCache => exact List.nodup_nil

lemma lookup_of_mem {found : List (Text × Text)} (hnodup : (found.map Prod.fst).Nodup)
    {name p : Text} (h : (name, p) ∈ found) : found.lookup name = some p := by
  induction found with
  | nil => cases h
  | cons entry found ih =>
    rw [List.map_cons, List.nodup_cons] at hnodup
    rcases List.mem_cons.mp h with rfl | hmem
    · simp
    · have hne : name ≠ entry.1 := by
        intro heq
        exact hnodup.1 (heq ▸ List.mem_map_of_mem hmem)
      rw [← ih hnodup.2 hmem]
      exact lookup_cons_of_ne hne entry.2 found

/-- From the moment of an answer that is kept up to the next clear, it is given without a look at
the files. -/
lemma resolve_siteAfter_of_kept {occurrences : List Occurrence} {name p : Text}
    (h : (siteAfter here root settings present occurrences).resolver.found.lookup name = some p)
    {more : List Occurrence} (hmore : asked .clearCache ∉ more) :
    let s := siteAfter here root settings present (occurrences ++ more)
    s.resolver.resolve s.present name = (.ok p, s.resolver) ∧
      s.resolver.probed s.present name = [] := by
  intro s
  have hkept : s.resolver.found.lookup name = some p := by
    rw [show s = _ from siteAfter_append occurrences more]
    exact kept_after h hmore
  refine ⟨resolve_of_kept s.present hkept, ?_⟩
  rw [probed, hkept]

/-- As long as nobody asks for it, a name that is unknown is answered from the files and the roots
of the moment. -/
lemma resolve_siteAfter_of_unknown (hhere : here ≠ []) {occurrences : List Occurrence} {name : Text}
    (h : (siteAfter here root settings present occurrences).resolver.found.lookup name = none)
    {more : List Occurrence} (hmore : ∀ request ∈ lookups name, asked request ∉ more)
    (result : Except ResolveError Text) :
    let s := siteAfter here root settings present (occurrences ++ more)
    (s.resolver.resolve s.present name).1 = result ↔
      FindsAfter here root settings present (occurrences ++ more) name result := by
  intro s
  have hunknown : s.resolver.found.lookup name = none := by
    rw [show s = _ from siteAfter_append occurrences more]
    exact unknown_after h hmore
  rw [resolve_of_unknown s.present hunknown, ← search_siteAfter_iff hhere,
    show s.present = _ from present_siteAfter _]

/-- A lookup that fails leaves the site as it is, with the name unknown. -/
lemma siteAfter_of_fails {occurrences : List Occurrence} {name : Text} {request : ResolverRequest}
    (hrequest : request ∈ lookups name)
    (h : (siteAfter here root settings present occurrences).Fails request) :
    siteAfter here root settings present (occurrences ++ [asked request]) =
        siteAfter here root settings present occurrences ∧
      (siteAfter here root settings present occurrences).resolver.found.lookup name = none := by
  obtain ⟨e, he⟩ := exists_error_of_fails hrequest h
  obtain ⟨hsame, hunknown⟩ := resolve_of_error he
  refine ⟨?_, hunknown⟩
  rw [siteAfter_snoc, Site.after, serve_lookup hrequest, hsame]

/-- For an unclean name the cleaned path is kept, also if only the path as it is given is there. -/
lemma cached_of_unclean (hhere : here ≠ []) {name : Text} (hname : Unclean name) :
    (siteAfter here root settings [name].contains [asked (.resolve name)]).resolver.cached =
      [(name, clean name)] := by
  obtain ⟨hdirect, habsolute, -⟩ := hname
  have hfound : (siteAfter here root settings [name].contains []).resolver.found = [] :=
    (configured here settings _).2
  have hsearch : (siteAfter here root settings [name].contains []).resolver.search
      [name].contains name = .ok (clean name) := by
    apply (search_siteAfter_iff hhere).mpr
    refine .absolute hdirect habsolute ⟨[], [name ++ Text.ofString ".velac"], ?_, ?_, ?_⟩
    · rw [directPaths, if_pos habsolute]
      rfl
    · simp [presentAfter]
    · simp
  have hkept : (siteAfter here root settings [name].contains
      [asked (.resolve name)]).resolver.found = [(name, clean name)] := by
    show ((siteAfter here root settings [name].contains []).resolver.resolve
      [name].contains name).2.found = _
    rw [Resolver.resolve, hfound, hsearch]
    simp only [List.lookup_nil]
  rw [cached, hkept, List.mergeSort_singleton]

/-- Whatever happens to the files, what a resolver keeps for a name was found for it among the files
and the roots of the moment when it was looked up, since the last clear. Up to the next clear that
is the answer, and no file is looked for. A lookup that fails changes nothing, so that the next one
answers from the files and the roots that there are by then. What is kept was the first path that
was there, unless the name is unclean. For every such name there are files among which what is kept
never was. -/
theorem kept_answer_was_found {here : Text} (hhere : here ≠ []) (root : Text)
    (settings : List ResolverSetting) (present : Text → Bool) (occurrences : List Occurrence)
    (name : Text) :
    let site := siteAfter here root settings present
    let finds := FindsAfter here root settings present
    (∀ p, (name, p) ∈ (site occurrences).resolver.cached →
      ∃ before request later, occurrences = before ++ asked request :: later ∧
        request ∈ lookups name ∧ asked .clearCache ∉ later ∧ finds before name (.ok p) ∧
        (¬Unclean name → FirstAfter here root settings present before name p) ∧
        ∀ more, asked .clearCache ∉ more →
          let s := site (before ++ asked request :: more)
          s.resolver.resolve s.present name = (.ok p, s.resolver) ∧
            s.resolver.probed s.present name = []) ∧
    (∀ request ∈ lookups name, (site occurrences).Fails request →
      site (occurrences ++ [asked request]) = site occurrences ∧
        ∀ more, (∀ lookup ∈ lookups name, asked lookup ∉ more) →
          let s := site (occurrences ++ asked request :: more)
          ∀ result, (s.resolver.resolve s.present name).1 = result ↔
            finds (occurrences ++ asked request :: more) name result) ∧
    (Unclean name →
      (siteAfter here root settings [name].contains [asked (.resolve name)]).resolver.cached =
          [(name, clean name)] ∧
        [name].contains name = true ∧ [name].contains (clean name) = false) := by
  intro site finds
  refine ⟨?_, ?_, fun hname => ⟨cached_of_unclean hhere hname, by simp, by simpa using hname.2.2⟩⟩
  · intro p hp
    have hmem : (name, p) ∈ (site occurrences).resolver.found := List.mem_mergeSort.mp hp
    have hkept := lookup_of_mem (nodup_siteAfter occurrences) hmem
    obtain ⟨before, request, later, heq, hrequest, hlater, hsearch, hfirst⟩ :=
      lookup_siteAfter hkept
    have hfinds := (search_siteAfter_iff hhere).mp hsearch
    refine ⟨before, request, later, heq, hrequest, hlater, hfinds, hfinds.firstFor, ?_⟩
    intro more hmore
    have hstays := resolve_siteAfter_of_kept hfirst hmore
    rwa [List.append_assoc, List.singleton_append] at hstays
  · intro request hrequest hfails
    obtain ⟨hsame, hunknown⟩ := siteAfter_of_fails hrequest hfails
    refine ⟨hsame, ?_⟩
    intro more hmore
    rw [← hsame] at hunknown
    have hanswer := resolve_siteAfter_of_unknown hhere hunknown hmore
    rwa [List.append_assoc, List.singleton_append] at hanswer

end

/-- A library is looked for in vain, then its file is made, found and taken away again. -/
theorem late_library_kept :
    let file : Text := "/p/lib/late.velac"
    let before : List Occurrence := [asked (.resolve "library:late"), .changed [file].contains]
    let occurrences : List Occurrence :=
      before ++ [asked (.canResolve "library:late"), .changed fun _ => false]
    let site := siteAfter "/w" "/p" [] fun _ => false
    Text.ofString "/w" ≠ [] ∧ (site []).Fails (.resolve "library:late") ∧
      site [asked (.resolve "library:late")] = site [] ∧
      (Text.ofString "library:late", file) ∈ (site occurrences).resolver.cached ∧
      ((site occurrences).resolver.resolve (site occurrences).present "library:late").1 =
        .ok file := by
  intro file before occurrences site
  have hhere : Text.ofString "/w" ≠ [] := by decide
  have hfails : (site []).Fails (.resolve "library:late") :=
    ⟨.notInRoots "library:late" .library "late", by decide⟩
  have hkept : (Text.ofString "library:late", file) ∈ (site occurrences).resolver.cached :=
    List.mem_mergeSort.mpr (by decide)
  refine ⟨hhere, hfails, ?_, hkept, ?_⟩
  · exact ((kept_answer_was_found hhere "/p" [] (fun _ => false) [] "library:late").2.1 _
      (by simp [lookups]) hfails).1
  · obtain ⟨before', request, later, heq, -, hlater, -, -, hstays⟩ :=
      (kept_answer_was_found hhere "/p" [] (fun _ => false) occurrences "library:late").1 file hkept
    have hanswer := (hstays later hlater).1
    rw [← heq] at hanswer
    exact congrArg Prod.fst hanswer

/-- What is kept for a path from the root is its cleaned form. That need not be present when the
path is, and here it never was. -/
theorem kept_path_never_present :
    let present : Text → Bool := [Text.ofString "/link/../a"].contains
    let s := siteAfter "/w" "/p" [] present [asked (.resolve "/link/../a")]
    s.resolver.cached = [(Text.ofString "/link/../a", Text.ofString "/a")] ∧
      presentAfter present [] "/a" = false ∧ s.present "/a" = false ∧
      FirstPresent present (directPaths "/w" "/link/../a") "/link/../a" := by
  intro present s
  have hfound : s.resolver.found = [(Text.ofString "/link/../a", Text.ofString "/a")] := by decide
  refine ⟨?_, by decide, by decide, ?_⟩
  · rw [cached, hfound, List.mergeSort_singleton]
  · exact ⟨[], [Text.ofString "/link/../a.velac"], by decide, by decide, by simp⟩

end StackCode.Proofs
