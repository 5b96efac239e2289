import StackCode.Proofs.KeptAnswers

/-!
# Files below the search roots

A qualified name is looked for below the roots of its kind. The path in the name may hold steps up,
and they are worked out together with the root. So what is found lies below a root for certain only
if the path never leads above the place where it starts.
-/

namespace StackCode.Proofs

open Text StackCode.Path Resolver

/-! ### Below a directory -/

/-- The path of what a directory holds under a name. -/
def entryPath (dir name : Text) : Text :=
  if dir = "." then name else if dir = "/" then slash :: name else dir ++ slash :: name

/-- The root itself and, in turn, what the directories inside it hold. -/
inductive Inside (root : Text) : Text → Prop
  | root : Inside root root
  | entry {dir name : Text} (hdir : Inside root dir) (hname : IsPartName name) :
    Inside root (entryPath dir name)

lemma inOrder_nil (rooted : Bool) : InOrder rooted [] := ⟨0, [], rfl, fun _ => rfl, by simp⟩

lemma InOrder.append {rooted : Bool} {ps names : List Text} (h : InOrder rooted ps)
    (hnames : ∀ name ∈ names, IsPartName name) : InOrder rooted (ps ++ names) := by
  obtain ⟨ups, front, rfl, hrooted, hfront⟩ := h
  refine ⟨ups, front ++ names, by rw [List.append_assoc], hrooted, ?_⟩
  intro name hname
  rcases List.mem_append.mp hname with hname | hname
  · exact hfront name hname
  · exact hnames name hname

lemma ofParts_inj {rooted rooted' : Bool} {ps qs : List Text} (hps : InOrder rooted ps)
    (hqs : InOrder rooted' qs) (h : ofParts rooted ps = ofParts rooted' qs) :
    rooted = rooted' ∧ ps = qs := by
  constructor
  · rw [← isAbsolute_ofParts hps, h, isAbsolute_ofParts hqs]
  · rw [← parts_ofParts hps, h, parts_ofParts hqs]

lemma entryPath_ofParts {rooted : Bool} {ps : List Text} (h : InOrder rooted ps) (name : Text) :
    entryPath (ofParts rooted ps) name = ofParts rooted (ps ++ [name]) := by
  by_cases hps : ps = []
  · subst hps
    cases rooted <;> rfl
  · have hdot : ofParts rooted ps ≠ "." :=
      fun heq => hps (ofParts_inj h (inOrder_nil false) heq).2
    have hroot : ofParts rooted ps ≠ "/" :=
      fun heq => hps (ofParts_inj h (inOrder_nil true) heq).2
    rw [entryPath, if_neg hdot, if_neg hroot]
    have hjoin : Text.join "/" (ps ++ [name]) = Text.join "/" ps ++ slash :: name := by
      rw [join_append _ hps (by simp), List.append_assoc]
      rfl
    cases rooted with
    | true => simp [ofParts, hjoin]
    | false => simp [ofParts, hps, hjoin]

/-- What is inside a clean path has its parts and then names. -/
lemma inside_ofParts_iff {rooted : Bool} {ps : List Text} (h : InOrder rooted ps) {p : Text} :
    Inside (ofParts rooted ps) p ↔
      ∃ names, (∀ name ∈ names, IsPartName name) ∧ p = ofParts rooted (ps ++ names) := by
  constructor
  · intro hp
    induction hp with
    | root => exact ⟨[], by simp, by rw [List.append_nil]⟩
    | @entry dir name _ hname ih =>
      obtain ⟨names, hnames, rfl⟩ := ih
      refine ⟨names ++ [name], ?_, ?_⟩
      · intro n hn
        rcases List.mem_append.mp hn with hn | hn
        · exact hnames n hn
        · rwa [List.mem_singleton.mp hn]
      · rw [entryPath_ofParts (h.append hnames), List.append_assoc]
  · rintro ⟨names, hnames, rfl⟩
    induction names using List.reverseRecOn with
    | nil =>
      rw [List.append_nil]
      exact .root
    | append_singleton names name ih =>
      have hfront : ∀ n ∈ names, IsPartName n := fun n hn => hnames n (by simp [hn])
      rw [← List.append_assoc, ← entryPath_ofParts (h.append hfront)]
      exact .entry (ih hfront) (hnames name (by simp))

/-! ### Along a path -/

/-- From a place `depth` names down, the parts never lead above where these names start. -/
def staysBelow : (depth : Nat) → List Text → Bool
  | _, [] => true
  | depth, part :: path =>
    if part = "" ∨ part = "." then staysBelow depth path
    else if part = ".." then depth ≠ 0 && staysBelow (depth - 1) path
    else staysBelow (depth + 1) path

lemma addPart_of_skip {rooted : Bool} {done : List Text} {part : Text}
    (h : part = "" ∨ part = ".") : addPart rooted done part = done := if_pos h

lemma addPart_up {rooted : Bool} {last : Text} (done : List Text) (h : last ≠ "..") :
    addPart rooted (last :: done) ".." = done := by
  unfold addPart
  rw [if_neg (by decide), if_pos rfl]
  simp only [if_neg h]

/-- A path that stays below leads from any place down to names. The names are kept with the latest
one first, before the place. -/
lemma exists_names_of_staysBelow (rooted : Bool) (base down : List Text) {path : List Text}
    (hdown : ∀ name ∈ down, IsPartName name) (hpath : ∀ part ∈ path, slash ∉ part)
    (h : staysBelow down.length path = true) :
    ∃ names, (∀ name ∈ names, IsPartName name) ∧
      path.foldl (addPart rooted) (down ++ base) = names ++ base := by
  induction path generalizing down with
  | nil => exact ⟨down, hdown, rfl⟩
  | cons part path ih =>
    have hrest : ∀ p ∈ path, slash ∉ p := fun p hp => hpath p (by simp [hp])
    rw [List.foldl_cons]
    unfold staysBelow at h
    split_ifs at h with hskip hup
    · rw [addPart_of_skip hskip]
      exact ih down hdown hrest h
    · obtain ⟨hdepth, h⟩ : down.length ≠ 0 ∧ staysBelow (down.length - 1) path = true := by
        simpa using h
      obtain ⟨last, down, rfl⟩ := List.exists_cons_of_length_pos (Nat.pos_of_ne_zero hdepth)
      rw [hup, List.cons_append, addPart_up _ (hdown last (by simp)).2.2.1]
      exact ih down (fun name hname => hdown name (by simp [hname])) hrest h
    · have hname : IsPartName part :=
        ⟨fun hp => hskip (.inl hp), fun hp => hskip (.inr hp), hup, hpath part (by simp)⟩
      rw [addPart_of_name hname, ← List.cons_append]
      apply ih (part :: down) _ hrest h
      intro name hmem
      rcases List.mem_cons.mp hmem with rfl | hmem
      · exact hname
      · exact hdown name hmem

lemma mem_addPart {rooted : Bool} {done : List Text} {part x : Text}
    (h : x ∈ addPart rooted done part) : x = part ∨ x ∈ done := by
  unfold addPart at h
  by_cases hskip : part = "" ∨ part = "."
  · rw [if_pos hskip] at h
    exact .inr h
  · rw [if_neg hskip] at h
    by_cases hup : part = ".."
    · rw [if_pos hup] at h
      cases done with
      | nil =>
        cases rooted with
        | true => cases h
        | false => exact .inl (List.mem_singleton.mp h)
      | cons last rest =>
        dsimp only at h
        split_ifs at h
        · exact List.mem_cons.mp h
        · exact .inr (List.mem_cons_of_mem last h)
    · rw [if_neg hup] at h
      exact List.mem_cons.mp h

lemma mem_addParts {rooted : Bool} {done path : List Text} {x : Text}
    (h : x ∈ path.foldl (addPart rooted) done) : x ∈ path ∨ x ∈ done := by
  induction path generalizing done with
  | nil => exact .inr h
  | cons part path ih =>
    rcases ih h with hpath | hdone
    · exact .inl (List.mem_cons_of_mem part hpath)
    · rcases mem_addPart hdone with rfl | hdone
      · exact .inl List.mem_cons_self
      · exact .inr hdone

/-- A path that does not stay below takes back the name before it, for good if it does not hold that
name itself. -/
lemma not_mem_of_not_staysBelow (rooted : Bool) {base : Text} (down : List Text) {path : List Text}
    (hbase : IsPartName base) (hdown : ∀ name ∈ down, IsPartName name ∧ name ≠ base)
    (hslash : ∀ part ∈ path, slash ∉ part) (hpath : base ∉ path)
    (h : staysBelow down.length path = false) :
    base ∉ path.foldl (addPart rooted) (down ++ [base]) := by
  induction path generalizing down with
  | nil => cases h
  | cons part path ih =>
    rw [List.mem_cons, not_or] at hpath
    have hrest : ∀ p ∈ path, slash ∉ p := fun p hp => hslash p (by simp [hp])
    rw [List.foldl_cons]
    unfold staysBelow at h
    split_ifs at h with hskip hup
    · rw [addPart_of_skip hskip]
      exact ih down hdown hrest hpath.2 h
    · cases down with
      | nil =>
        rw [hup, List.nil_append, addPart_up _ hbase.2.2.1]
        intro hmem
        rcases mem_addParts hmem with hmem | hmem
        · exact hpath.2 hmem
        · cases hmem
      | cons last down =>
        rw [hup, List.cons_append, addPart_up _ (hdown last (by simp)).1.2.2.1]
        exact ih down (fun name hname => hdown name (by simp [hname])) hrest hpath.2
          (by simpa using h)
    · have hname : IsPartName part :=
        ⟨fun hp => hskip (.inl hp), fun hp => hskip (.inr hp), hup, hslash part (by simp)⟩
      rw [addPart_of_name hname, ← List.cons_append]
      apply ih (part :: down) _ hrest hpath.2 h
      intro name hmem
      rcases List.mem_cons.mp hmem with rfl | hmem
      · exact ⟨hname, Ne.symm hpath.1⟩
      · exact hdown name hmem

/-! ### Paths below directories -/

/-- A separator divides the pieces before it from those after it. -/
lemma splitOn_append_sep (sep : UInt8) (s t : Text) :
    splitOn sep (s ++ sep :: t) = splitOn sep s ++ splitOn sep t := by
  induction hn : s.length using Nat.strong_induction_on generalizing s with
  | _ n ih =>
    by_cases hsep : sep ∈ s
    · obtain ⟨front, back, rfl, hfront⟩ := List.eq_append_cons_of_mem hsep
      have hshorter : back.length < n := by
        rw [← hn, List.length_append, List.length_cons]
        omega
      rw [List.append_assoc, List.cons_append, splitOn_append hfront, splitOn_append hfront,
        ih back.length hshorter back rfl, List.cons_append]
    · rw [splitOn_append hsep, splitOn_of_not_mem hsep, List.singleton_append]

/-- An ending without a separator belongs to the last piece. -/
lemma exists_splitOn_append {sep : UInt8} {ending : Text} (h : sep ∉ ending) (t : Text) :
    ∃ front last, splitOn sep t = front ++ [last] ∧
      splitOn sep (t ++ ending) = front ++ [last ++ ending] := by
  by_cases hsep : sep ∈ t
  · obtain ⟨back, front, hreverse, hback⟩ :=
      List.eq_append_cons_of_mem (List.mem_reverse.mpr hsep)
    obtain rfl : t = front.reverse ++ sep :: back.reverse := by
      rw [← List.reverse_reverse t, hreverse]
      simp
    have hlast : sep ∉ back.reverse := by simpa using hback
    have hending : sep ∉ back.reverse ++ ending := by simpa using ⟨hback, h⟩
    refine ⟨splitOn sep front.reverse, back.reverse, ?_, ?_⟩
    · rw [splitOn_append_sep, splitOn_of_not_mem hlast]
    · rw [List.append_assoc, List.cons_append, splitOn_append_sep, splitOn_of_not_mem hending]
  · have hending : sep ∉ t ++ ending := by simpa using ⟨hsep, h⟩
    exact ⟨[], t, splitOn_of_not_mem hsep, splitOn_of_not_mem hending⟩

/-- The path below a directory is the directory's, and the parts of the path are worked out from
there. -/
lemma join_eq_ofParts {dir : Text} (h : dir ≠ []) (path : Text) :
    Path.join [dir, path] = ofParts (isAbsolute dir)
      ((splitOn slash path).foldl (addPart (isAbsolute dir)) (parts dir).reverse).reverse := by
  have htext : Text.join "/" [dir, path] = dir ++ slash :: path := by
    rw [join_cons _ _ (by simp), List.append_assoc]
    rfl
  have habsolute : isAbsolute (dir ++ slash :: path) = isAbsolute dir := by
    rw [isAbsolute, List.head?_append_of_ne_nil _ h, isAbsolute]
  rw [join_directory h, htext, clean_eq, habsolute, parts, habsolute, splitOn_append_sep,
    List.foldl_append, parts, List.reverse_reverse]

lemma inside_join {dir path : Text} (hdir : clean dir = dir)
    (h : staysBelow 0 (splitOn slash path) = true) : Inside dir (Path.join [dir, path]) := by
  have hne : dir ≠ [] := hdir ▸ clean_ne_nil dir
  obtain ⟨names, hnames, hwalk⟩ := exists_names_of_staysBelow (isAbsolute dir) (parts dir).reverse
    [] (by simp) (not_mem_splitOn slash path) h
  rw [List.nil_append] at hwalk
  rw [join_eq_ofParts hne, hwalk]
  nth_rewrite 1 [← hdir]
  rw [clean_eq, inside_ofParts_iff (inOrder_parts dir)]
  exact ⟨names.reverse, by simpa using hnames, by simp⟩

lemma staysBelow_of_no_up {path : List Text} (h : Text.ofString ".." ∉ path) (depth : Nat) :
    staysBelow depth path = true := by
  induction path generalizing depth with
  | nil => rfl
  | cons part path ih =>
    rw [List.mem_cons, not_or] at h
    unfold staysBelow
    split_ifs with hskip hup
    · exact ih h.2 depth
    · exact absurd hup.symm h.1
    · exact ih h.2 (depth + 1)

/-- What comes after a beginning that stays below may be any name. -/
lemma staysBelow_name {front rest : List Text} {name : Text} {depth : Nat}
    (hname : IsPartName name) (h : staysBelow depth (front ++ rest) = true) :
    staysBelow depth (front ++ [name]) = true := by
  induction front generalizing depth with
  | nil =>
    apply staysBelow_of_no_up
    rw [List.nil_append, List.mem_singleton]
    exact hname.2.2.1.symm
  | cons part front ih =>
    rw [List.cons_append] at h ⊢
    unfold staysBelow at h ⊢
    split_ifs at h ⊢ with hskip hup
    · exact ih h
    · rw [Bool.and_eq_true] at h ⊢
      exact ⟨h.1, ih h.2⟩
    · exact ih h

lemma staysBelow_append {path ending : Text} (hslash : slash ∉ ending) (hlength : 2 < ending.length)
    (h : staysBelow 0 (splitOn slash path) = true) :
    staysBelow 0 (splitOn slash (path ++ ending)) = true := by
  obtain ⟨front, last, hsplit, hending⟩ := exists_splitOn_append hslash path
  have hlast : slash ∉ last := not_mem_splitOn slash path last (by simp [hsplit])
  have hname : IsPartName (last ++ ending) := by
    apply isPartName_of_length
    · rw [List.mem_append, not_or]
      exact ⟨hlast, hslash⟩
    · rw [List.length_append]
      omega
  rw [hsplit] at h
  rw [hending]
  exact staysBelow_name hname h

/-- The parts that a path is written with are its own, and maybe one that says nothing. -/
lemma mem_splitOn_ofParts {rooted : Bool} {ps : List Text} (h : InOrder rooted ps) {part : Text}
    (hpart : part ∈ splitOn slash (ofParts rooted ps)) :
    part ∈ ps ∨ part = "" ∨ part = "." := by
  by_cases hps : ps = []
  · subst hps
    cases rooted with
    | true =>
      have hpair : part ∈ [Text.ofString "", Text.ofString ""] := hpart
      rcases List.mem_pair.mp hpair with rfl | rfl <;> exact .inr (.inl rfl)
    | false => exact .inr (.inr (List.mem_singleton.mp (hpart : part ∈ [Text.ofString "."])))
  · rw [splitOn_ofParts h hps] at hpart
    rcases List.mem_append.mp hpart with hpart | hpart
    · cases rooted with
      | true => exact .inr (.inl (List.mem_singleton.mp hpart))
      | false => cases hpart
    · exact .inl hpart

lemma staysBelow_join {path name : Text} (hname : IsPartName name)
    (h : staysBelow 0 (splitOn slash path) = true) :
    staysBelow 0 (splitOn slash (Path.join [path, name])) = true := by
  apply staysBelow_of_no_up
  have hsplit : splitOn slash name = [name] := splitOn_of_not_mem hname.2.2.2
  cases hpath : path with
  | nil =>
    have hclean : Path.join [[], name] = ofParts false [name] := by
      have hne : ¬name.isEmpty = true := fun hempty => hname.1 (List.isEmpty_iff.mp hempty)
      have hjoin : Path.join [[], name] = clean name := by
        rw [Path.join, List.dropWhile_cons_of_pos rfl, List.dropWhile_cons_of_neg hne]
        rfl
      have horder : InOrder false [name] := (inOrder_nil false).append (by simpa using hname)
      rw [hjoin]
      exact clean_ofParts horder
    rw [hclean]
    show Text.ofString ".." ∉ splitOn slash name
    rw [hsplit, List.mem_singleton]
    exact hname.2.2.1.symm
  | cons b rest =>
    rw [← hpath]
    have hne : path ≠ [] := by simp [hpath]
    -- the name is one more part after a path that stays below
    rw [← List.append_nil (splitOn slash path)] at h
    have hslash : ∀ part ∈ splitOn slash path ++ [name], slash ∉ part := by
      intro part hpart
      rcases List.mem_append.mp hpart with hpart | hpart
      · exact not_mem_splitOn slash path part hpart
      · rw [List.mem_singleton.mp hpart]
        exact hname.2.2.2
    obtain ⟨names, hnames, hwalk⟩ := exists_names_of_staysBelow (isAbsolute path) [] []
      (by simp) hslash (staysBelow_name hname h)
    have hparts : (parts path).reverse =
        (splitOn slash path).foldl (addPart (isAbsolute path)) [] :=
      List.reverse_reverse _
    rw [List.append_nil, List.append_nil, List.foldl_append] at hwalk
    rw [join_eq_ofParts hne, hsplit, hparts, hwalk]
    have horder : InOrder (isAbsolute path) names.reverse := by
      rw [← List.nil_append names.reverse]
      exact (inOrder_nil _).append (by simpa using hnames)
    intro hup
    rcases mem_splitOn_ofParts horder hup with hmem | hskip | hskip
    · exact (hnames _ (List.mem_reverse.mp hmem)).2.2.1 rfl
    · exact absurd hskip (by decide)
    · exact absurd hskip (by decide)

/-- The file names to look for stay below if the path in the name does. -/
lemma staysBelow_of_mem_fileNames {kind : ModuleKind} {path name : Text}
    (h : staysBelow 0 (splitOn slash path) = true) (hname : name ∈ fileNames kind path) :
    staysBelow 0 (splitOn slash name) = true := by
  unfold fileNames at hname
  split_ifs at hname
  · rwa [List.mem_singleton.mp hname]
  · have hmod : IsPartName (Text.ofString "mod.velac") :=
      isPartName_of_length (by decide) (by decide)
    have hindex : IsPartName (Text.ofString "index.velac") :=
      isPartName_of_length (by decide) (by decide)
    simp only [List.mem_cons, List.not_mem_nil, or_false] at hname
    rcases hname with rfl | rfl | rfl | rfl | rfl
    · exact staysBelow_append (by decide) (by decide) h
    · exact staysBelow_join hmod h
    · exact staysBelow_join hindex h
    · exact staysBelow_append (by decide) (by decide) h
    · exact h

lemma mem_fileNames (kind : ModuleKind) (path : Text) : path ∈ fileNames kind path := by
  unfold fileNames
  split_ifs <;> simp

/-! ### Answers and roots -/

lemma clean_place {root : Text} (hroot : root ≠ []) (dir : Text) :
    clean (place root dir) = place root dir := by
  unfold place
  split_ifs
  · exact clean_clean dir
  · rw [join_directory hroot, clean_clean]

/-- What is found for a qualified name is one of its file names in one of the roots. -/
lemma exists_of_search {r : Resolver} {present : Text → Bool} {kind : ModuleKind} {path p : Text}
    (h : r.search present (kind.name ++ byte ':' :: path) = .ok p) :
    ∃ dir ∈ r.searchPaths kind.name, ∃ name ∈ fileNames kind path, p = Path.join [dir, name] := by
  have hread := read_qualified kind path
  cases hfind : (r.candidates (.qualified kind path)).find? present with
  | none =>
    rw [search_of_absent hread hfind] at h
    cases h
  | some q =>
    rw [search_of_first hread hfind] at h
    obtain rfl : q = p := Except.ok.inj h
    have hmem := List.mem_of_find?_eq_some hfind
    rw [candidates_qualified] at hmem
    obtain ⟨dir, hdir, hmem⟩ := List.mem_flatMap.mp hmem
    obtain ⟨name, hname, rfl⟩ := List.mem_map.mp hmem
    exact ⟨dir, hdir, name, hname, rfl⟩

open Occurrence (asked)

section

variable {here root : Text} {settings : List ResolverSetting} {present : Text → Bool}

/-- Roots are only ever added. -/
lemma searchPaths_subset (before later : List Occurrence) (kind : ModuleKind) :
    (siteAfter here root settings present before).resolver.searchPaths kind.name ⊆
      (siteAfter here root settings present (before ++ later)).resolver.searchPaths kind.name := by
  rw [searchPaths_siteAfter, searchPaths_siteAfter]
  intro dir hdir
  obtain ⟨d, hd, rfl⟩ := List.mem_map.mp hdir
  apply List.mem_map_of_mem
  rcases List.mem_append.mp hd with hd | hd
  · exact List.mem_append_left _ hd
  · rw [requestsOf, List.flatMap_append, List.flatMap_append]
    exact List.mem_append_right _ (List.mem_append_left _ hd)

/-- An answer was found by a search, now or at an earlier moment. -/
lemma exists_search_of_resolve {occurrences : List Occurrence} {name p : Text}
    (h : ((siteAfter here root settings present occurrences).resolver.resolve
      (siteAfter here root settings present occurrences).present name).1 = .ok p) :
    ∃ before later, occurrences = before ++ later ∧
      (siteAfter here root settings present before).resolver.search
        (presentAfter present before) name = .ok p := by
  cases hkept :
      (siteAfter here root settings present occurrences).resolver.found.lookup name with
  | none =>
    rw [resolve_of_unknown _ hkept, present_siteAfter] at h
    exact ⟨occurrences, [], by rw [List.append_nil], h⟩
  | some q =>
    rw [resolve_of_kept _ hkept] at h
    obtain rfl : q = p := Except.ok.inj h
    obtain ⟨before, request, later, rfl, -, -, hsearch, -⟩ := lookup_siteAfter hkept
    exact ⟨before, asked request :: later, rfl, hsearch⟩

lemma inside_of_resolve (hhere : here ≠ []) {occurrences : List Occurrence} {kind : ModuleKind}
    {path p : Text} (hpath : staysBelow 0 (splitOn slash path) = true)
    (h : ((siteAfter here root settings present occurrences).resolver.resolve
      (siteAfter here root settings present occurrences).present
      (kind.name ++ byte ':' :: path)).1 = .ok p) :
    ∃ dir ∈ (siteAfter here root settings present occurrences).resolver.searchPaths kind.name,
      Inside dir p := by
  obtain ⟨before, later, rfl, hsearch⟩ := exists_search_of_resolve h
  obtain ⟨dir, hdir, name, hname, rfl⟩ := exists_of_search hsearch
  have hclean : clean dir = dir := by
    rw [searchPaths_siteAfter] at hdir
    obtain ⟨d, -, rfl⟩ := List.mem_map.mp hdir
    exact clean_place (absolute_ne_nil hhere root) d
  refine ⟨dir, searchPaths_subset before later kind hdir, ?_⟩
  exact inside_join hclean (staysBelow_of_mem_fileNames hpath hname)

end

/-! ### Ways out -/

lemma Inside.trans {root dir p : Text} (hdir : Inside root dir) (hp : Inside dir p) :
    Inside root p := by
  induction hp with
  | root => exact hdir
  | entry _ hname ih => exact .entry ih hname

lemma exists_fresh_name (ps : List Text) : ∃ name, IsPartName name ∧ name ∉ ps := by
  refine ⟨List.replicate ((ps.map List.length).sum + 3) (byte 'a'), ?_, ?_⟩
  · apply isPartName_of_length
    · intro hslash
      exact absurd (List.eq_of_mem_replicate hslash) (by decide)
    · rw [List.length_replicate]
      omega
  · intro hmem
    have hle := List.le_sum_of_mem (List.mem_map_of_mem (f := List.length) hmem)
    rw [List.length_replicate] at hle
    omega

/-- The default roots of a project lie inside it. -/
lemma inside_defaultRoot {root dir : Text} (hroot : clean root = root) {kind : ModuleKind}
    (hdir : dir ∈ kind.defaultRoots) : Inside root (place root dir) := by
  have hdefaults : ∀ kind : ModuleKind, ∀ d ∈ kind.defaultRoots,
      isAbsolute d = false ∧ staysBelow 0 (splitOn slash d) = true := by
    intro kind
    cases kind <;> decide
  obtain ⟨hrelative, hbelow⟩ := hdefaults kind dir hdir
  rw [place, if_neg (by simp [hrelative])]
  exact inside_join hroot hbelow

lemma find?_of_mem {p : Text} {paths : List Text} (h : p ∈ paths) :
    paths.find? (fun q => q == p) = some p := by
  cases hfind : paths.find? fun q => q == p with
  | none => exact absurd BEq.rfl (List.find?_eq_none.mp hfind p h)
  | some q =>
    have hq := List.find?_some hfind
    rw [beq_iff_eq.mp hq]

/-- A path that does not stay below takes back a root that it does not name. -/
lemma not_inside_join {base path : Text} (hbase : IsPartName base)
    (hfresh : base ∉ splitOn slash path) (h : staysBelow 0 (splitOn slash path) = false) :
    ¬Inside (ofParts true [base]) (Path.join [ofParts true [base], path]) := by
  have horder : InOrder true [base] := (inOrder_nil true).append (by simpa using hbase)
  have hne : ofParts true [base] ≠ [] := clean_ofParts horder ▸ clean_ne_nil _
  intro hp
  rw [join_eq_ofParts hne, isAbsolute_ofParts horder, parts_ofParts horder,
    inside_ofParts_iff horder] at hp
  obtain ⟨names, hnames, hparts⟩ := hp
  have hwalk : InOrder true ((splitOn slash path).foldl (addPart true) [base].reverse).reverse :=
    InOrder.addParts (by simpa using horder) (not_mem_splitOn slash path)
  -- what is inside has the root's name first, but the steps up have taken that back
  have hmem : base ∈ ((splitOn slash path).foldl (addPart true) [base].reverse).reverse := by
    rw [(ofParts_inj hwalk (horder.append hnames) hparts).2]
    simp
  exact not_mem_of_not_staysBelow true [] hbase (by simp) (not_mem_splitOn slash path) hfresh h
    (List.mem_reverse.mp hmem)

/-- A path that does not stay below leads out of a root with a name that it does not hold. All roots
of the kind lie inside that one. -/
lemma exists_outside (kind : ModuleKind) {path : Text}
    (h : staysBelow 0 (splitOn slash path) = false) :
    ∃ root settings present p,
      let s := siteAfter "/" root settings present []
      (s.resolver.resolve s.present (kind.name ++ byte ':' :: path)).1 = .ok p ∧
        ∀ dir ∈ s.resolver.searchPaths kind.name, ¬Inside dir p := by
  obtain ⟨base, hbase, hfresh⟩ := exists_fresh_name (splitOn slash path)
  have horder : InOrder true [base] := (inOrder_nil true).append (by simpa using hbase)
  obtain ⟨root, hroot⟩ : ∃ root, root = ofParts true [base] := ⟨_, rfl⟩
  have habsolute : isAbsolute root = true := hroot ▸ isAbsolute_ofParts horder
  have hclean : clean root = root := hroot ▸ clean_ofParts horder
  have hstart : Path.absolute "/" root = root := by rw [Path.absolute, if_pos habsolute, hclean]
  have hroots : ∀ present, (siteAfter "/" root [.searchPath kind.name [root]] present
      []).resolver.searchPaths kind.name = (kind.defaultRoots ++ [root]).map (place root) := by
    intro present
    rw [searchPaths_siteAfter, rootsAfter, hstart]
    simp [requestsOf, ResolverSetting.dirs]
  have hplace : place root root = root := by rw [place, if_pos habsolute, hclean]
  refine ⟨root, [.searchPath kind.name [root]], fun q => q == Path.join [root, path],
    Path.join [root, path], ?_, ?_⟩
  · have hunknown : (siteAfter "/" root [.searchPath kind.name [root]]
        (fun q => q == Path.join [root, path]) []).resolver.found.lookup
        (kind.name ++ byte ':' :: path) = none := rfl
    rw [resolve_of_unknown _ hunknown]
    apply search_of_first (read_qualified kind path)
    apply find?_of_mem
    rw [candidates_qualified, hroots, List.mem_flatMap]
    refine ⟨root, List.mem_map.mpr ⟨root, by simp, hplace⟩, ?_⟩
    exact List.mem_map_of_mem (mem_fileNames kind path)
  · intro dir hdir hinside
    rw [hroots] at hdir
    obtain ⟨d, hd, rfl⟩ := List.mem_map.mp hdir
    have hfrom : Inside root (place root d) := by
      rcases List.mem_append.mp hd with hd | hd
      · exact inside_defaultRoot hclean hd
      · rw [List.mem_singleton.mp hd, hplace]
        exact .root
    exact not_inside_join hbase hfresh h (hroot ▸ hfrom.trans hinside)

/-- Whatever a resolver was told and asked, and whatever became of the files, the answer for a
qualified name is a root of its kind or lies below one, exactly if the path in the name never leads
above the place where it starts. Every other name has a resolver and files for which the answer lies
outside all roots of its kind. -/
theorem qualified_name_stays_inside_iff (kind : ModuleKind) (path : Text) :
    (∀ (here root : Text) (settings : List ResolverSetting) (present : Text → Bool)
      (occurrences : List Occurrence) (p : Text), here ≠ [] →
      let s := siteAfter here root settings present occurrences
      (s.resolver.resolve s.present (kind.name ++ byte ':' :: path)).1 = .ok p →
        ∃ dir ∈ s.resolver.searchPaths kind.name, Inside dir p) ↔
      staysBelow 0 (splitOn slash path) = true := by
  constructor
  · intro hinside
    by_contra hleaves
    rw [Bool.not_eq_true] at hleaves
    obtain ⟨root, settings, present, p, hanswer, houtside⟩ := exists_outside kind hleaves
    obtain ⟨dir, hdir, hp⟩ := hinside "/" root settings present [] p (by decide) hanswer
    exact houtside dir hdir hp
  · intro hpath here root settings present occurrences p hhere s hanswer
    exact inside_of_resolve hhere hpath hanswer

example : staysBelow 0 (splitOn slash "a/.././b/..") = true ∧
    staysBelow 0 (splitOn slash "a/../../a") = false ∧
    staysBelow 0 (splitOn slash "/../a") = false := by decide

lemma Inside.starts {root p : Text} (h : Inside root p) (hroot : isAbsolute root = true) :
    root <+: p := by
  induction h with
  | root => exact List.prefix_refl root
  | @entry dir name _ _ ih =>
    apply ih.trans
    have hdot : dir ≠ "." := by
      rintro rfl
      obtain ⟨rest, hrest⟩ := ih
      cases root with
      | nil => cases hroot
      | cons b root =>
        have hslash : b = slash := by simpa [isAbsolute] using hroot
        rw [hslash] at hrest
        exact absurd (List.cons.inj hrest).1 (by decide)
    rw [entryPath, if_neg hdot]
    split_ifs with hdir
    · rw [hdir]
      exact ⟨name, rfl⟩
    · exact List.prefix_append dir _

/-- One step up in a name leads to a file beside the roots. -/
theorem climbing_name_leaves_roots :
    let present : Text → Bool := [Text.ofString "/p/secret.velac"].contains
    let r := Resolver.new "/w" "/p"
    (r.resolve present "module:../secret").1 = .ok "/p/secret.velac" ∧
      ∀ dir ∈ r.searchPaths "module", ¬Inside dir "/p/secret.velac" := by
  intro present r
  refine ⟨by decide, ?_⟩
  have hroots : ∀ dir ∈ r.searchPaths "module",
      isAbsolute dir = true ∧ ¬dir <+: Text.ofString "/p/secret.velac" := by decide
  intro dir hdir hinside
  exact (hroots dir hdir).2 (hinside.starts (hroots dir hdir).1)

end StackCode.Proofs
