import StackCode.Command.Build
import StackCode.Proofs.ModuleReading
import StackCode.Proofs.SearchRoots

/-!
# Where the programs of a project go

The sources of a project lie in visible folders below its directory, and their programs have the
same layout below one directory. So no two programs go to the same file, and none takes the place of
a source.
-/

namespace StackCode.Proofs

open Text StackCode.Path Command

/-! ### Paths by their last part -/

lemma takeWhile_name {name : Text} (h : slash ∉ name) (rest : Text) :
    (name.reverse ++ rest).takeWhile (· ≠ slash) = name.reverse ++ rest.takeWhile (· ≠ slash) := by
  apply List.takeWhile_append_of_pos
  intro b hb
  exact decide_eq_true fun heq => h (heq ▸ List.mem_reverse.mp hb)

lemma lastPart_of_not_mem {name : Text} (h : slash ∉ name) : lastPart name = name := by
  have hwhole := takeWhile_name h []
  rw [List.append_nil, List.takeWhile_nil, List.append_nil] at hwhole
  rw [lastPart, hwhole, List.reverse_reverse]

lemma lastPart_append (front : Text) {name : Text} (h : slash ∉ name) :
    lastPart (front ++ slash :: name) = name := by
  rw [lastPart, List.reverse_append, List.reverse_cons, List.append_assoc, takeWhile_name h,
    List.singleton_append, List.takeWhile_cons_of_neg (by simp), List.append_nil,
    List.reverse_reverse]

lemma base_append (front : Text) {name : Text} (h : slash ∉ name) (hne : name ≠ []) :
    Path.base (front ++ slash :: name) = name := by
  have hstrip : ((front ++ slash :: name).reverse.dropWhile (· = slash)).reverse =
      front ++ slash :: name := by
    obtain ⟨start, b, rfl⟩ := (List.eq_nil_or_concat name).resolve_left hne
    have hb : b ≠ slash := fun heq => h (by simp [heq])
    simp [hb]
  rw [Path.base, if_neg (by simp), hstrip]
  split
  · next hnil => simp at hnil
  · exact lastPart_append front h

lemma extension_append (front : Text) {stem : Text} (h : slash ∉ stem) :
    extension (front ++ slash :: (stem ++ sourceSuffix)) = sourceSuffix := by
  have hslash : slash ∉ stem ++ sourceSuffix := by
    rw [List.mem_append, not_or]
    exact ⟨h, by decide⟩
  have hcut : cutLast (byte '.') (stem ++ sourceSuffix) = some (stem, Text.ofString "vela") :=
    cutLast_append stem (by decide)
  rw [extension, lastPart_append front hslash, hcut]
  rfl

lemma exists_stem {name : Text} (hslash : slash ∉ name) (h : extension name = sourceSuffix) :
    ∃ stem, slash ∉ stem ∧ name = stem ++ sourceSuffix := by
  rw [extension, lastPart_of_not_mem hslash] at h
  cases hcut : cutLast (byte '.') name with
  | none =>
    rw [hcut] at h
    cases h
  | some pair =>
    obtain ⟨stem, back⟩ := pair
    rw [hcut] at h
    have hname := eq_append_of_cutLast hcut
    rw [show byte '.' :: back = sourceSuffix from h] at hname
    exact ⟨stem, fun hmem => hslash (by simp [hname, hmem]), hname⟩

lemma exists_front (ps : List Text) :
    ∃ front, ∀ name, ofParts true (ps ++ [name]) = front ++ slash :: name := by
  by_cases hps : ps = []
  · subst hps
    exact ⟨[], fun name => rfl⟩
  · refine ⟨ofParts true ps, fun name => ?_⟩
    rw [ofParts, ofParts, if_pos rfl, if_pos rfl, join_append _ hps (by simp), List.append_assoc]
    rfl

/-! ### Names below a directory -/

lemma join_flat {dir : Text} (hdir : dir ≠ []) {names : List Text} (hne : names ≠ []) :
    Path.join (dir :: names) = Path.join [dir, Text.join "/" names] := by
  rw [join_directory hdir, Path.join, List.dropWhile_cons_of_neg (by simpa using hdir)]
  show clean _ = clean _
  rw [join_cons _ _ hne, join_cons _ _ (by simp)]
  rfl

/-- Names below a directory are the parts after its own. -/
lemma join_names {dir : Text} (hdir : dir ≠ []) {names : List Text} (hne : names ≠ [])
    (hnames : ∀ name ∈ names, IsPartName name) :
    Path.join (dir :: names) = ofParts (isAbsolute dir) (Path.parts dir ++ names) := by
  have hslash : ∀ name ∈ names, slash ∉ name := fun name hmem => (hnames name hmem).2.2.2
  rw [join_flat hdir hne, join_eq_ofParts hdir, splitOn_join hne hslash, addParts_names hnames,
    List.reverse_append, List.reverse_reverse, List.reverse_reverse]

lemma diverge_append (base rest : List Text) : diverge base (base ++ rest) = ([], rest) := by
  induction base with
  | nil => cases rest <;> rfl
  | cons part base ih => rw [List.cons_append, diverge, if_pos rfl, ih]

lemma ne_nil_of_isAbsolute {dir : Text} (h : isAbsolute dir) : dir ≠ [] := by
  rintro rfl
  cases h

lemma inOrder_names {dir : Text} (hdir : isAbsolute dir) {names : List Text}
    (hnames : ∀ name ∈ names, IsPartName name) : InOrder true (Path.parts dir ++ names) := by
  have hparts := inOrder_parts dir
  rw [hdir] at hparts
  exact hparts.append hnames

section

variable {dir : Text} (hdir : isAbsolute dir) {names : List Text} (hne : names ≠ [])
  (hnames : ∀ name ∈ names, IsPartName name)

include hdir hne hnames

lemma absolute_names (cwd : Text) :
    Path.absolute cwd (Path.join (dir :: names)) = Path.join (dir :: names) := by
  have horder := inOrder_names hdir hnames
  rw [join_names (ne_nil_of_isAbsolute hdir) hne hnames, hdir, Path.absolute,
    isAbsolute_ofParts horder, if_pos rfl, clean_ofParts horder]

lemma relative_names : relative dir (Path.join (dir :: names)) = Text.join "/" names := by
  rw [join_names (ne_nil_of_isAbsolute hdir) hne hnames, hdir, relative,
    parts_ofParts (inOrder_names hdir hnames), diverge_append]
  obtain ⟨name, rest, rfl⟩ := List.exists_cons_of_ne_nil hne
  rfl

end

/-! ### The sources of a project -/

/-- What a directory of the tree holds goes by a name. -/
def ProperNames (t : FileTree) : Prop := ∀ entry ∈ t.nodes, ∀ name ∈ entry.1, IsPartName name

/-- Where a source lies below the directory of its project. The folders on the way are visible. -/
structure SourceSite where
  folders : List Text
  /-- The name of the source without its ending. -/
  stem : Text
  visible : ∀ name ∈ folders, IsPartName name ∧ name.head? ≠ some (byte '.')
  slash_not_mem : slash ∉ stem

namespace SourceSite

/-- The names that lead to a file of the source, by its ending. -/
def names (site : SourceSite) (ending : Text) : List Text := site.folders ++ [site.stem ++ ending]

lemma names_ne_nil (site : SourceSite) (ending : Text) : site.names ending ≠ [] := by
  simp [names]

lemma slash_not_mem_append (site : SourceSite) {ending : Text} (h : slash ∉ ending) :
    slash ∉ site.stem ++ ending := by
  rw [List.mem_append, not_or]
  exact ⟨site.slash_not_mem, h⟩

lemma isPartName (site : SourceSite) {ending : Text} (hslash : slash ∉ ending)
    (hlength : 2 < ending.length) : ∀ name ∈ site.names ending, IsPartName name := by
  intro name hname
  rcases List.mem_append.mp hname with hname | hname
  · exact (site.visible name hname).1
  · rw [List.mem_singleton.mp hname]
    apply isPartName_of_length (site.slash_not_mem_append hslash)
    rw [List.length_append]
    omega

lemma isPartName_source (site : SourceSite) : ∀ name ∈ site.names sourceSuffix, IsPartName name :=
  site.isPartName (by decide) (by decide)

lemma isPartName_program (site : SourceSite) :
    ∀ name ∈ site.names programSuffix, IsPartName name :=
  site.isPartName (by decide) (by decide)

lemma names_inj {site site' : SourceSite} {ending : Text}
    (h : site.names ending = site'.names ending) : site = site' := by
  obtain ⟨folders, stem, _, _⟩ := site
  obtain ⟨folders', stem', _, _⟩ := site'
  obtain ⟨hfolders, hlast⟩ := List.append_inj' h rfl
  obtain rfl : folders = folders' := hfolders
  obtain rfl : stem = stem' := List.append_cancel_right (List.singleton_inj.mp hlast)
  rfl

lemma program_ne_source (site site' : SourceSite) (ps ps' : List Text) :
    ps ++ site.names programSuffix ≠ ps' ++ site'.names sourceSuffix := by
  intro h
  rw [names, names, ← List.append_assoc, ← List.append_assoc] at h
  obtain ⟨-, hlast⟩ := List.append_inj' h rfl
  have hbyte := congrArg List.getLast? (List.singleton_inj.mp hlast)
  rw [List.getLast?_append_of_ne_nil _ (by decide), List.getLast?_append_of_ne_nil _ (by decide)]
    at hbyte
  exact absurd hbyte (by decide)

end SourceSite

lemma exists_site {t : FileTree} (ht : ProperNames t) {dir source : Text}
    (hsource : source ∈ sourceFiles t dir) :
    ∃ site : SourceSite, source = Path.join (dir :: site.names sourceSuffix) := by
  simp only [sourceFiles, FileTree.walk, List.mem_map, List.mem_mergeSort, List.mem_filter]
    at hsource
  obtain ⟨place, ⟨⟨q, n⟩, ⟨hentry, hselected⟩, rfl⟩, rfl⟩ := hsource
  simp only [Bool.and_eq_true, decide_eq_true_eq, List.isPrefixOf_iff_prefix, List.all_eq_true,
    bne_iff_ne] at hselected
  obtain ⟨⟨⟨rest, rfl⟩, hbelow⟩, ⟨-, hending⟩, hvisible⟩ := hselected
  have hrest : rest ≠ [] := by
    rintro rfl
    exact hbelow (List.append_nil _)
  obtain ⟨inner, last, rfl⟩ := (List.eq_nil_or_concat rest).resolve_left hrest
  rw [List.concat_eq_append] at *
  have hnames : ∀ name ∈ Path.parts dir ++ (inner ++ [last]), IsPartName name := ht _ hentry
  have hlast : extension last = sourceSuffix := by
    rw [← hending, ← List.append_assoc]
    simp
  obtain ⟨stem, hstem, rfl⟩ := exists_stem (hnames last (by simp)).2.2.2 hlast
  have hfolders : folders (Path.parts dir) (Path.parts dir ++ (inner ++ [stem ++ sourceSuffix])) =
      inner := by
    rw [folders, List.drop_left, List.dropLast_concat]
  rw [hfolders] at hvisible
  have hinner : ∀ name ∈ inner, IsPartName name ∧ name.head? ≠ some (byte '.') :=
    fun name hname => ⟨hnames name (by simp [hname]), hvisible name hname⟩
  refine ⟨⟨inner, stem, hinner, hstem⟩, ?_⟩
  rw [List.drop_left]
  rfl

/-! ### The programs of a project -/

/-- The directory below which the programs of a project lie as its sources lie below the project. -/
def programRoot (p : Project) (output : Text) : Text :=
  let dir := if output.isEmpty then
      match p.manifest with
      | some m => if m.output.isEmpty then [] else Path.join [p.dir, m.output]
      | none => []
    else output
  if dir.isEmpty then p.dir else dir

lemma exists_file (dir : Text) (site : SourceSite) : ∃ front, ∀ ending : Text,
    ofParts true (Path.parts dir ++ site.names ending) =
      front ++ slash :: (site.stem ++ ending) := by
  obtain ⟨front, hfront⟩ := exists_front (Path.parts dir ++ site.folders)
  refine ⟨front, fun ending => ?_⟩
  rw [← hfront, List.append_assoc]
  rfl

/-- A relative path that starts as a step up does is a name in the directory itself: the folders
that start with a dot are left out. -/
lemma SourceSite.layout (site : SourceSite) :
    (if (Text.ofString "..").isPrefixOf (Text.join "/" (site.names programSuffix)) then
      site.stem ++ programSuffix
    else Text.join "/" (site.names programSuffix)) = Text.join "/" (site.names programSuffix) := by
  split
  · next hup =>
    cases hfolders : site.folders with
    | nil =>
      rw [SourceSite.names, hfolders]
      rfl
    | cons folder folders =>
      -- the path starts as its first folder does, which is not with a dot
      obtain ⟨hname, hdot⟩ := site.visible folder (by simp [hfolders])
      have hhead := head?_join (folders ++ [site.stem ++ programSuffix]) hname.1
      obtain ⟨rest, hrest⟩ := List.isPrefixOf_iff_prefix.mp hup
      rw [SourceSite.names, hfolders, List.cons_append] at hrest
      rw [← hrest] at hhead
      exact absurd hhead.symm hdot
  · rfl

/-- Without its ending and with the one of a program, the path of a source is that of a program. -/
lemma program_beside {dir : Text} (hdir : isAbsolute dir) (site : SourceSite) :
    dropSuffix (extension (Path.join (dir :: site.names sourceSuffix)))
        (Path.join (dir :: site.names sourceSuffix)) ++ programSuffix =
      Path.join (dir :: site.names programSuffix) := by
  obtain ⟨front, hfront⟩ := exists_file dir site
  have hcut := dropSuffix_append (front ++ slash :: site.stem) sourceSuffix
  rw [List.append_assoc, List.cons_append] at hcut
  rw [join_names (ne_nil_of_isAbsolute hdir) (site.names_ne_nil _) site.isPartName_source,
    join_names (ne_nil_of_isAbsolute hdir) (site.names_ne_nil _) site.isPartName_program, hdir,
    hfront, hfront, extension_append front site.slash_not_mem, hcut, List.append_assoc,
    List.cons_append]

lemma outputPath_site {p : Project} (hdir : isAbsolute p.dir) (cwd output : Text)
    (site : SourceSite) :
    outputPath cwd p output false (Path.join (p.dir :: site.names sourceSuffix)) =
      Path.join (programRoot p output :: site.names programSuffix) := by
  have hne := ne_nil_of_isAbsolute hdir
  have hnames := site.names_ne_nil programSuffix
  obtain ⟨front, hfront⟩ := exists_file p.dir site
  have hbase : Path.base (Path.join (p.dir :: site.names programSuffix)) =
      site.stem ++ programSuffix := by
    rw [join_names hne hnames site.isPartName_program, hdir, hfront]
    apply base_append front (site.slash_not_mem_append (by decide))
    exact List.append_ne_nil_of_right_ne_nil _ (by decide)
  rw [outputPath, programRoot]
  simp only [program_beside hdir site, Bool.false_and, Bool.false_eq_true, if_false, hbase,
    site.layout, absolute_names hdir hnames site.isPartName_program,
    relative_names hdir hnames site.isPartName_program]
  generalize (if output.isEmpty = true then _ else output) = dir
  split_ifs with hempty
  · rfl
  · exact (join_flat (by simpa using hempty) hnames).symm

lemma programRoot_ne_nil {p : Project} (hdir : p.dir ≠ []) (output : Text) :
    programRoot p output ≠ [] := by
  rw [programRoot]
  generalize (if output.isEmpty = true then _ else output) = dir
  intro h
  split_ifs at h with hempty
  · exact hdir h
  · exact hempty (by rw [h]; rfl)

/-! ### Files that are not the same -/

/-- The place that a part leads to when it leads anywhere. -/
def lead (place : List Text) (part : Text) : List Text :=
  if part = "" ∨ part = "." then place else if part = ".." then place.dropLast else place ++ [part]

lemma follow_leads {t : FileTree} {place q : List Text} {part : Text}
    (h : Disk.follow t place part = .ok q) : q = lead place part := by
  unfold Disk.follow at h
  unfold lead
  split at h
  · cases h
  · cases h
  · split_ifs at h ⊢ <;> cases h <;> rfl

lemma follow_all_leads {t : FileTree} {ps : List Text} {place q : List Text}
    (h : ps.foldlM (Disk.follow t) place = .ok q) : q = ps.foldl lead place := by
  induction ps generalizing place with
  | nil =>
    cases h
    rfl
  | cons part ps ih =>
    rw [List.foldlM_cons] at h
    obtain ⟨next, hnext, hrest⟩ := bind_eq_ok_iff.mp h
    rw [ih hrest, follow_leads hnext, List.foldl_cons]

lemma lead_names {names : List Text} (h : ∀ name ∈ names, IsPartName name) (place : List Text) :
    names.foldl lead place = place ++ names := by
  induction names generalizing place with
  | nil => simp
  | cons name names ih =>
    obtain ⟨hnil, hdot, hup, -⟩ := h name (by simp)
    have hlead : lead place name = place ++ [name] := by
      rw [lead, if_neg (not_or.mpr ⟨hnil, hdot⟩), if_neg hup]
    rw [List.foldl_cons, hlead, ih fun n hn => h n (by simp [hn]), List.append_assoc]
    rfl

lemma place_leads {d : Disk} {p : Text} {q : List Text} (h : d.place p = .ok q) :
    q = (splitOn slash p).foldl lead (if isAbsolute p then [] else Path.parts d.cwd) := by
  unfold Disk.place at h
  split at h
  · cases h
  split at h
  · cases h
  split at h
  · cases h
  exact follow_all_leads h

/-- The place of a directory that is there. -/
def rootPlace (cwd root : Text) : List Text :=
  (Path.parts root).foldl lead (if isAbsolute root then [] else Path.parts cwd)

lemma place_names {root : Text} (hroot : root ≠ []) {names : List Text} (hne : names ≠ [])
    (hnames : ∀ name ∈ names, IsPartName name) {d : Disk} {q : List Text}
    (h : d.place (Path.join (root :: names)) = .ok q) : q = rootPlace d.cwd root ++ names := by
  have horder := (inOrder_parts root).append hnames
  rw [place_leads h, join_names hroot hne hnames, isAbsolute_ofParts horder,
    splitOn_ofParts horder (by simp [hne]), List.foldl_append, List.foldl_append, lead_names hnames,
    rootPlace]
  cases isAbsolute root <;> rfl

/-- The paths are different, and lead to different files wherever they lead to one. -/
def Apart (p q : Text) : Prop :=
  p ≠ q ∧ ∀ d d' : Disk, d.cwd = d'.cwd → ∀ place, d.place p = .ok place → d'.place q ≠ .ok place

lemma apart_names {root root' : Text} (hroot : root ≠ []) (hroot' : root' ≠ [])
    {names names' : List Text} (hne : names ≠ []) (hne' : names' ≠ [])
    (hnames : ∀ name ∈ names, IsPartName name) (hnames' : ∀ name ∈ names', IsPartName name)
    (hdiffer : ∀ ps ps' : List Text, (root = root' → ps = ps') → ps ++ names ≠ ps' ++ names') :
    Apart (Path.join (root :: names)) (Path.join (root' :: names')) := by
  constructor
  · rw [join_names hroot hne hnames, join_names hroot' hne' hnames']
    intro heq
    obtain ⟨-, hparts⟩ := ofParts_inj ((inOrder_parts root).append hnames)
      ((inOrder_parts root').append hnames') heq
    exact hdiffer _ _ (congrArg Path.parts) hparts
  · intro d d' hcwd place hplace hplace'
    apply hdiffer (rootPlace d.cwd root) (rootPlace d'.cwd root')
    · rintro rfl
      rw [hcwd]
    · rw [← place_names hroot hne hnames hplace, ← place_names hroot' hne' hnames' hplace']

/-! ### The directory of a project -/

lemma isAbsolute_absolute {cwd : Text} (hcwd : isAbsolute cwd) (dir : Text) :
    isAbsolute (Path.absolute cwd dir) := by
  unfold Path.absolute
  split_ifs with h
  · rw [clean_eq, isAbsolute_ofParts (inOrder_parts dir), h]
  · rw [join_directory (ne_nil_of_isAbsolute hcwd), clean_eq, isAbsolute_ofParts (inOrder_parts _),
      isAbsolute, head?_join _ (ne_nil_of_isAbsolute hcwd)]
    exact hcwd

lemma dir_of_load {d : Disk} {dir : Text} {m : Manifest} (h : Manifest.load d dir = .ok m) :
    m.dir = Path.absolute d.cwd dir := by
  unfold Manifest.load at h
  dsimp only at h
  split at h
  · cases h
  split at h
  · cases h
  · cases h
    rfl

lemma exists_dir_of_find {d : Disk} {start : Text} {m : Manifest}
    (h : Manifest.find d start = .ok (some m)) : ∃ dir, m.dir = Path.absolute d.cwd dir := by
  unfold Manifest.find at h
  dsimp only at h
  split at h
  · cases h
  · next dir _ =>
    cases hload : Manifest.load d dir with
    | error e =>
      rw [hload] at h
      cases h
    | ok m' =>
      rw [hload] at h
      cases h
      exact ⟨dir, dir_of_load hload⟩

lemma disk_bind {α : Type} (f : Disk → Action α) (s : Session) :
    (disk >>= f).run s = (f s.disk).run s := rfl

lemma orFail_bind {ε α β : Type} (message : ε → Text) (a : α) (f : α → Action β) (s : Session) :
    (orFail message (.ok a) >>= f).run s = (f a).run s := rfl

lemma orFail_bind_error {ε α β : Type} (message : ε → Text) (e : ε) (f : α → Action β)
    (s : Session) :
    (orFail message (.error e) >>= f).run s = (.error (message e), s) := rfl

lemma exists_dir_of_project {o : Options} {s : Session} {p : Project}
    (h : ((Project.load o).run s).1 = .ok p) : ∃ dir, p.dir = Path.absolute s.disk.cwd dir := by
  rw [Project.load, disk_bind] at h
  dsimp only at h
  cases hfind : Manifest.find s.disk
    (Path.absolute s.disk.cwd ((o.settings.text? "dir").getD ".")) with
  | error e =>
    rw [hfind, orFail_bind_error] at h
    cases h
  | ok found =>
    rw [hfind, orFail_bind] at h
    cases found with
    | none =>
      cases h
      exact ⟨_, rfl⟩
    | some m =>
      cases h
      exact exists_dir_of_find hfind

/-- A build of all sources of a project writes each program to a file of its own, which is not the
file of a source either. -/
theorem project_programs_apart {o : Options} {s : Session} {p : Project}
    (hcwd : isAbsolute s.disk.cwd) (hnames : ProperNames s.disk.tree)
    (hload : ((Project.load o).run s).1 = .ok p)
    (hmany : 2 ≤ (sourceFiles s.disk.tree p.dir).length) :
    let files := sourceFiles s.disk.tree p.dir
    let target := outputPath s.disk.cwd p ((o.settings.text? "output").getD []) (files.length = 1)
    (∀ a ∈ files, ∀ b ∈ files, a ≠ b → Apart (target a) (target b)) ∧
      ∀ a ∈ files, ∀ b ∈ files, Apart (target a) b := by
  intro files target
  have hdir : isAbsolute p.dir := by
    obtain ⟨dir, hdir⟩ := exists_dir_of_project hload
    rw [hdir]
    exact isAbsolute_absolute hcwd dir
  have hne := ne_nil_of_isAbsolute hdir
  have hroot := programRoot_ne_nil hne ((o.settings.text? "output").getD [])
  have htarget : ∀ site : SourceSite, target (Path.join (p.dir :: site.names sourceSuffix)) =
      Path.join (programRoot p ((o.settings.text? "output").getD []) ::
        site.names programSuffix) := by
    intro site
    have hsingle : decide (files.length = 1) = false := by
      apply decide_eq_false
      have hlength : 2 ≤ files.length := hmany
      omega
    show outputPath _ _ _ (decide (files.length = 1)) _ = _
    rw [hsingle]
    exact outputPath_site hdir _ _ site
  constructor
  · intro a ha b hb hab
    obtain ⟨site, rfl⟩ := exists_site hnames ha
    obtain ⟨site', rfl⟩ := exists_site hnames hb
    rw [htarget, htarget]
    apply apart_names hroot hroot (site.names_ne_nil _) (site'.names_ne_nil _)
      site.isPartName_program site'.isPartName_program
    -- below the same root the names alone tell the programs apart
    intro ps ps' hps heq
    rw [hps rfl] at heq
    exact hab (by rw [SourceSite.names_inj (List.append_cancel_left heq)])
  · intro a ha b hb
    obtain ⟨site, rfl⟩ := exists_site hnames ha
    obtain ⟨site', rfl⟩ := exists_site hnames hb
    rw [htarget]
    apply apart_names hroot hne (site.names_ne_nil _) (site'.names_ne_nil _)
      site.isPartName_program site'.isPartName_source
    exact fun ps ps' _ => site.program_ne_source site' ps ps'

/-- A project with a source that looks like a step up and another one in a folder. -/
def dottedSession : Session where
  disk.cwd := "/w"
  disk.tree.nodes := [
    (["w"], .directory),
    (["w", "velac.toml"], .file "[build]\noutput = \"out\"\n"),
    (["w", "..a.vela"], .file ""),
    (["w", "lib"], .directory),
    (["w", "lib", "a.vela"], .file "")]

def dottedProject : Project where
  dir := "/w"
  manifest := some { entry := "main", format := "binary", output := "out", dir := "/w" }

theorem dotted_programs_apart :
    ((Project.load {}).run dottedSession).1 = .ok dottedProject ∧
      sourceFiles dottedSession.disk.tree "/w" =
        [Text.ofString "/w/..a.vela", Text.ofString "/w/lib/a.vela"] ∧
      Apart "/w/out/..a.velac" "/w/out/lib/a.velac" ∧ Apart "/w/out/..a.velac" "/w/lib/a.vela" := by
  have hload : ((Project.load {}).run dottedSession).1 = .ok dottedProject := by cbv
  have hfiles : sourceFiles dottedSession.disk.tree dottedProject.dir =
      [Text.ofString "/w/..a.vela", Text.ofString "/w/lib/a.vela"] := by cbv
  have hnames : ProperNames dottedSession.disk.tree := by
    unfold ProperNames IsPartName
    decide +kernel
  have hmany : 2 ≤ (sourceFiles dottedSession.disk.tree dottedProject.dir).length := by
    rw [hfiles]
    decide
  have hcwd : isAbsolute dottedSession.disk.cwd := by decide
  obtain ⟨htargets, hsources⟩ := project_programs_apart hcwd hnames hload hmany
  rw [hfiles] at htargets hsources
  have htop : outputPath dottedSession.disk.cwd dottedProject [] false "/w/..a.vela" =
      "/w/out/..a.velac" := by decide +kernel
  have hlib : outputPath dottedSession.disk.cwd dottedProject [] false "/w/lib/a.vela" =
      "/w/out/lib/a.velac" := by decide +kernel
  refine ⟨hload, hfiles, ?_, ?_⟩
  · rw [← htop, ← hlib]
    exact htargets _ (by simp) _ (by simp) (by decide +kernel)
  · rw [← htop]
    exact hsources _ (by simp) _ (by simp)

end StackCode.Proofs
