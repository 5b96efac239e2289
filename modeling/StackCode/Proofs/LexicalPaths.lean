import StackCode.Path
import StackCode.Proofs.Identifiers

/-!
# Clean paths

The parts that are left of a path are steps up, which a path from the root does not have, and then
names. Such parts are read back from the path that is written with them, so what is clean stays as
it is.
-/

namespace StackCode.Proofs

open Text StackCode.Path

/-! ### Parts in order -/

/-- A part that says where to go down. -/
def IsPartName (part : Text) : Prop := part ≠ "" ∧ part ≠ "." ∧ part ≠ ".." ∧ slash ∉ part

/-- Steps up and then names. From the root there is no step up. -/
def InOrder (rooted : Bool) (ps : List Text) : Prop :=
  ∃ ups names, ps = List.replicate ups (Text.ofString "..") ++ names ∧
    (rooted = true → ups = 0) ∧ ∀ name ∈ names, IsPartName name

lemma addPart_of_name {rooted : Bool} {done : List Text} {name : Text} (h : IsPartName name) :
    addPart rooted done name = name :: done := by
  obtain ⟨hnil, hdot, hup, -⟩ := h
  unfold Path.addPart
  rw [if_neg (not_or.mpr ⟨hnil, hdot⟩), if_neg hup]

lemma addParts_names {rooted : Bool} {names : List Text} (h : ∀ name ∈ names, IsPartName name)
    (done : List Text) : names.foldl (Path.addPart rooted) done = names.reverse ++ done := by
  induction names generalizing done with
  | nil => rfl
  | cons name names ih =>
    rw [List.foldl_cons, addPart_of_name (h name (by simp)), ih fun n hn => h n (by simp [hn])]
    simp

/-- One part more keeps the order. The parts are kept with the latest one first. -/
lemma InOrder.addPart {rooted : Bool} {done : List Text} {part : Text}
    (h : InOrder rooted done.reverse) (hpart : slash ∉ part) :
    InOrder rooted (addPart rooted done part).reverse := by
  obtain ⟨ups, names, hdone, hrooted, hnames⟩ := h
  by_cases hskip : part = "" ∨ part = "."
  · unfold Path.addPart
    rw [if_pos hskip]
    exact ⟨ups, names, hdone, hrooted, hnames⟩
  by_cases hup : part = ".."
  · unfold Path.addPart
    rw [if_neg hskip, if_pos hup]
    rcases List.eq_nil_or_concat names with rfl | ⟨front, last, rfl⟩
    · -- only steps up are there, and one more is counted unless the path is rooted
      obtain rfl : done = List.replicate ups (Text.ofString "..") := by
        rw [← List.reverse_reverse done, hdone, List.append_nil, List.reverse_replicate]
      cases ups with
      | zero =>
        cases rooted with
        | false => exact ⟨1, [], by simp [hup], by simp, by simp⟩
        | true => exact ⟨0, [], by simp, by simp, by simp⟩
      | succ ups =>
        refine ⟨ups + 2, [], ?_, fun hr => absurd (hrooted hr) (by simp), by simp⟩
        simp only [List.replicate_succ, if_true, hup]
        simp only [← List.replicate_succ, List.reverse_replicate, List.append_nil]
    · -- the last name is taken back
      have hlast : last ≠ ".." := (hnames last (by simp)).2.2.1
      obtain rfl : done = last :: (List.replicate ups (Text.ofString "..") ++ front).reverse := by
        rw [← List.reverse_reverse done, hdone]
        simp
      refine ⟨ups, front, ?_, hrooted, fun name hname => hnames name (by simp [hname])⟩
      simp only [if_neg hlast, List.reverse_reverse]
  · have hname : IsPartName part := ⟨fun h => hskip (.inl h), fun h => hskip (.inr h), hup, hpart⟩
    rw [addPart_of_name hname]
    refine ⟨ups, names ++ [part], by simp [hdone], hrooted, ?_⟩
    intro name hmem
    rcases List.mem_append.mp hmem with hmem | hmem
    · exact hnames name hmem
    · rwa [List.mem_singleton.mp hmem]

lemma InOrder.addParts {rooted : Bool} {done parts : List Text} (h : InOrder rooted done.reverse)
    (hparts : ∀ part ∈ parts, slash ∉ part) :
    InOrder rooted (parts.foldl (Path.addPart rooted) done).reverse := by
  induction parts generalizing done with
  | nil => exact h
  | cons part parts ih =>
    exact ih (h.addPart (hparts part (by simp))) fun p hp => hparts p (by simp [hp])

lemma inOrder_parts (p : Text) : InOrder (isAbsolute p) (parts p) := by
  apply InOrder.addParts
  · exact ⟨0, [], rfl, fun _ => rfl, by simp⟩
  · exact not_mem_splitOn slash p

/-- Parts in order are all kept. -/
lemma InOrder.kept {rooted : Bool} {ps : List Text} (h : InOrder rooted ps) :
    (ps.foldl (Path.addPart rooted) []).reverse = ps := by
  obtain ⟨ups, names, rfl, hrooted, hnames⟩ := h
  have hups : (List.replicate ups (Text.ofString "..")).foldl (Path.addPart rooted) [] =
      List.replicate ups (Text.ofString "..") := by
    cases rooted with
    | true => rw [hrooted rfl]; rfl
    | false =>
      induction ups with
      | zero => rfl
      | succ ups ih =>
        rw [List.replicate_succ', List.foldl_append, ih (by simp), ← List.replicate_succ']
        cases ups <;> rfl
  rw [List.foldl_append, hups, addParts_names hnames]
  simp

lemma InOrder.slash_not_mem {rooted : Bool} {ps : List Text} (h : InOrder rooted ps) :
    ∀ part ∈ ps, part ≠ [] ∧ slash ∉ part := by
  obtain ⟨ups, names, rfl, -, hnames⟩ := h
  intro part hpart
  rcases List.mem_append.mp hpart with hpart | hpart
  · obtain rfl := List.eq_of_mem_replicate hpart
    exact ⟨by decide, by decide⟩
  · obtain ⟨hnil, -, -, hslash⟩ := hnames part hpart
    exact ⟨hnil, hslash⟩

/-! ### The path with given parts -/

/-- The path that has these parts. -/
def ofParts (rooted : Bool) (ps : List Text) : Text :=
  if rooted then slash :: Text.join "/" ps
  else if ps = [] then "." else Text.join "/" ps

lemma clean_eq (p : Text) : clean p = ofParts (isAbsolute p) (parts p) := rfl

lemma splitOn_join {ps : List Text} (hne : ps ≠ []) (h : ∀ part ∈ ps, slash ∉ part) :
    splitOn slash (Text.join "/" ps) = ps := by
  induction ps with
  | nil => exact absurd rfl hne
  | cons part ps ih =>
    have hpart := h part (by simp)
    by_cases hps : ps = []
    · rw [hps]
      exact splitOn_of_not_mem hpart
    · rw [join_cons _ _ hps, List.append_assoc]
      show splitOn slash (part ++ slash :: Text.join "/" ps) = part :: ps
      rw [splitOn_append hpart, ih hps fun q hq => h q (by simp [hq])]

lemma head?_join {part : Text} (ps : List Text) (h : part ≠ []) :
    (Text.join "/" (part :: ps)).head? = part.head? := by
  by_cases hps : ps = []
  · rw [hps]
    rfl
  · rw [join_cons _ _ hps, List.append_assoc, List.head?_append_of_ne_nil _ h]

lemma isAbsolute_ofParts {rooted : Bool} {ps : List Text} (h : InOrder rooted ps) :
    isAbsolute (ofParts rooted ps) = rooted := by
  cases rooted with
  | true => simp [ofParts, isAbsolute]
  | false =>
    cases ps with
    | nil => rfl
    | cons part ps =>
      obtain ⟨hne, hslash⟩ := h.slash_not_mem part (by simp)
      obtain ⟨b, part, rfl⟩ := List.exists_cons_of_ne_nil hne
      have hb : b ≠ slash := fun heq => hslash (by simp [heq])
      simp [ofParts, isAbsolute, head?_join, hb]

/-- A path from the root is written with an empty part before its own. -/
lemma splitOn_ofParts {rooted : Bool} {ps : List Text} (h : InOrder rooted ps) (hne : ps ≠ []) :
    splitOn slash (ofParts rooted ps) = (if rooted then [[]] else []) ++ ps := by
  have hslash : ∀ part ∈ ps, slash ∉ part := fun part hpart => (h.slash_not_mem part hpart).2
  cases rooted with
  | true =>
    have hempty : splitOn slash ([] ++ slash :: Text.join "/" ps) = _ :=
      splitOn_append (by simp) _
    rwa [splitOn_join hne hslash] at hempty
  | false =>
    rw [ofParts, if_neg (by simp), if_neg hne, splitOn_join hne hslash]
    rfl

lemma parts_ofParts {rooted : Bool} {ps : List Text} (h : InOrder rooted ps) :
    parts (ofParts rooted ps) = ps := by
  rw [parts, isAbsolute_ofParts h]
  by_cases hps : ps = []
  · subst hps
    cases rooted <;> rfl
  · rw [splitOn_ofParts h hps, List.foldl_append]
    cases rooted <;> exact h.kept

lemma clean_ofParts {rooted : Bool} {ps : List Text} (h : InOrder rooted ps) :
    clean (ofParts rooted ps) = ofParts rooted ps := by
  rw [clean_eq, isAbsolute_ofParts h, parts_ofParts h]

lemma clean_clean (p : Text) : clean (clean p) = clean p :=
  clean_ofParts (inOrder_parts p)

lemma clean_ne_nil (p : Text) : clean p ≠ [] := by
  rw [clean_eq]
  have h := inOrder_parts p
  cases isAbsolute p with
  | true => simp [ofParts]
  | false =>
    cases hps : parts p with
    | nil => decide
    | cons part ps =>
      have hne := (h.slash_not_mem part (by simp [hps])).1
      intro hnil
      rw [ofParts, if_neg (by simp), if_neg (by simp)] at hnil
      have hhead := head?_join ps hne
      rw [hnil] at hhead
      exact hne (List.head?_eq_none_iff.mp hhead.symm)

/-! ### Endings -/

lemma isPartName_of_length {t : Text} (hslash : slash ∉ t) (hlength : 2 < t.length) :
    IsPartName t := by
  have hdiffers : ∀ u : Text, u.length ≤ 2 → t ≠ u := by
    rintro u hu rfl
    omega
  exact ⟨hdiffers _ (by decide), hdiffers _ (by decide), hdiffers _ (by decide), hslash⟩

/-- The last part may be any name. -/
lemma InOrder.replace_last {rooted : Bool} {ps : List Text} {last name : Text}
    (h : InOrder rooted (ps ++ [last])) (hname : IsPartName name) :
    InOrder rooted (ps ++ [name]) := by
  obtain ⟨ups, names, hps, hrooted, hnames⟩ := h
  rcases List.eq_nil_or_concat names with rfl | ⟨front, final, rfl⟩
  · -- the last part is a step up, which becomes the first name
    rw [List.append_nil] at hps
    cases ups with
    | zero => simp at hps
    | succ ups =>
      rw [List.replicate_succ'] at hps
      obtain ⟨rfl, -⟩ := List.append_inj' hps rfl
      exact ⟨ups, [name], rfl, fun hr => absurd (hrooted hr) (by simp), by simpa using hname⟩
  · rw [List.concat_eq_append, ← List.append_assoc] at hps
    obtain ⟨rfl, -⟩ := List.append_inj' hps rfl
    refine ⟨ups, front ++ [name], by simp, hrooted, ?_⟩
    intro n hn
    rcases List.mem_append.mp hn with hn | hn
    · exact hnames n (by simp [hn])
    · rwa [List.mem_singleton.mp hn]

/-- Parts in order with an ending are parts in order again. -/
lemma InOrder.exists_append {rooted : Bool} {ps : List Text} {ending : Text} (h : InOrder rooted ps)
    (hslash : slash ∉ ending) (hlength : 2 < ending.length) :
    ∃ qs, InOrder rooted qs ∧ ofParts rooted ps ++ ending = ofParts rooted qs := by
  rcases List.eq_nil_or_concat ps with rfl | ⟨front, last, rfl⟩
  · -- the root and the working directory itself are written without a part
    cases rooted with
    | true =>
      have hname := isPartName_of_length hslash hlength
      exact ⟨[ending], ⟨0, [ending], rfl, fun _ => rfl, by simpa using hname⟩, rfl⟩
    | false =>
      have hname : IsPartName (Text.ofString "." ++ ending) := by
        apply isPartName_of_length
        · rw [List.mem_append, not_or]
          exact ⟨by decide, hslash⟩
        · rw [List.length_append]
          omega
      exact ⟨[Text.ofString "." ++ ending], ⟨0, [_], rfl, by simp, by simpa using hname⟩, rfl⟩
  · rw [List.concat_eq_append] at h ⊢
    have hname : IsPartName (last ++ ending) := by
      apply isPartName_of_length
      · rw [List.mem_append, not_or]
        exact ⟨(h.slash_not_mem last (by simp)).2, hslash⟩
      · rw [List.length_append]
        omega
    have hglue := join_glue (Text.ofString "/") last ending front []
    refine ⟨front ++ [last ++ ending], h.replace_last hname, ?_⟩
    cases rooted with
    | true =>
      simp only [ofParts, if_true, List.cons_append, ← hglue]
      rfl
    | false =>
      simp only [ofParts, Bool.false_eq_true, if_false, List.append_eq_nil_iff, List.cons_ne_self,
        and_false, ← hglue]
      rfl

lemma clean_append {p ending : Text} (hp : clean p = p) (hslash : slash ∉ ending)
    (hlength : 2 < ending.length) : clean (p ++ ending) = p ++ ending := by
  obtain ⟨qs, hqs, hform⟩ := (inOrder_parts p).exists_append hslash hlength
  rw [← clean_eq, hp] at hform
  rw [hform, clean_ofParts hqs]

end StackCode.Proofs
