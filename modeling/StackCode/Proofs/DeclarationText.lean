import Mathlib
import StackCode.Module.Printer
import StackCode.Module.Reader
import StackCode.Proofs.Fallible
import StackCode.Proofs.InstructionText

/-!
# Declarations in text

Variables and function headers are written so that they are read back, and everything that is read
as one has identifiers for its names and types.
-/

namespace StackCode.Proofs

open Text

/-! ### Variables -/

/-- A variable as declarations name it: an identifier, with a type that is one or is left out. -/
structure VarSpelled (v : Var) : Prop where
  name : isIdent v.name
  type : v.type = [] ∨ isIdent v.type

lemma var_text_typed {v : Var} (h : v.type ≠ []) :
    v.text = v.name ++ byte ':' :: byte ' ' :: v.type := by
  rw [Var.text, if_neg (by simpa using h), List.append_assoc]
  rfl

lemma var_text_untyped {v : Var} (h : v.type = []) : v.text = v.name := by
  rw [Var.text, if_pos (by simp [h])]

/-- A declaration is read back, also after a blank. -/
lemma readVar_text {v : Var} (h : VarSpelled v) {t : Text}
    (ht : t = v.text ∨ t = byte ' ' :: v.text) : Module.readVar t = .ok v := by
  have hcolon : byte ':' ∉ v.name := not_mem_of_isIdent h.name (by decide)
  by_cases htype : v.type = []
  -- no colon, so the whole text is the name
  · have htext := var_text_untyped htype
    have hcut : cut (byte ':') t = none := by
      apply cut_of_not_mem
      rcases ht with rfl | rfl <;> rw [htext]
      · exact hcolon
      · simpa using ⟨by decide, hcolon⟩
    have htrim : t.trim = v.name := by
      rcases ht with rfl | rfl <;> rw [htext]
      · exact trim_ident h.name
      · rw [trim_blank_cons, trim_ident h.name]
    unfold Module.readVar
    rw [hcut]
    dsimp only
    rw [htrim, h.name]
    cases v
    simp_all
  · have hident := h.type.resolve_left htype
    have htext := var_text_typed htype
    obtain ⟨front, hcut, hfront⟩ : ∃ front, cut (byte ':') t = some (front, byte ' ' :: v.type) ∧
        front.trim = v.name := by
      rcases ht with rfl | rfl <;> rw [htext]
      · exact ⟨v.name, cut_append hcolon _, trim_ident h.name⟩
      · refine ⟨byte ' ' :: v.name, ?_, by rw [trim_blank_cons, trim_ident h.name]⟩
        rw [← List.cons_append]
        exact cut_append (by simpa using ⟨by decide, hcolon⟩) _
    unfold Module.readVar
    rw [hcut]
    dsimp only
    rw [hfront, trim_blank_cons, trim_ident hident, h.name, hident]
    cases v
    rfl

lemma varSpelled_of_readVar {t : Text} {v : Var} (h : Module.readVar t = .ok v) : VarSpelled v := by
  unfold Module.readVar at h
  cases hcut : cut (byte ':') t with
  | none =>
    rw [hcut] at h
    dsimp only at h
    split_ifs at h with hname
    cases h
    exact ⟨by simpa using hname, .inl rfl⟩
  | some pair =>
    rw [hcut] at h
    dsimp only at h
    split_ifs at h with hname htype
    cases h
    exact ⟨by simpa using hname, .inr (by simpa using htype)⟩

lemma isPlainWord_colon : IsPlainWord [byte ':'] := isPlainWord_of_check (by decide)

lemma VarSpelled.spaced {v : Var} (h : VarSpelled v) : Spaced v.text := by
  have hname := isPlainWord_of_isIdent h.name
  by_cases htype : v.type = []
  · rw [var_text_untyped htype]
    exact hname.spaced
  · have hlast := isPlainWord_of_isIdent (h.type.resolve_left htype)
    have hspaced := (hname.append isPlainWord_colon).spaced.blank hlast.spaced
    rwa [List.append_assoc, List.singleton_append, ← var_text_typed htype] at hspaced

/-- A byte that stands in no identifier and does not separate a name from its type. -/
lemma VarSpelled.not_mem {v : Var} (h : VarSpelled v) {c : UInt8} (hc : isNameByte c = false)
    (hcolon : c ≠ byte ':') (hblank : c ≠ byte ' ') : c ∉ v.text := by
  have hname := not_mem_of_isIdent h.name hc
  by_cases htype : v.type = []
  · rwa [var_text_untyped htype]
  · have hlast := not_mem_of_isIdent (h.type.resolve_left htype) hc
    rw [var_text_typed htype]
    simp [hname, hlast, hcolon, hblank]

/-- A declaration starts and ends with an identifier. -/
lemma VarSpelled.ends {v : Var} (h : VarSpelled v) :
    (∃ x, v.text = v.name ++ x) ∧ ∃ y b, y.isUtf8 ∧ isIdent b ∧ v.text = y ++ b := by
  by_cases htype : v.type = []
  · rw [var_text_untyped htype]
    exact ⟨⟨[], by simp⟩, [], v.name, rfl, h.name, by simp⟩
  · rw [var_text_typed htype]
    refine ⟨⟨_, rfl⟩, v.name ++ [byte ':', byte ' '], v.type, ?_, h.type.resolve_left htype, by simp⟩
    exact isUtf8_append (isUtf8_of_isIdent h.name) (by decide)

lemma VarSpelled.isUtf8 {v : Var} (h : VarSpelled v) : v.text.isUtf8 := by
  obtain ⟨-, y, b, hy, hb, htext⟩ := h.ends
  rw [htext]
  exact isUtf8_append hy (isUtf8_of_isIdent hb)

/-! ### Parameter lists -/

/-- The parameters of a function between its parentheses. -/
def paramsText (vs : List Var) : Text := join ", " (vs.map Var.text)

lemma paramsText_cons {v : Var} {vs : List Var} (h : vs ≠ []) :
    paramsText (v :: vs) = v.text ++ byte ',' :: byte ' ' :: paramsText vs := by
  rw [paramsText, List.map_cons, join_cons _ _ (by simpa using h), List.append_assoc]
  rfl

/-- Between commas stand the declarations, all but the first after a blank. -/
lemma mapM_readVar_params {vs : List Var} (h : ∀ v ∈ vs, VarSpelled v) (hne : vs ≠ []) {t : Text}
    (ht : t = paramsText vs ∨ t = byte ' ' :: paramsText vs) :
    (splitOn (byte ',') t).mapM Module.readVar = .ok vs := by
  induction vs generalizing t with
  | nil => exact absurd rfl hne
  | cons v vs ih =>
    have hv := h v (by simp)
    have hcomma : byte ',' ∉ v.text := hv.not_mem (by decide) (by decide) (by decide)
    cases vs with
    | nil =>
      have ht' : t = v.text ∨ t = byte ' ' :: v.text := ht
      have hsplit : splitOn (byte ',') t = [t] := by
        apply splitOn_of_not_mem
        rcases ht' with rfl | rfl
        · exact hcomma
        · simpa using ⟨by decide, hcomma⟩
      rw [hsplit, List.mapM_cons, readVar_text hv ht']
      rfl
    | cons w ws =>
      rw [paramsText_cons (by simp)] at ht
      obtain ⟨front, hfront, rfl⟩ : ∃ front, (front = v.text ∨ front = byte ' ' :: v.text) ∧
          t = front ++ byte ',' :: byte ' ' :: paramsText (w :: ws) := by
        rcases ht with rfl | rfl
        · exact ⟨_, .inl rfl, rfl⟩
        · exact ⟨_, .inr rfl, rfl⟩
      have hcomma' : byte ',' ∉ front := by
        rcases hfront with rfl | rfl
        · exact hcomma
        · simpa using ⟨by decide, hcomma⟩
      rw [splitOn_append hcomma', List.mapM_cons, readVar_text hv hfront,
        ih (fun u hu => h u (by simp at hu ⊢; tauto)) (by simp) (.inr rfl)]
      rfl

lemma paramsText_spec {vs : List Var} (h : ∀ v ∈ vs, VarSpelled v) (hne : vs ≠ []) :
    Spaced (paramsText vs) ∧ byte '\n' ∉ paramsText vs ∧
      (∃ a x, isIdent a ∧ paramsText vs = a ++ x) ∧
      ∃ y b, y.isUtf8 ∧ isIdent b ∧ paramsText vs = y ++ b := by
  induction vs with
  | nil => exact absurd rfl hne
  | cons v vs ih =>
    have hv := h v (by simp)
    have hnewline : byte '\n' ∉ v.text := hv.not_mem (by decide) (by decide) (by decide)
    obtain ⟨⟨x, hx⟩, y, b, hy, hb, hyb⟩ := hv.ends
    by_cases hvs : vs = []
    · subst hvs
      have htext : paramsText [v] = v.text := rfl
      rw [htext]
      exact ⟨hv.spaced, hnewline, ⟨v.name, x, hv.name, hx⟩, y, b, hy, hb, hyb⟩
    · obtain ⟨hspaced, hline, -, y', b', hy', hb', hyb'⟩ := ih (fun u hu => h u (by simp [hu])) hvs
      have hcomma : IsPlainWord [byte ','] := isPlainWord_of_check (by decide)
      rw [paramsText_cons hvs]
      refine ⟨?_, ?_, ⟨v.name, x ++ byte ',' :: byte ' ' :: paramsText vs, hv.name, by rw [hx]; simp⟩,
        v.text ++ byte ',' :: byte ' ' :: y', b', ?_, hb', by rw [hyb']; simp⟩
      · have hjoined := (hv.spaced.append hcomma.spaced).blank hspaced
        rwa [List.append_assoc, List.singleton_append] at hjoined
      · simp only [List.mem_append, List.mem_cons, not_or]
        exact ⟨hnewline, by decide, by decide, hline⟩
      · have htail := isUtf8_append (s := [byte ',', byte ' ']) (by decide) hy'
        exact isUtf8_append hv.isUtf8 htail

/-! ### Function headers -/

/-- What follows `func` on the line that opens a function. -/
def headerText (f : Function) : Text :=
  f.name ++ byte '(' :: (paramsText f.params ++ Text.ofString ") \x7b")

lemma readHeader_text {f : Function} (hname : isIdent f.name) (h : ∀ v ∈ f.params, VarSpelled v) :
    Module.readHeader (headerText f) = .ok { name := f.name, params := f.params } := by
  have hopen : byte '(' ∉ f.name := not_mem_of_isIdent hname (by decide)
  have hcut := cut_append hopen (paramsText f.params ++ Text.ofString ") \x7b")
  -- the parenthesis that closes is the last one, whatever the parameters are
  have hcutLast : cutLast (byte ')') (headerText f) =
      some (f.name ++ byte '(' :: paramsText f.params, Text.ofString " \x7b") := by
    have hsplit : headerText f =
        (f.name ++ byte '(' :: paramsText f.params) ++ byte ')' :: Text.ofString " \x7b" := by
      simp [headerText]
      rfl
    rw [hsplit]
    exact cutLast_append _ (by decide)
  have hbrace : Text.trim (Text.ofString " \x7b") = Text.ofString "\x7b" := by decide
  have hlength : (headerText f).length - (paramsText f.params ++ Text.ofString ") \x7b").length =
      f.name.length + 1 := by
    simp [headerText]
    omega
  have hdrop : (f.name ++ byte '(' :: paramsText f.params).drop (f.name.length + 1) =
      paramsText f.params := by
    simp
  unfold Module.readHeader
  rw [headerText] at hcutLast hlength ⊢
  rw [hcut, hcutLast]
  dsimp only
  rw [hlength, hdrop, hbrace, trim_ident hname, hname, if_pos (by simp), if_neg (by simp)]
  by_cases hparams : f.params = []
  · have hempty : paramsText f.params = [] := by rw [hparams]; rfl
    rw [hempty, hparams]
    rfl
  · obtain ⟨-, -, ⟨a, x, ha, hfront⟩, y, b, hy, hb, hback⟩ := paramsText_spec h hparams
    have hne : paramsText f.params ≠ [] := by
      rw [hfront]
      simp [ne_nil_of_isIdent ha]
    rw [(trimmed_of_ends ha hfront hy hb hback).trim, if_neg (by simpa using hne),
      mapM_readVar_params h hparams (.inl rfl)]
    rfl

lemma varSpelled_of_mapM {ts : List Text} {vs : List Var} (h : ts.mapM Module.readVar = .ok vs) :
    ∀ v ∈ vs, VarSpelled v := by
  have hall := mapM_eq_ok_iff.mp h
  clear h
  induction hall with
  | nil => simp
  | cons hread _ ih => simpa using ⟨varSpelled_of_readVar hread, ih⟩

lemma header_of_readHeader {t : Text} {f : Function} (h : Module.readHeader t = .ok f) :
    isIdent f.name ∧ (∀ v ∈ f.params, VarSpelled v) ∧ f.locals = [] ∧ f.body = [] := by
  unfold Module.readHeader at h
  split at h
  · dsimp only at h
    split_ifs at h with hshape hname hempty
    · cases h
      exact ⟨by simpa using hname, by simp, rfl, rfl⟩
    · obtain ⟨vars, hvars, hf⟩ := bind_eq_ok_iff.mp h
      cases hf
      exact ⟨by simpa using hname, varSpelled_of_mapM hvars, rfl, rfl⟩
  · cases h

/-- The line that opens a function is made of plain words. -/
lemma headerText_spec {f : Function} (hname : isIdent f.name) (h : ∀ v ∈ f.params, VarSpelled v) :
    Spaced (headerText f) ∧ byte '\n' ∉ headerText f := by
  have hopen : IsPlainWord [byte '('] := isPlainWord_of_check (by decide)
  have hclose : Spaced (Text.ofString ") \x7b") := by
    have hparen : IsPlainWord [byte ')'] := isPlainWord_of_check (by decide)
    have hbrace : IsPlainWord [byte '\x7b'] := isPlainWord_of_check (by decide)
    exact hparen.spaced.blank hbrace.spaced
  have hfront := ((isPlainWord_of_isIdent hname).append hopen).spaced
  have hline : byte '\n' ∉ f.name := not_mem_of_isIdent hname (by decide)
  by_cases hparams : f.params = []
  · have htext : headerText f = f.name ++ [byte '('] ++ Text.ofString ") \x7b" := by
      rw [headerText, hparams]
      simp
      rfl
    rw [htext]
    refine ⟨hfront.append hclose, ?_⟩
    simp only [List.mem_append, not_or]
    exact ⟨⟨hline, by decide⟩, by decide⟩
  · obtain ⟨hspaced, hnewline, -⟩ := paramsText_spec h hparams
    have htext : headerText f =
        f.name ++ [byte '('] ++ (paramsText f.params ++ Text.ofString ") \x7b") := by
      rw [headerText]
      simp
    rw [htext]
    refine ⟨hfront.append (hspaced.append hclose), ?_⟩
    simp only [List.mem_append, not_or]
    exact ⟨⟨hline, by decide⟩, hnewline, by decide⟩

end StackCode.Proofs
