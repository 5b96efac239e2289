import Mathlib
import StackCode.Module.Words
import StackCode.Proofs.Quotation

/-!
# Words of a line

Scanning a line is a relation between the line and its words. Each word that it finds is found again
in every line that has the word between blanks, so words that are written out one after the other
are read back, whatever the blanks are.
-/

namespace StackCode.Proofs

open Text Words

/-! ### Words -/

/-- A word without quotes. -/
def IsPlainWord (w : Text) : Prop := w ≠ [] ∧ ∀ b ∈ w, isPlain b

/-- What scanning takes as one word. -/
def IsWord (w : Text) : Prop := IsPlainWord w ∨ IsQuoted w

lemma IsQuoted.ne_nil {w : Text} (h : IsQuoted w) : w ≠ [] := by
  obtain ⟨t, rfl⟩ := h.1
  exact List.cons_ne_nil _ _

lemma IsWord.ne_nil {w : Text} (h : IsWord w) : w ≠ [] := h.elim And.left IsQuoted.ne_nil

lemma IsPlainWord.append {v w : Text} (hv : IsPlainWord v) (hw : IsPlainWord w) :
    IsPlainWord (v ++ w) := by
  refine ⟨by simp [hv.1], fun b hb => ?_⟩
  rcases List.mem_append.mp hb with hb | hb
  · exact hv.2 b hb
  · exact hw.2 b hb

/-- A plain word, to be checked by evaluation. -/
lemma isPlainWord_of_check {w : Text} (h : (!w.isEmpty && w.all isPlain) = true) :
    IsPlainWord w := by
  simp only [Bool.and_eq_true, List.all_eq_true] at h
  exact ⟨by simpa using h.1, h.2⟩

/-- A line and the words it is split into. -/
inductive Scans : Text → List Text → Prop
  | nil : Scans [] []
  | blank {b : UInt8} {t : Text} {ws : List Text} (hb : isBlank b) (h : Scans t ws) :
    Scans (b :: t) ws
  | comment {b : UInt8} {t : Text} (hb : startsComment b) : Scans (b :: t) []
  | quoted {w t : Text} {ws : List Text} (hw : IsQuoted w) (h : Scans t ws) :
    Scans (w ++ t) (w :: ws)
  | plain {w t : Text} {ws : List Text} (hw : IsPlainWord w)
      (hend : t.takeWhile isPlain = []) (h : Scans t ws) : Scans (w ++ t) (w :: ws)

lemma isPlain_iff {b : UInt8} :
    isPlain b ↔ isBlank b = false ∧ startsComment b = false ∧ b ≠ byte '"' := by
  simp [isPlain, and_assoc]

lemma scanWith_of_scans {t : Text} {ws : List Text} (h : Scans t ws) :
    ∀ fuel, t.length ≤ fuel → scanWith fuel t = some ws := by
  induction h with
  | nil => exact fun _ _ => by rw [scanWith]
  | blank hb _ ih =>
    intro fuel hfuel
    cases fuel with
    | zero => simp at hfuel
    | succ fuel => rw [scanWith, if_pos hb, ih fuel (by simpa using hfuel)]
  | comment hb =>
    intro fuel hfuel
    cases fuel with
    | zero => simp at hfuel
    | succ fuel =>
      rw [scanWith]
      split_ifs with hblank
      · simp [isBlank, startsComment] at hblank hb
        rcases hb with rfl | rfl <;> exact absurd hblank (by decide)
      · rfl
  | @quoted w t ws hw _ ih =>
    intro fuel hfuel
    -- a literal ends with itself, so what follows cannot make it longer
    have hliteral := hw.leadingLiteral? t
    obtain ⟨v, rfl⟩ := hw.1
    cases fuel with
    | zero => simp at hfuel
    | succ fuel =>
      rw [List.cons_append] at hliteral ⊢
      rw [scanWith, if_neg (by decide), if_neg (by decide), if_pos rfl, hliteral]
      dsimp only
      rw [← List.cons_append, List.drop_left, ih fuel (by simp at hfuel; omega), Option.map_some]
  | @plain w t ws hw hend _ ih =>
    intro fuel hfuel
    obtain ⟨b, v, rfl⟩ := List.exists_cons_of_ne_nil hw.1
    obtain ⟨hblank, hcomment, hquote⟩ := isPlain_iff.mp (hw.2 b (by simp))
    have hv : ∀ c ∈ v, isPlain c = true := fun c hc => hw.2 c (by simp [hc])
    -- what follows does not continue the word
    have hdrop : t.dropWhile isPlain = t := by
      have hsplit := List.takeWhile_append_dropWhile (p := isPlain) (l := t)
      rwa [hend, List.nil_append] at hsplit
    cases fuel with
    | zero => simp at hfuel
    | succ fuel =>
      rw [List.cons_append, scanWith, if_neg (by simp [hblank]), if_neg (by simp [hcomment]),
        if_neg hquote, List.takeWhile_append_of_pos hv, List.dropWhile_append_of_pos hv, hend,
        hdrop, List.append_nil, ih fuel (by simp at hfuel; omega), Option.map_some]

lemma takeWhile_dropWhile_isPlain (t : Text) : (t.dropWhile isPlain).takeWhile isPlain = [] := by
  induction t with
  | nil => rfl
  | cons b t ih =>
    cases hb : isPlain b with
    | true => rwa [List.dropWhile_cons_of_pos hb]
    | false => simp [hb]

lemma scans_of_scanWith {fuel : Nat} {t : Text} {ws : List Text} (h : scanWith fuel t = some ws) :
    Scans t ws := by
  induction fuel generalizing t ws with
  | zero =>
    cases t with
    | nil =>
      rw [scanWith] at h
      cases h
      exact .nil
    | cons b t => cases h
  | succ fuel ih =>
    cases t with
    | nil =>
      rw [scanWith] at h
      cases h
      exact .nil
    | cons b t =>
      rw [scanWith] at h
      split_ifs at h with hblank hcomment hquote
      · exact .blank hblank (ih h)
      · cases h
        exact .comment hcomment
      · subst hquote
        cases hliteral : leadingLiteral? (byte '"' :: t) with
        | none =>
          rw [hliteral] at h
          cases h
        | some w =>
          rw [hliteral] at h
          obtain ⟨hw, rest, hsplit⟩ := isQuoted_of_leadingLiteral? hliteral
          dsimp only at h
          rw [hsplit, List.drop_left] at h
          obtain ⟨vs, hvs, rfl⟩ := Option.map_eq_some_iff.mp h
          rw [hsplit]
          exact .quoted hw (ih hvs)
      · obtain ⟨vs, hvs, rfl⟩ := Option.map_eq_some_iff.mp h
        have hplain : isPlain b :=
          isPlain_iff.mpr ⟨by simpa using hblank, by simpa using hcomment, hquote⟩
        have hsplit : b :: t = (b :: t.takeWhile isPlain) ++ t.dropWhile isPlain := by
          rw [List.cons_append, List.takeWhile_append_dropWhile]
        rw [hsplit]
        refine .plain ⟨List.cons_ne_nil _ _, fun c hc => ?_⟩ (takeWhile_dropWhile_isPlain t) (ih hvs)
        rcases List.mem_cons.mp hc with rfl | hc
        · exact hplain
        · exact List.mem_takeWhile_imp hc

/-- Scanning finds the words of a line, and no others. -/
lemma scan_eq_some_iff {t : Text} {ws : List Text} : scan t = some ws ↔ Scans t ws :=
  ⟨scans_of_scanWith, fun h => scanWith_of_scans h _ le_rfl⟩

lemma Scans.isWord {t : Text} {ws : List Text} (h : Scans t ws) : ∀ w ∈ ws, IsWord w := by
  induction h with
  | nil => simp
  | blank _ _ ih => exact ih
  | comment => simp
  | quoted hw _ ih => simpa using ⟨.inr hw, ih⟩
  | plain hw _ _ ih => simpa using ⟨.inl hw, ih⟩

lemma Scans.subset {t : Text} {ws : List Text} (h : Scans t ws) : ∀ w ∈ ws, w ⊆ t := by
  induction h with
  | nil => simp
  | blank _ _ ih => exact fun w hw => List.subset_cons_of_subset _ (ih w hw)
  | comment => simp
  | quoted _ _ ih =>
    simp only [List.mem_cons, forall_eq_or_imp, List.subset_append_left, true_and]
    exact fun w hw => List.subset_append_of_subset_right _ (ih w hw)
  | plain _ _ _ ih =>
    simp only [List.mem_cons, forall_eq_or_imp, List.subset_append_left, true_and]
    exact fun w hw => List.subset_append_of_subset_right _ (ih w hw)

/-! ### Words one after the other -/

lemma join_cons (sep w : Text) {ws : List Text} (h : ws ≠ []) :
    join sep (w :: ws) = w ++ sep ++ join sep ws := by
  obtain ⟨v, vs, rfl⟩ := List.exists_cons_of_ne_nil h
  rfl

lemma join_append (sep : Text) {vs ws : List Text} (hv : vs ≠ []) (hw : ws ≠ []) :
    join sep (vs ++ ws) = join sep vs ++ sep ++ join sep ws := by
  induction vs with
  | nil => exact absurd rfl hv
  | cons v vs ih =>
    cases vs with
    | nil => exact join_cons sep v hw
    | cons u us =>
      rw [List.cons_append, join_cons sep v (by simp), ih (by simp), join_cons sep v (by simp)]
      simp

/-- A word before the end of a line or a blank. -/
lemma IsWord.scans {w t : Text} {ws : List Text} (hw : IsWord w) (hend : t.takeWhile isPlain = [])
    (h : Scans t ws) : Scans (w ++ t) (w :: ws) :=
  hw.elim (fun hw => .plain hw hend h) (fun hw => .quoted hw h)

lemma IsWord.scans_self {w : Text} (hw : IsWord w) : Scans w [w] := by
  have hscans := hw.scans (t := []) rfl .nil
  rwa [List.append_nil] at hscans

/-- What separates two words. -/
def IsGap (gap : Text) : Prop := gap ≠ [] ∧ ∀ b ∈ gap, isBlank b

/-- The words one after the other, each two neighbours with their own gap between them. -/
def spread (gap : Nat → Text) : List Text → Text
  | [] => []
  | [w] => w
  | w :: ws => w ++ gap 0 ++ spread (fun n => gap (n + 1)) ws

lemma spread_cons (gap : Nat → Text) (w : Text) {ws : List Text} (h : ws ≠ []) :
    spread gap (w :: ws) = w ++ gap 0 ++ spread (fun n => gap (n + 1)) ws := by
  obtain ⟨v, vs, rfl⟩ := List.exists_cons_of_ne_nil h
  rfl

lemma spread_const (sep : Text) (ws : List Text) : spread (fun _ => sep) ws = join sep ws := by
  induction ws with
  | nil => rfl
  | cons w ws ih =>
    by_cases hws : ws = []
    · subst hws
      rfl
    · rw [spread_cons _ w hws, join_cons sep w hws, ih]

lemma isPlain_eq_false {b : UInt8} (h : isBlank b ∨ startsComment b) : isPlain b = false := by
  rcases h with h | h <;> simp [isPlain, h]

lemma Scans.blanks {blanks t : Text} {ws : List Text} (hblanks : ∀ b ∈ blanks, isBlank b)
    (h : Scans t ws) : Scans (blanks ++ t) ws := by
  induction blanks with
  | nil => exact h
  | cons b blanks ih =>
    exact .blank (hblanks b (by simp)) (ih fun c hc => hblanks c (by simp [hc]))

lemma takeWhile_of_no_words {t : Text} (h : Scans t []) : t.takeWhile isPlain = [] := by
  cases h with
  | nil => rfl
  | blank hb _ => rw [List.takeWhile_cons_of_neg (by simp [isPlain_eq_false (.inl hb)])]
  | comment hb => rw [List.takeWhile_cons_of_neg (by simp [isPlain_eq_false (.inr hb)])]

lemma takeWhile_of_gap {gap : Text} (h : IsGap gap) (t : Text) :
    (gap ++ t).takeWhile isPlain = [] := by
  obtain ⟨b, blanks, rfl⟩ := List.exists_cons_of_ne_nil h.1
  have hb := isPlain_eq_false (.inl (h.2 b (by simp)))
  rw [List.cons_append, List.takeWhile_cons_of_neg (by simp [hb])]

/-- Words with gaps between neighbours are scanned as these words, whatever follows them that has no
word of its own. -/
lemma scans_spread {gap : Nat → Text} (hgap : ∀ n, IsGap (gap n)) {ws : List Text}
    (h : ∀ w ∈ ws, IsWord w) {ending : Text} (hending : Scans ending []) :
    Scans (spread gap ws ++ ending) ws := by
  induction ws generalizing gap with
  | nil => exact hending
  | cons w ws ih =>
    have hw := h w (by simp)
    by_cases hws : ws = []
    · subst hws
      exact hw.scans (takeWhile_of_no_words hending) hending
    · rw [spread_cons gap w hws, List.append_assoc, List.append_assoc]
      apply hw.scans (takeWhile_of_gap (hgap 0) _)
      exact .blanks (hgap 0).2 (ih (fun n => hgap (n + 1)) fun v hv => h v (by simp [hv]))

/-- Words with a blank between neighbours are scanned as these words. -/
lemma scans_join {ws : List Text} (h : ∀ w ∈ ws, IsWord w) : Scans (join " " ws) ws := by
  have hgap : IsGap " " := ⟨List.cons_ne_nil _ _, List.forall_mem_singleton.mpr rfl⟩
  have hscans := scans_spread (fun _ => hgap) h .nil
  rwa [List.append_nil, spread_const] at hscans

/-- The same words after an indent. -/
lemma scans_indented {ws : List Text} (h : ∀ w ∈ ws, IsWord w) :
    Scans (Text.ofString "  " ++ join " " ws) ws :=
  .blank (by decide) (.blank (by decide) (scans_join h))

/-! ### Lines of plain words -/

/-- Plain words with single blanks between them. -/
def Spaced (t : Text) : Prop := ∃ ws, ws ≠ [] ∧ (∀ w ∈ ws, IsPlainWord w) ∧ t = join " " ws

lemma IsPlainWord.spaced {w : Text} (h : IsPlainWord w) : Spaced w :=
  ⟨[w], by simp, by simpa using h, rfl⟩

lemma Spaced.blank {s t : Text} (hs : Spaced s) (ht : Spaced t) : Spaced (s ++ byte ' ' :: t) := by
  obtain ⟨vs, hv, hvs, rfl⟩ := hs
  obtain ⟨ws, hw, hws, rfl⟩ := ht
  refine ⟨vs ++ ws, by simp [hv], fun u hu => ?_, ?_⟩
  · rcases List.mem_append.mp hu with hu | hu
    · exact hvs u hu
    · exact hws u hu
  · rw [join_append _ hv hw, List.append_assoc]
    rfl

lemma join_glue (sep v w : Text) (vs ws : List Text) :
    join sep (vs ++ [v]) ++ join sep (w :: ws) = join sep (vs ++ (v ++ w) :: ws) := by
  induction vs with
  | nil =>
    cases ws with
    | nil => rfl
    | cons u us =>
      rw [List.nil_append, List.nil_append, join_cons sep w (by simp),
        join_cons sep (v ++ w) (by simp)]
      simp [join]
  | cons u us ih =>
    rw [List.cons_append, List.cons_append, join_cons sep u (by simp), join_cons sep u (by simp),
      ← ih, List.append_assoc]

/-- Without a blank between them the last word and the next first one are one word. -/
lemma Spaced.append {s t : Text} (hs : Spaced s) (ht : Spaced t) : Spaced (s ++ t) := by
  obtain ⟨vs, hv, hvs, rfl⟩ := hs
  obtain ⟨ws, hw, hws, rfl⟩ := ht
  obtain ⟨vs, v, rfl⟩ := (List.eq_nil_or_concat' vs).resolve_left hv
  obtain ⟨w, ws, rfl⟩ := List.exists_cons_of_ne_nil hw
  have hglued := (hvs v (by simp)).append (hws w (by simp))
  refine ⟨vs ++ (v ++ w) :: ws, by simp, fun u hu => ?_, join_glue _ v w vs ws⟩
  rcases List.mem_append.mp hu with hu | hu
  · exact hvs u (by simp [hu])
  · rcases List.mem_cons.mp hu with rfl | hu
    · exact hglued
    · exact hws u (by simp [hu])

/-- A line that starts with a word and goes on with plain words. -/
lemma Spaced.scan_after {t v : Text} (h : Spaced t) (hv : IsPlainWord v) :
    ∃ ws, Scans (v ++ byte ' ' :: t) (v :: ws) ∧ join " " ws = t := by
  obtain ⟨ws, hne, hws, rfl⟩ := h
  refine ⟨ws, ?_, rfl⟩
  have hwords : ∀ w ∈ v :: ws, IsWord w := by
    simp only [List.mem_cons, forall_eq_or_imp]
    exact ⟨.inl hv, fun w hw => .inl (hws w hw)⟩
  have hscans := scans_join hwords
  rwa [join_cons _ _ hne, List.append_assoc] at hscans

/-! ### Words written out again -/

/-- Scanning is stable. The words of a line, with any blanks before, between and behind them and a
comment at the end or none, are scanned as the same words. -/
theorem rejoined_words_scan_alike {line : Text} {ws : List Text} (h : scan line = some ws)
    {gap : Nat → Text} (hgap : ∀ n, IsGap (gap n)) {indent trail : Text}
    (hindent : ∀ b ∈ indent, isBlank b) (htrail : ∀ b ∈ trail, isBlank b) {comment : Text}
    (hcomment : ∀ b ∈ comment.head?, startsComment b) :
    scan (indent ++ spread gap ws ++ trail ++ comment) = some ws := by
  have hending : Scans comment [] := by
    cases comment with
    | nil => exact .nil
    | cons b t => exact .comment (hcomment b rfl)
  have hwords := (scan_eq_some_iff.mp h).isWord
  rw [scan_eq_some_iff, List.append_assoc, List.append_assoc]
  exact .blanks hindent (scans_spread hgap hwords (.blanks htrail hending))

/-- A quoted word that holds a comment sign, an escaped quote and a stray byte, and plain words. -/
def crowdedWords : List Text :=
  ["x=", Text.ofString "\"#\\\"" ++ [0xFF] ++ Text.ofString ";\"", "y"]

/-- The words of a line in which they touch each other are found again with blanks between them. -/
theorem crowded_words_scan_alike :
    scan (crowdedWords.flatten ++ Text.ofString "\t# z") = some crowdedWords ∧
    scan (Text.ofString "\tx=\r\"#\\\"" ++ [0xFF] ++ Text.ofString ";\"  \ty ;\"") =
      some crowdedWords := by
  have hline : scan (crowdedWords.flatten ++ Text.ofString "\t# z") = some crowdedWords := by
    decide +kernel
  have hgap : ∀ n, IsGap (if n = 0 then Text.ofString "\r" else Text.ofString "  \t") := by
    intro n
    split
    · exact ⟨by decide +kernel, by decide +kernel⟩
    · exact ⟨by decide +kernel, by decide +kernel⟩
  have hindent : ∀ b ∈ Text.ofString "\t", isBlank b := by decide +kernel
  have htrail : ∀ b ∈ Text.ofString " ", isBlank b := by decide +kernel
  have hcomment : ∀ b ∈ (Text.ofString ";\"").head?, startsComment b := by decide +kernel
  exact ⟨hline, rejoined_words_scan_alike hline hgap hindent htrail hcomment⟩

end StackCode.Proofs
