import StackCode.Compile
import StackCode.Proofs.Emittability
import StackCode.Proofs.Folding

/-!
# Builds that optimization breaks

A module that compiles as it is may fail to compile when it is optimized. Folding never lengthens a
jump and never takes away all code behind a label, so there are two ways only: a jump before the
first return of a function leads to a label behind it, which is dropped, or folding makes more
constants than there is room for.
-/

namespace StackCode.Proofs

open Emit

/-- A jump before the first return of the function leads to a label that stands only behind it. -/
def JumpsPastReturn (f : Function) (label : Text) : Prop :=
  ∃ front back, f.body = front ++ Instr.ret :: back ∧ Instr.ret ∉ front ∧
    (Instr.jump label ∈ front ∨ Instr.jumpIf label ∈ front) ∧ Instr.label label ∉ front ∧
    Instr.label label ∈ back

/-! ### Folded code -/

/-- An instruction that folding may replace. -/
def Foldable : Instr → Prop
  | .const _ | .binary _ | .unary _ => True
  | _ => False

lemma Computes.foldable {segment : List Instr} {v : Value} (h : Computes segment v) {i : Instr}
    (hi : i ∈ segment) : Foldable i := by
  induction h with
  | const v =>
    rw [List.mem_singleton.mp hi]
    trivial
  | binary _ _ _ ihx ihy =>
    simp only [List.mem_append, List.mem_singleton] at hi
    rcases hi with (hx | hy) | rfl
    · exact ihx hx
    · exact ihy hy
    · trivial
  | unary _ _ ihx =>
    simp only [List.mem_append, List.mem_singleton] at hi
    rcases hi with hx | rfl
    · exact ihx hx
    · trivial

lemma Folds.mem_iff {xs ys : List Instr} (h : Folds xs ys) {i : Instr} (hi : ¬Foldable i) :
    i ∈ xs ↔ i ∈ ys := by
  induction h with
  | nil => rfl
  | keep j _ ih => rw [List.mem_cons, List.mem_cons, ih]
  | @fold segment v xs ys hsegment _ ih =>
    have hout : i ∉ segment := fun hmem => hi (hsegment.foldable hmem)
    have hne : i ≠ .const v := by
      rintro rfl
      exact hi trivial
    simp [ih, hout, hne]

/-- An instruction that folding leaves parts the body as it parts the folded one. -/
lemma Folds.split_at {xs front' back' : List Instr} {i : Instr}
    (h : Folds xs (front' ++ i :: back')) (hi : ¬Foldable i) :
    ∃ front back, xs = front ++ i :: back ∧ Folds front front' ∧ Folds back back' := by
  obtain ⟨front, rest, rfl, hfront, hrest⟩ := h.split
  cases hrest with
  | keep _ hback => exact ⟨front, _, rfl, hfront, hback⟩
  | fold => exact absurd trivial hi

lemma codeSize_append (front back : List Instr) :
    codeSize (front ++ back) = codeSize front + codeSize back := by
  simp [codeSize]

lemma codeSize_cons (i : Instr) (body : List Instr) :
    codeSize (i :: body) = codeSize [i] + codeSize body := codeSize_append [i] body

lemma Computes.codeSize_ge {segment : List Instr} {v : Value} (h : Computes segment v) :
    3 ≤ codeSize segment := by
  induction h with
  | const v => rfl
  | binary _ _ _ ihx _ =>
    rw [codeSize_append, codeSize_append]
    omega
  | unary _ _ ihx =>
    rw [codeSize_append]
    omega

lemma codeSize_const (v : Value) : codeSize [.const v] = 3 := rfl

lemma codeSize_label (label : Text) (body : List Instr) :
    codeSize (.label label :: body) = codeSize body := rfl

lemma codeSize_jump {i : Instr} {label : Text} (hi : i = .jump label ∨ i = .jumpIf label)
    (body : List Instr) : codeSize (i :: body) = 3 + codeSize body := by
  rw [codeSize_cons]
  rcases hi with rfl | rfl
  · rfl
  · rfl

lemma Folds.codeSize_le {xs ys : List Instr} (h : Folds xs ys) : codeSize ys ≤ codeSize xs := by
  induction h with
  | nil => exact le_rfl
  | @keep i xs ys _ ih =>
    rw [codeSize_cons i xs, codeSize_cons i ys]
    omega
  | @fold segment v _ _ hsegment _ ih =>
    have hge := hsegment.codeSize_ge
    rw [codeSize_cons, codeSize_append, codeSize_const]
    omega

lemma Folds.codeSize_pos {xs ys : List Instr} (h : Folds xs ys) (hpos : 0 < codeSize xs) :
    0 < codeSize ys := by
  induction h with
  | nil => exact hpos
  | keep i _ ih =>
    rw [codeSize_cons] at hpos ⊢
    omega
  | fold =>
    rw [codeSize_cons, codeSize_const]
    omega

lemma labelsOf_append (front back : List Instr) :
    labelsOf (front ++ back) = labelsOf front ++ labelsOf back := List.filterMap_append

lemma mem_labelsOf {body : List Instr} {label : Text} :
    label ∈ labelsOf body ↔ Instr.label label ∈ body := by
  rw [← pieceLabels_bodyPieces, mem_pieceLabels, bodyPieces, List.mem_flatMap]
  constructor
  · rintro ⟨i, hi, hmem⟩
    rwa [← mem_of_label_mem_pieces hmem]
  · exact fun h => ⟨_, h, by simp [pieces]⟩

lemma Folds.labelsOf_eq {xs ys : List Instr} (h : Folds xs ys) : labelsOf xs = labelsOf ys := by
  induction h with
  | nil => rfl
  | @keep i xs ys _ ih => rw [labelsOf_cons i xs, labelsOf_cons i ys, ih]
  | @fold segment v _ _ hsegment _ ih =>
    have hnone : labelsOf segment = [] := by
      rw [List.eq_nil_iff_forall_not_mem]
      exact fun label hmem => hsegment.label_not_mem label (mem_labelsOf.mp hmem)
    rw [labelsOf_append, hnone, labelsOf_cons, ih]
    rfl

/-! ### Optimized functions -/

lemma all_ne_of_not_mem {body : List Instr} {i : Instr} (h : i ∉ body) :
    ∀ j ∈ body, decide (j ≠ i) = true := by
  intro j hj
  simpa using fun heq : j = i => h (heq ▸ hj)

/-- Without a return the body is only folded. With one it is folded up to the first return, and the
rest is dropped. -/
lemma optimize_cases (f : Function) :
    (Instr.ret ∉ f.body ∧ Folds f.body f.optimize.1.body) ∨
    ∃ front back front', f.body = front ++ Instr.ret :: back ∧ Instr.ret ∉ front ∧
      f.optimize.1.body = front' ++ [Instr.ret] ∧ Folds front front' := by
  have hret : ¬Foldable .ret := id
  have hfolds : Folds f.body (Optimize.foldConstants f.body).1 := by
    have hnone : Folds [] (List.reverse []) := .nil
    exact folds_foldFrom hnone 0 f.body
  have hbody : f.optimize.1.body = Optimize.upToReturn (Optimize.foldConstants f.body).1 := rfl
  rw [hbody]
  generalize (Optimize.foldConstants f.body).1 = folded at hfolds
  by_cases hmem : .ret ∈ folded
  · right
    obtain ⟨front', back', rfl, hfirst⟩ := List.eq_append_cons_of_mem hmem
    obtain ⟨front, back, hsplit, hfront, -⟩ := hfolds.split_at hret
    refine ⟨front, back, front', hsplit, ?_, ?_, hfront⟩
    · rwa [hfront.mem_iff hret]
    · have hkept := all_ne_of_not_mem hfirst
      rw [Optimize.upToReturn, List.takeWhile_append_of_pos hkept,
        List.dropWhile_append_of_pos hkept]
      simp
  · left
    refine ⟨by rwa [hfolds.mem_iff hret], ?_⟩
    have hkept := all_ne_of_not_mem hmem
    rw [Optimize.upToReturn, List.takeWhile_eq_self_iff.mpr hkept,
      List.dropWhile_eq_nil_iff.mpr hkept]
    simpa using hfolds

/-- The body up to a first element is determined by the element. -/
lemma eq_of_first {front back front' back' : List Instr} {i : Instr} (hfront : i ∉ front)
    (hfront' : i ∉ front') (h : front ++ i :: back = front' ++ i :: back') : front = front' := by
  have htake : ∀ {xs ys : List Instr}, i ∉ xs → (xs ++ i :: ys).takeWhile (· ≠ i) = xs := by
    intro xs ys hxs
    rw [List.takeWhile_append_of_pos (all_ne_of_not_mem hxs)]
    simp
  rw [← htake hfront, h, htake hfront']

/-- A jump of the function leads to a label that the function does not have. -/
def LacksLabel (f : Function) (label : Text) : Prop :=
  (Instr.jump label ∈ f.body ∨ Instr.jumpIf label ∈ f.body) ∧ Instr.label label ∉ f.body

section Optimized

variable {functions : List Text} {f : Function}

lemma EmittableFunction.label_mem (hf : EmittableFunction functions f) {label : Text}
    (h : Instr.jump label ∈ f.body ∨ Instr.jumpIf label ∈ f.body) :
    Instr.label label ∈ f.body := by
  have hreach : ∀ i ∈ f.body, i = .jump label ∨ i = .jumpIf label →
      Instr.label label ∈ f.body := by
    intro i hmem hi
    obtain ⟨front, back, hbody⟩ := List.append_of_mem hmem
    obtain ⟨before, after, hsplit, -⟩ := hf.jumps front i back label hbody hi
    rw [hsplit]
    simp
  rcases h with h | h
  · exact hreach _ h (.inl rfl)
  · exact hreach _ h (.inr rfl)

/-- Optimization takes a label from a jump exactly if the jump leads past the first return. -/
lemma lacksLabel_optimize_iff (hf : EmittableFunction functions f) {label : Text} :
    LacksLabel f.optimize.1 label ↔ JumpsPastReturn f label := by
  have hjump : ¬Foldable (.jump label) := id
  have hjumpIf : ¬Foldable (.jumpIf label) := id
  have hlabel : ¬Foldable (.label label) := id
  unfold LacksLabel JumpsPastReturn
  rcases optimize_cases f with ⟨hret, hfolds⟩ | ⟨front, back, front', hbody, hret, hopt, hfolds⟩
  · rw [← hfolds.mem_iff hjump, ← hfolds.mem_iff hjumpIf, ← hfolds.mem_iff hlabel]
    constructor
    · rintro ⟨hjumps, hmissing⟩
      exact absurd (hf.label_mem hjumps) hmissing
    · rintro ⟨front, back, hbody, -⟩
      rw [hbody] at hret
      simp at hret
  · have hmem : ∀ i, ¬Foldable i → i ≠ .ret → (i ∈ f.optimize.1.body ↔ i ∈ front) := by
      intro i hi hne
      rw [hopt, List.mem_append, List.mem_singleton, or_iff_left hne, hfolds.mem_iff hi]
    rw [hmem _ hjump (by simp), hmem _ hjumpIf (by simp), hmem _ hlabel (by simp)]
    constructor
    · rintro ⟨hjumps, hmissing⟩
      refine ⟨front, back, hbody, hret, hjumps, hmissing, ?_⟩
      have hstands : .label label ∈ f.body :=
        hf.label_mem (hjumps.imp (by simp +contextual [hbody]) (by simp +contextual [hbody]))
      rw [hbody] at hstands
      simpa [hmissing] using hstands
    · rintro ⟨first, rest, hbody', hret', hjumps, hmissing, -⟩
      obtain rfl := eq_of_first hret hret' (hbody.symm.trans hbody')
      exact ⟨hjumps, hmissing⟩

/-- Where a label stands in the body of a function, once at most. -/
lemma EmittableFunction.eq_of_label (hf : EmittableFunction functions f) {label : Text}
    {before after before' after' : List Instr} (h : f.body = before ++ Instr.label label :: after)
    (h' : f.body = before' ++ Instr.label label :: after') : before = before' ∧ after = after' := by
  have hfresh : ∀ {xs ys}, f.body = xs ++ Instr.label label :: ys → Instr.label label ∉ xs := by
    intro xs ys hxs hmem
    have hnodup : (labelsOf f.body).Nodup := hf.labels_nodup
    rw [hxs, labelsOf_append, labelsOf_cons] at hnodup
    apply List.disjoint_of_nodup_append hnodup (mem_labelsOf.mpr hmem)
    simp [labelsOf, Function.labels]
  obtain rfl := eq_of_first (hfresh h) (hfresh h') (h.symm.trans h')
  rw [h] at h'
  exact ⟨rfl, by simpa using h'⟩

/-- Behind a label of a body that ends with a return there is code. -/
lemma codeSize_pos_of_ret {front before after : List Instr} {label : Text}
    (h : before ++ Instr.label label :: after = front ++ [Instr.ret]) : 0 < codeSize after := by
  rcases List.eq_nil_or_concat after with rfl | ⟨rest, last, rfl⟩
  · have hlast := (List.append_inj' h rfl).2
    simp at hlast
  · rw [List.concat_eq_append] at h ⊢
    rw [← List.cons_append, ← List.append_assoc] at h
    obtain ⟨-, hlast⟩ := List.append_inj' h rfl
    have hone : codeSize [.ret] = 1 := rfl
    rw [hlast, codeSize_append, hone]
    omega

/-- A jump of the optimized function that still has its label is in reach of it. -/
lemma inReach_optimize (hf : EmittableFunction functions f) {front' back' : List Instr} {i : Instr}
    {label : Text} (hopt : f.optimize.1.body = front' ++ i :: back')
    (hi : i = .jump label ∨ i = .jumpIf label) (hlabel : Instr.label label ∈ f.optimize.1.body) :
    InReach f.optimize.1.body front' label := by
  have hfold : ¬Foldable i := by rcases hi with rfl | rfl <;> exact id
  have hlabelFold : ¬Foldable (.label label) := id
  have hne : .label label ≠ i := by rcases hi with rfl | rfl <;> simp
  obtain ⟨kept, cut, hbody, hfolds, hcut⟩ := folds_optimize f
  rw [hopt] at hfolds
  obtain ⟨front, back, rfl, hfront, hback⟩ := hfolds.split_at hfold
  rw [hopt, List.mem_append, List.mem_cons, or_iff_right hne] at hlabel
  obtain ⟨before, after, hsplit, hpos, hlow, hhigh⟩ := hf.jumps front i (back ++ cut) label
    (by simp [hbody]) hi
  rcases hlabel with hmem | hmem
  · -- The label stands before the jump, and the code between the two has not grown.
    obtain ⟨before', mid', rfl⟩ := List.append_of_mem hmem
    obtain ⟨start, mid, rfl, hstart, hmid⟩ := hfront.split_at hlabelFold
    obtain ⟨rfl, -⟩ := hf.eq_of_label hsplit
      (show f.body = start ++ .label label :: (mid ++ i :: (back ++ cut)) by simp [hbody])
    have hle := hmid.codeSize_le
    have hpast : 0 < codeSize (mid' ++ i :: back') := by
      rw [codeSize_append, codeSize_jump hi]
      omega
    rw [codeSize_append, codeSize_label] at hlow hhigh
    refine ⟨before', mid' ++ i :: back', by simp [hopt], hpast, ?_⟩
    rw [codeSize_append, codeSize_label]
    push_cast at hlow hhigh ⊢
    omega
  · -- The label stands behind the jump. What follows it is still code: the return, if it was cut.
    obtain ⟨mid', after', rfl⟩ := List.append_of_mem hmem
    obtain ⟨mid, rest, rfl, hmid, hrest⟩ := hback.split_at hlabelFold
    obtain ⟨rfl, rfl⟩ := hf.eq_of_label hsplit
      (show f.body = (front ++ i :: mid) ++ .label label :: (rest ++ cut) by simp [hbody])
    have hle := hmid.codeSize_le
    have hpast : 0 < codeSize after' := by
      rcases hcut with rfl | ⟨front₁, hret⟩
      · rw [List.append_nil] at hpos
        exact hrest.codeSize_pos hpos
      · rw [hopt, List.append_cons, ← List.append_assoc, ← List.append_cons] at hret
        exact codeSize_pos_of_ret hret
    rw [codeSize_append, codeSize_jump hi] at hlow hhigh
    refine ⟨front' ++ i :: mid', after', by simp [hopt], hpast, ?_⟩
    rw [codeSize_append, codeSize_jump hi]
    push_cast at hlow hhigh ⊢
    omega

end Optimized

/-! ### Failures for want of a label or of room -/

/-- A function that keeps the limits of emission, but for labels that it may lack. -/
structure EmittableButLabels (functions : List Text) (f : Function) : Prop where
  slots_le : f.params.length + f.locals.length ≤ 256
  body : ∀ i ∈ f.body, Emittable functions (f.vars.map Var.name) i
  labels_nodup : f.labels.Nodup
  jumps : ∀ front i back label, f.body = front ++ i :: back → i = .jump label ∨ i = .jumpIf label →
    Instr.label label ∈ f.body → InReach f.body front label

lemma emittableButLabels_optimize {functions : List Text} {f : Function}
    (hf : EmittableFunction functions f) : EmittableButLabels functions f.optimize.1 := by
  obtain ⟨kept, cut, hbody, hfolds, -⟩ := folds_optimize f
  refine ⟨hf.slots_le, ?_, ?_, fun front i back label => inReach_optimize hf⟩
  · intro i hi
    rcases hfolds.mem_or_const hi with hmem | ⟨v, rfl⟩
    · exact hf.body i (by simp [hbody, hmem])
    · trivial
  · have hnodup : (labelsOf f.body).Nodup := hf.labels_nodup
    rw [hbody, labelsOf_append, hfolds.labelsOf_eq] at hnodup
    exact hnodup.of_append_left

lemma Placed.error_of_place {s : Scope} {ps : List Piece} {used : List Value} {e : Emitter}
    {p : Piece} {x : Cause × Emitter} (h : Placed s ps e.pending e) (hc : Collected used e.pool)
    (hp : Resolves s p) (hfresh : ∀ name ∈ pieceLabels [p], name ∉ pieceLabels ps)
    (herror : e.place s p = .error x) : ∃ v, x.1 = .constantOverflow v := by
  -- Only a constant needs room. Any other piece that resolves is placed.
  have hroom : pieceConstants [p] = [] → False := by
    intro hnone
    obtain ⟨e', he'⟩ := (h.exists_place_iff hc).mpr
      ⟨hp, hfresh, by rw [hnone, List.append_nil]; exact hc.length_le⟩
    rw [he'] at herror
    cases herror
  cases p with
  | constant op v =>
    rw [Emitter.place, Emitter.placeConstant] at herror
    split at herror
    · cases herror
    · cases herror
      exact ⟨v, rfl⟩
  | _ => exact (hroom rfl).elim

lemma Placed.error_of_placePieces {s : Scope} {ps qs : List Piece} {used : List Value} {e : Emitter}
    {x : Cause × Emitter} (h : Placed s ps e.pending e) (hc : Collected used e.pool)
    (hfits : ∀ q ∈ qs, Fits q) (hvars : s.vars.length ≤ 256) (hfuns : s.functions.length ≤ 256)
    (hqs : ∀ q ∈ qs, Resolves s q) (hlabels : (pieceLabels (ps ++ qs)).Nodup)
    (herror : qs.foldlM (Emitter.place s) e = .error x) : ∃ v, x.1 = .constantOverflow v := by
  induction qs generalizing ps used e with
  | nil => cases herror
  | cons q qs ih =>
    have hsplit := hlabels
    rw [List.append_cons, pieceLabels_append] at hsplit
    have hone := hsplit.of_append_left
    have hfresh : ∀ name ∈ pieceLabels [q], name ∉ pieceLabels ps := by
      rw [pieceLabels_append] at hone
      exact fun name hname hmem => List.disjoint_of_nodup_append hone hmem hname
    rw [List.foldlM_cons] at herror
    rcases bind_eq_error_iff.mp herror with hq | ⟨e₁, he₁, hrest⟩
    · exact h.error_of_place hc (hqs q (by simp)) hfresh hq
    · have hplaced := (h.place (hfits q (by simp)) hvars hfuns he₁).1
      rw [List.append_cons] at hlabels
      exact ih hplaced (hc.place he₁) (fun r hr => hfits r (by simp [hr]))
        (fun r hr => hqs r (by simp [hr])) hlabels hrest

/-- Where every jump that has its label can be patched, patching stops at one without a label. -/
lemma error_of_patchAll {size : Nat} {e : Emitter} {jumps : List (Nat × Text)} {x : Cause × Emitter}
    (h : ∀ jump ∈ jumps, e.labels.lookup jump.2 ≠ none → Patchable size e jump)
    (herror : jumps.foldlM (Emitter.patch size) e = .error x) :
    ∃ jump ∈ jumps, e.labels.lookup jump.2 = none ∧ x.1 = .undefinedLabel jump.2 := by
  induction jumps generalizing e with
  | nil => cases herror
  | cons jump jumps ih =>
    rw [List.foldlM_cons] at herror
    rcases bind_eq_error_iff.mp herror with hjump | ⟨e₁, he₁, hrest⟩
    · have hnone : e.labels.lookup jump.2 = none := by
        by_contra hsome
        obtain ⟨e₁, he₁⟩ := (h jump (by simp) hsome).exists_patch
        rw [he₁] at hjump
        cases hjump
      refine ⟨jump, by simp, hnone, ?_⟩
      unfold Emitter.patch at hjump
      rw [hnone] at hjump
      cases hjump
      rfl
    · obtain ⟨-, hlabels, hsize⟩ := patch_keeps he₁
      have hlater : ∀ later ∈ jumps, e₁.labels.lookup later.2 ≠ none → Patchable size e₁ later := by
        intro later hmem hsome
        rw [hlabels] at hsome
        obtain ⟨target, htarget⟩ := h later (by simp [hmem]) hsome
        exact ⟨target, by rwa [hlabels, hsize]⟩
      obtain ⟨later, hmem, hnone, hx⟩ := ih hlater hrest
      exact ⟨later, by simp [hmem], by rwa [hlabels] at hnone, hx⟩

/-- Such a function fails for want of room or of a label. -/
lemma EmittableButLabels.error_of_emitBody {f : Function} {used : List Value} {e : Emitter}
    {x : Cause × Emitter} (hf : EmittableButLabels e.scope.functions f)
    (hfuns : e.scope.functions.length ≤ 256) (hc : Collected used e.pool)
    (herror : e.emitBody f = .error x) :
    ((∃ v, x.1 = .constantOverflow v) ∧
      Pool.capacity < (used ++ references f.body).eraseDups.length) ∨
    ∃ label, x.1 = .undefinedLabel label ∧ LacksLabel f label := by
  have hvars : (scopeOf e.scope.functions f).vars.length ≤ 256 := by
    simpa [scopeOf, Function.vars] using hf.slots_le
  have hresolves := (body_emittable_iff (s := scopeOf e.scope.functions f)).mp hf.body
  have hempty := placed_opened f hc.valid
  have hfits : ∀ q ∈ bodyPieces f.body, Fits q := fun q hq => fits_of_mem_bodyPieces hq
  unfold Emitter.emitBody at herror
  simp only [if_neg (not_lt.mpr hf.slots_le)] at herror
  rw [placeAll_eq] at herror
  rcases bind_eq_error_iff.mp herror with hplace | ⟨e₁, he₁, hpatch⟩
  · left
    constructor
    · refine Placed.error_of_placePieces (e := opened e f) hempty hc hfits hvars hfuns
        hresolves ?_ hplace
      rw [List.nil_append, pieceLabels_bodyPieces]
      exact hf.labels_nodup
    · by_contra hroom
      obtain ⟨e₁, he₁⟩ := (exists_placeBody_iff hc hvars hfuns).mpr
        ⟨hf.body, hf.labels_nodup, not_lt.mp hroom⟩
      have hboth := hplace.symm.trans he₁
      cases hboth
  · right
    have hplaced : Placed (scopeOf e.scope.functions f) (bodyPieces f.body) e₁.pending e₁ :=
      (hempty.placePieces hfits hvars hfuns he₁).1
    have hstands : ∀ name, e₁.labels.lookup name ≠ none ↔ Instr.label name ∈ f.body := by
      intro name
      rw [ne_eq, hplaced.lookup_eq_none_iff, not_not, pieceLabels_bodyPieces, mem_labelsOf]
    have hpatchable : ∀ jump ∈ e₁.pending.reverse, e₁.labels.lookup jump.2 ≠ none →
        Patchable e₁.code.size e₁ jump := by
      intro jump hmem hsome
      apply hplaced.patchable (lowerable_of_resolves hresolves) (List.mem_reverse.mp hmem)
      exact fun front i back hbody hi => hf.jumps front i back _ hbody hi ((hstands _).mp hsome)
    obtain ⟨jump, hmem, hnone, hx⟩ := error_of_patchAll hpatchable hpatch
    obtain ⟨front, i, back, hbody, hi, -⟩ := hplaced.split_at_waiting (List.mem_reverse.mp hmem)
    refine ⟨jump.2, hx, ?_, fun hlabel => (hstands jump.2).mpr hlabel hnone⟩
    rw [hbody]
    rcases hi with rfl | rfl
    · simp
    · simp

lemma error_of_emitFunctions {done : List Routine} {used : List Value} {e : Emitter}
    {fs : List Function} {x : Emit.Error × Emitter} (hfuns : e.scope.functions.length ≤ 256)
    (hc : Collected used e.pool) (hfs : ∀ f ∈ fs, EmittableButLabels e.scope.functions f)
    (herror : e.emitFunctions done fs = .error x) :
    ((∃ v, x.1.cause = .constantOverflow v) ∧
      Pool.capacity < (used ++ fs.flatMap fun f => references f.body).eraseDups.length) ∨
    ∃ f ∈ fs, ∃ label, x.1 = ⟨f.name, .undefinedLabel label⟩ ∧ LacksLabel f label := by
  induction fs generalizing used done e with
  | nil => cases herror
  | cons f fs ih =>
    rw [List.flatMap_cons, ← List.append_assoc]
    rw [Emitter.emitFunctions] at herror
    rcases bind_eq_error_iff.mp herror with hf | ⟨⟨r, e₁⟩, he₁, hrest⟩
    · unfold Emitter.emitFunction at hf
      cases hbody : e.emitBody f with
      | ok e₁ => simp [hbody] at hf
      | error y =>
        have hname := (emitBody_leaves e f).1
        rw [hbody, emitterLeft] at hname
        simp only [hbody, Except.error.injEq] at hf
        subst hf
        rcases (hfs f (by simp)).error_of_emitBody hfuns hc hbody with
          ⟨hcause, hroom⟩ | ⟨label, hcause, hlacks⟩
        · exact .inl ⟨hcause, lt_of_lt_of_le hroom (length_eraseDups_append_le _ _)⟩
        · exact .inr ⟨f, by simp, label, by rw [hcause, hname], hlacks⟩
    · rw [← emitFunction_keeps he₁] at hfs
      rcases ih (emitFunction_keeps he₁ ▸ hfuns) (hc.emitFunction hfuns he₁).1
          (fun g hg => hfs g (by simp [hg])) hrest with
        hroom | ⟨g, hg, label, hx, hlacks⟩
      · exact .inl hroom
      · exact .inr ⟨g, by simp [hg], label, hx, hlacks⟩

/-! ### Optimized modules -/

lemma names_optimize (fs : List Function) :
    (fs.map fun f => f.optimize.1).map Function.name = fs.map Function.name := by
  rw [List.map_map]
  rfl

lemma registered_optimize {m : Module} {fs : List Function} (h : Emitter.registered m = .ok fs) :
    Emitter.registered m.optimize.1 = .ok (fs.map fun f => f.optimize.1) := by
  obtain ⟨hslots, hcount, hnodup, hexports⟩ := registered_eq_ok_iff.mp h
  have hnames := names_optimize fs
  refine registered_eq_ok_iff.mpr ⟨?_, by rwa [List.length_map], by rwa [hnames], ?_⟩
  · rw [functions_optimize, hslots, List.map_map, List.map_map]
    rfl
  · rw [hnames]
    exact hexports

lemma error_of_emit {m : Module} {fs : List Function} {e : Emit.Error}
    (hreg : Emitter.registered m = .ok fs) (h : m.emit = .error e) :
    ∃ x, (emitterOf fs).emitFunctions [] fs = .error x ∧ x.1 = e := by
  unfold Module.emit Emitter.emit at h
  dsimp only at h
  rw [hreg] at h
  dsimp only at h
  cases hfs : (emitterOf fs).emitFunctions [] fs with
  | ok result => simp [hfs] at h
  | error x =>
    simp only [hfs, Except.error.injEq] at h
    exact ⟨x, rfl, h⟩

/-- Only these errors come from the optimized form of a module that can be emitted. -/
lemma error_of_emit_optimize {m : Module} {e : Emit.Error} (hm : EmittableModule m)
    (h : m.optimize.1.emit = .error e) :
    (∃ f label, some f ∈ m.functions ∧ JumpsPastReturn f label ∧
      e = ⟨f.name, .undefinedLabel label⟩) ∨
    (65536 < (moduleReferences m.optimize.1).eraseDups.length ∧
      ∃ v, e.cause = .constantOverflow v) := by
  obtain ⟨fs, hreg, hfs, -⟩ := emittableModule_iff.mp hm
  obtain ⟨hslots, hcount, -⟩ := registered_eq_ok_iff.mp hreg
  have hregOptimize := registered_optimize hreg
  obtain ⟨x, hx, rfl⟩ := error_of_emit hregOptimize h
  have hnames := names_optimize fs
  have hoptimized : ∀ g ∈ fs.map fun f => f.optimize.1,
      EmittableButLabels ((fs.map fun f => f.optimize.1).map Function.name) g := by
    intro g hg
    obtain ⟨f, hf, rfl⟩ := List.mem_map.mp hg
    rw [hnames]
    exact emittableButLabels_optimize (hfs f hf)
  rcases error_of_emitFunctions (by simpa using hcount) collected_empty hoptimized hx with
    ⟨hcause, hroom⟩ | ⟨g, hg, label, hx, hlacks⟩
  · right
    refine ⟨?_, hcause⟩
    have hmap : (List.map some (fs.map fun f => f.optimize.1)).filterMap id =
        fs.map fun f => f.optimize.1 := by simp
    rw [moduleReferences, (registered_eq_ok_iff.mp hregOptimize).1, hmap]
    exact hroom
  · left
    obtain ⟨f, hf, rfl⟩ := List.mem_map.mp hg
    refine ⟨f, label, ?_, (lacksLabel_optimize_iff (hfs f hf)).mp hlacks, hx⟩
    rw [hslots]
    exact List.mem_map_of_mem hf

/-- A module that compiles as it is fails to compile optimized exactly if a jump leads past the
first return of its function, or if folding makes too many constants. The error then names such a
jump's label, or a constant without room. -/
theorem optimized_build_fails_iff {m : Module} {p : Program}
    (h : (m.compile false).result = .ok p) :
    ((∃ e, (m.compile true).result = .error e) ↔
      (∃ f label, some f ∈ m.functions ∧ JumpsPastReturn f label) ∨
        65536 < (moduleReferences m.optimize.1).eraseDups.length) ∧
    ∀ e, (m.compile true).result = .error e →
      (∃ f label, some f ∈ m.functions ∧ JumpsPastReturn f label ∧
        e = .emit ⟨f.name, .undefinedLabel label⟩) ∨
      (65536 < (moduleReferences m.optimize.1).eraseDups.length ∧
        ∃ function v, e = .emit ⟨function, .constantOverflow v⟩) := by
  obtain ⟨hproblems, hemit⟩ := compile_eq_ok h
  have hm : EmittableModule m := exists_emit_iff.mp ⟨p, hemit⟩
  have herrors : ∀ e, (m.compile true).result = .error e →
      (∃ f label, some f ∈ m.functions ∧ JumpsPastReturn f label ∧
        e = .emit ⟨f.name, .undefinedLabel label⟩) ∨
      (65536 < (moduleReferences m.optimize.1).eraseDups.length ∧
        ∃ function v, e = .emit ⟨function, .constantOverflow v⟩) := by
    intro e he
    rw [compile_of_problems hproblems] at he
    cases hresult : m.optimize.1.emit with
    | ok q => simp [hresult, Except.mapError] at he
    | error x =>
      have hx : Compile.Error.emit x = e := by simpa [hresult, Except.mapError] using he
      subst hx
      rcases error_of_emit_optimize hm hresult with ⟨f, label, hf, hjump, rfl⟩ | ⟨hroom, v, hcause⟩
      · exact .inl ⟨f, label, hf, hjump, rfl⟩
      · exact .inr ⟨hroom, x.function, v, by rw [← hcause]⟩
  refine ⟨⟨?_, ?_⟩, herrors⟩
  · rintro ⟨e, he⟩
    rcases herrors e he with ⟨f, label, hf, hjump, -⟩ | ⟨hroom, -⟩
    · exact .inl ⟨f, label, hf, hjump⟩
    · exact .inr hroom
  · intro hbroken
    cases hresult : (m.compile true).result with
    | error e => exact ⟨e, rfl⟩
    | ok q =>
      -- A program would keep the limits, labels and room included.
      exfalso
      have hoptimized := exists_emit_iff.mp ⟨q, (compile_eq_ok hresult).2⟩
      rw [if_pos rfl] at hoptimized
      rcases hbroken with ⟨f, label, hf, hjump⟩ | hroom
      · have hmem : some f.optimize.1 ∈ m.optimize.1.functions := by
          rw [functions_optimize]
          exact List.mem_map_of_mem hf
        obtain ⟨hjumps, hmissing⟩ := (lacksLabel_optimize_iff (hm.function f hf)).mpr hjump
        exact hmissing ((hoptimized.function _ hmem).label_mem hjumps)
      · exact absurd hoptimized.constants_le (not_le.mpr hroom)

/-- A choice whose second branch stands behind the first return. -/
def choosing : Module where
  name := "choice"
  functions :=
    [some
      { name := "f"
        body := [.const (.bool true), .jumpIf "skip", .const (.int 1), .const (.int 2),
          .binary .add, .ret, .label "skip", .const (.int 4), .ret] }]

def choosingProgram : Program where
  functions :=
    [{ name := "f"
       code := some #[16, 0, 0, 129, 0, 8, 16, 0, 1, 16, 0, 2, 80, 240, 16, 0, 3, 240] }]
  constants := [.bool true, .int 1, .int 2, .int 4]

theorem choosing_breaks :
    (choosing.compile false).result = .ok choosingProgram ∧
      (choosing.compile true).result = .error (.emit ⟨"f", .undefinedLabel "skip"⟩) ∧
      ∃ f, some f ∈ choosing.functions ∧ JumpsPastReturn f "skip" := by
  have hplain : (choosing.compile false).result = .ok choosingProgram := by cbv
  have hbroken : (choosing.compile true).result = .error (.emit ⟨"f", .undefinedLabel "skip"⟩) := by
    cbv
  refine ⟨hplain, hbroken, ?_⟩
  rcases (optimized_build_fails_iff hplain).2 _ hbroken with
    ⟨f, label, hf, hjump, he⟩ | ⟨-, function, v, he⟩
  · injection he with he
    injection he with hname hcause
    injection hcause with hlabel
    exact ⟨f, hf, hlabel ▸ hjump⟩
  · cases he

end StackCode.Proofs
