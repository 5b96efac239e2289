import StackCode.Proofs.CanonicalForm

/-!
# Names that the canonical form forgets

Functions can be renamed apart: their variables and their labels get other names, one to one, and
types change at will. The canonical form stays as it is, in modules that are valid and in others. It
forgets nothing else: of modules that compile, those with one form are renamed from each other.
-/

namespace StackCode.Proofs

open Canonical

/-! ### Renamed functions -/

def varNames : Instr → List Text
  | .load name | .store name | .declare name _ => [name]
  | .assign name inner => name :: varNames inner
  | _ => []

def labelNames : Instr → List Text
  | .jump name | .jumpIf name | .label name => [name]
  | .assign _ inner => labelNames inner
  | _ => []

/-- The second function is the first one with other names for its variables and labels and with any
types. Both maps keep different names apart, and no variable takes a name that the body uses for
something undeclared. -/
structure Renamed (var label : Text → Text) (f g : Function) : Prop where
  name : g.name = f.name
  params : g.params.map Var.name = (f.params.map Var.name).map var
  locals : g.locals.map Var.name = (f.locals.map Var.name).map var
  body : List.Forall₂ (Alike ⟨fun a b => b = if a ∈ f.vars.map Var.name then var a else a,
    fun a b => b = label a⟩) f.body g.body
  var_inj : Set.InjOn var {a | a ∈ f.vars.map Var.name}
  uncaptured : ∀ a ∈ f.body.flatMap varNames, a ∉ f.vars.map Var.name → a ∉ g.vars.map Var.name
  label_inj : Set.InjOn label {a | a ∈ f.body.flatMap labelNames}

/-- The second module is the first one under any name, with each function renamed on its own. -/
structure RenamedModule (m m' : Module) : Prop where
  functions : List.Forall₂ (Option.Rel fun f g => ∃ var label, Renamed var label f g)
    m.functions m'.functions
  exports : m'.exports = m.exports

/-! ### Names that correspond -/

/-- Only the names that occur have to correspond. -/
lemma Alike.restrict {n : Naming} {i j : Instr} (h : Alike n i j) :
    Alike ⟨fun a b => a ∈ varNames i ∧ n.var a b,
      fun a b => a ∈ labelNames i ∧ n.label a b⟩ i j := by
  induction h with
  | load h => exact .load ⟨by simp [varNames], h⟩
  | store h => exact .store ⟨by simp [varNames], h⟩
  | assign h _ ih =>
    apply Alike.assign
    · exact ⟨by simp [varNames], h⟩
    · apply ih.mono
      · exact fun a b hab => ⟨List.mem_cons_of_mem _ hab.1, hab.2⟩
      · exact fun a b hab => hab
  | declare h t u =>
    apply Alike.declare
    exact ⟨by simp [varNames], h⟩
  | jump h => exact .jump ⟨by simp [labelNames], h⟩
  | jumpIf h => exact .jumpIf ⟨by simp [labelNames], h⟩
  | label h => exact .label ⟨by simp [labelNames], h⟩
  | missing => exact .missing
  | const v => exact .const v
  | binary op => exact .binary op
  | unary op => exact .unary op
  | call function h => exact .call function h
  | ret => exact .ret
  | newArray t u h => exact .newArray t u h
  | arrayLoad => exact .arrayLoad
  | arrayStore => exact .arrayStore
  | newObject className => exact .newObject className
  | getProp name => exact .getProp name
  | setProp name => exact .setProp name

lemma restrict_body {n : Naming} {is js : List Instr} (h : List.Forall₂ (Alike n) is js) :
    List.Forall₂ (Alike ⟨fun a b => a ∈ is.flatMap varNames ∧ n.var a b,
      fun a b => a ∈ is.flatMap labelNames ∧ n.label a b⟩) is js := by
  induction h with
  | nil => exact .nil
  | cons hij _ ih =>
    constructor
    · apply hij.restrict.mono
      · exact fun a b hab => ⟨by simp [hab.1], hab.2⟩
      · exact fun a b hab => ⟨by simp [hab.1], hab.2⟩
    · apply ih.imp
      intro i j h
      apply h.mono
      · exact fun a b hab => ⟨List.mem_append_right _ hab.1, hab.2⟩
      · exact fun a b hab => ⟨List.mem_append_right _ hab.1, hab.2⟩

/-- Names that correspond one to one are found at the same place. -/
lemma idxOf?_eq_of_biUnique {R : Text → Text → Prop} (hR : Relator.BiUnique R) {as bs : List Text}
    (h : List.Forall₂ R as bs) {a b : Text} (hab : R a b) : as.idxOf? a = bs.idxOf? b := by
  induction h with
  | nil => rfl
  | @cons c d as bs hcd _ ih =>
    have hfirst : c = a ↔ d = b :=
      ⟨fun hca => hR.2 (hca ▸ hcd) hab, fun hdb => hR.1 (hdb ▸ hcd) hab⟩
    rw [List.idxOf?_cons, List.idxOf?_cons, ih]
    simp only [beq_iff_eq, hfirst]

lemma slot_eq_of_sameSlot {vs ws : List Text} {a b : Text} (h : SameSlot vs ws a b) :
    slot vs a = slot ws b := by
  obtain ⟨hindex, hname⟩ := h
  unfold slot
  rw [← hindex]
  cases hi : vs.idxOf? a with
  | none => rw [hname hi]
  | some i => rfl

/-! ### The form of a body -/

section Body

variable {n : Naming} {vs ws : List Text} (hvar : ∀ a b, n.var a b → SameSlot vs ws a b)
  (hlabel : Relator.BiUnique n.label)

include hlabel in
lemma label_alike {ks ls : List Text} (h : List.Forall₂ n.label ks ls) {a b : Text}
    (hab : n.label a b) :
    (label ks a).1 = (label ls b).1 ∧ List.Forall₂ n.label (label ks a).2 (label ls b).2 := by
  unfold label
  rw [← idxOf?_eq_of_biUnique hlabel h hab, ← h.length_eq]
  cases ks.idxOf? a with
  | none => exact ⟨rfl, .cons hab h⟩
  | some i => exact ⟨rfl, h⟩

include hvar hlabel in
/-- The tables of labels correspond after an instruction if they did before it. -/
lemma instr_alike {i j : Instr} (hij : Alike n i j) {ks ls : List Text}
    (h : List.Forall₂ n.label ks ls) :
    (instr vs ks i).1 = (instr ws ls j).1 ∧
      List.Forall₂ n.label (instr vs ks i).2 (instr ws ls j).2 := by
  have numbered : ∀ (mark : UInt8) {a b : Text}, n.label a b →
      mark :: long (label ks a).1 = mark :: long (label ls b).1 ∧
        List.Forall₂ n.label (label ks a).2 (label ls b).2 := by
    intro mark a b hab
    obtain ⟨hnumber, htables⟩ := label_alike hlabel h hab
    exact ⟨by rw [hnumber], htables⟩
  induction hij with
  | load hab => exact ⟨by simp only [instr, slot_eq_of_sameSlot (hvar _ _ hab)], h⟩
  | store hab => exact ⟨by simp only [instr, slot_eq_of_sameSlot (hvar _ _ hab)], h⟩
  | assign hab _ ih =>
    exact ⟨by simp only [instr, slot_eq_of_sameSlot (hvar _ _ hab), ih.1], ih.2⟩
  | declare hab t u => exact ⟨by simp only [instr, slot_eq_of_sameSlot (hvar _ _ hab)], h⟩
  | call function hxy => exact ⟨by simp only [instr, integer, hxy], h⟩
  | newArray t u hxy => exact ⟨by simp only [instr, integer, hxy], h⟩
  | jump hab => exact numbered 0x30 hab
  | jumpIf hab => exact numbered 0x31 hab
  | label hab => exact numbered 0x32 hab
  | _ => exact ⟨rfl, h⟩

include hvar hlabel in
lemma bodyForm_alike {is js : List Instr} (hbody : List.Forall₂ (Alike n) is js)
    {ks ls : List Text} (h : List.Forall₂ n.label ks ls) :
    bodyForm vs ks is = bodyForm ws ls js := by
  induction hbody generalizing ks ls with
  | nil => rfl
  | cons hij _ ih =>
    obtain ⟨hform, htables⟩ := instr_alike hvar hlabel hij h
    rw [bodyForm, bodyForm, hform, ih htables]

end Body

/-! ### Renaming keeps the form -/

lemma Renamed.vars {var label : Text → Text} {f g : Function} (h : Renamed var label f g) :
    g.vars.map Var.name = (f.vars.map Var.name).map var := by
  rw [Function.vars, Function.vars, List.map_append, List.map_append, List.map_append, h.params,
    h.locals]

lemma Renamed.sameSlot {var label : Text → Text} {f g : Function} (h : Renamed var label f g)
    {a b : Text} (ha : a ∈ f.body.flatMap varNames)
    (hb : b = if a ∈ f.vars.map Var.name then var a else a) :
    SameSlot (f.vars.map Var.name) (g.vars.map Var.name) a b := by
  by_cases hdeclared : a ∈ f.vars.map Var.name
  · rw [if_pos hdeclared] at hb
    have hunique : Relator.BiUnique fun c d => c ∈ f.vars.map Var.name ∧ d = var c := by
      constructor
      · rintro c c' d ⟨hc, rfl⟩ ⟨hc', heq⟩
        exact h.var_inj hc hc' heq
      · rintro c d d' ⟨-, rfl⟩ ⟨-, rfl⟩
        rfl
    have hvars : List.Forall₂ (fun c d => c ∈ f.vars.map Var.name ∧ d = var c)
        (f.vars.map Var.name) (g.vars.map Var.name) := by
      rw [h.vars, List.forall₂_map_right_iff]
      exact List.forall₂_same.mpr fun c hc => ⟨hc, rfl⟩
    refine ⟨idxOf?_eq_of_biUnique hunique hvars ⟨hdeclared, hb⟩, ?_⟩
    intro hnone
    exact absurd hdeclared (List.idxOf?_eq_none_iff.mp hnone)
  · rw [if_neg hdeclared] at hb
    subst hb
    refine ⟨?_, fun _ => rfl⟩
    rw [List.idxOf?_eq_none_iff.mpr hdeclared,
      List.idxOf?_eq_none_iff.mpr (h.uncaptured b ha hdeclared)]

lemma function_of_renamed {var label : Text → Text} {f g : Function} (h : Renamed var label f g) :
    function (some g) = function (some f) := by
  have hlabel : Relator.BiUnique fun a b => a ∈ f.body.flatMap labelNames ∧ b = label a := by
    constructor
    · rintro a a' b ⟨ha, rfl⟩ ⟨ha', heq⟩
      exact h.label_inj ha ha' heq
    · rintro a b b' ⟨-, rfl⟩ ⟨-, rfl⟩
      rfl
  have hparams : g.params.length = f.params.length := by
    simpa using congrArg List.length h.params
  have hlocals : g.locals.length = f.locals.length := by
    simpa using congrArg List.length h.locals
  simp only [function, flatten_body, h.name, hparams, hlocals, ← h.body.length_eq]
  rw [bodyForm_alike (n := ⟨_, _⟩) (fun a b hab => h.sameSlot hab.1 hab.2) hlabel
    (restrict_body h.body) .nil]

lemma forms_of_renamed {slots slots' : List (Option Function)}
    (h : List.Forall₂ (Option.Rel fun f g => ∃ var label, Renamed var label f g) slots slots') :
    slots'.map function = slots.map function := by
  induction h with
  | nil => rfl
  | cons hslot _ ih =>
    rw [List.map_cons, List.map_cons, ih]
    cases hslot with
    | none => rfl
    | some hfg =>
      obtain ⟨var, label, hfg⟩ := hfg
      rw [function_of_renamed hfg]

/-! ### The form determines all but the names -/

/-- The name at the place in `ys` that a name has in `xs`. -/
def transfer (xs ys : List Text) (a : Text) : Text := ys.getD (xs.idxOf a) a

lemma transfer_eq {xs ys : List Text} (hxs : xs.Nodup) {i : Nat} {a b : Text}
    (ha : xs[i]? = some a) (hb : ys[i]? = some b) : transfer xs ys a = b := by
  obtain ⟨hlt, rfl⟩ := List.getElem?_eq_some_iff.mp ha
  rw [transfer, List.Nodup.idxOf_getElem hxs, List.getD_eq_getElem?_getD, hb, Option.getD_some]

lemma map_transfer {xs ys : List Text} (hxs : xs.Nodup) (hlength : xs.length = ys.length) :
    xs.map (transfer xs ys) = ys := by
  apply List.ext_getElem
  · rw [List.length_map, hlength]
  · intro i hi hi'
    rw [List.getElem_map]
    rw [List.length_map] at hi
    exact transfer_eq hxs (List.getElem?_eq_getElem hi) (List.getElem?_eq_getElem hi')

lemma transfer_injOn {xs ys : List Text} (hxs : xs.Nodup) (hys : ys.Nodup)
    (hlength : xs.length = ys.length) : Set.InjOn (transfer xs ys) {a | a ∈ xs} := by
  intro a ha b hb hab
  apply List.inj_on_of_nodup_map ?_ ha hb hab
  rw [map_transfer hxs hlength]
  exact hys

/-- The name in a slot follows from the slot. -/
lemma eq_transfer_of_sameSlot {vs ws : List Text} (hvs : vs.Nodup) {a b : Text}
    (h : SameSlot vs ws a b) : b = if a ∈ vs then transfer vs ws a else a := by
  obtain ⟨hindex, hname⟩ := h
  cases hi : vs.idxOf? a with
  | none => rw [if_neg (List.idxOf?_eq_none_iff.mp hi), hname hi]
  | some k =>
    rw [hi] at hindex
    obtain ⟨hk, hka, -⟩ := List.idxOf?_eq_some_iff.mp hi
    obtain ⟨hk', hkb, -⟩ := List.idxOf?_eq_some_iff.mp hindex.symm
    rw [if_pos (hka ▸ List.getElem_mem hk)]
    exact (transfer_eq hvs (List.getElem?_eq_some_iff.mpr ⟨hk, hka⟩)
      (List.getElem?_eq_some_iff.mpr ⟨hk', hkb⟩)).symm

lemma Alike.exists_var {n : Naming} {i j : Instr} (h : Alike n i j) {a : Text}
    (ha : a ∈ varNames i) : ∃ b, n.var a b := by
  induction h with
  | assign h _ ih =>
    rcases List.mem_cons.mp ha with rfl | ha
    · exact ⟨_, h⟩
    · exact ih ha
  | load h => exact ⟨_, List.mem_singleton.mp ha ▸ h⟩
  | store h => exact ⟨_, List.mem_singleton.mp ha ▸ h⟩
  | declare h t u => exact ⟨_, List.mem_singleton.mp ha ▸ h⟩
  | _ => cases ha

lemma Alike.exists_label {n : Naming} {i j : Instr} (h : Alike n i j) {a : Text}
    (ha : a ∈ labelNames i) : ∃ b, n.label a b := by
  induction h with
  | assign _ _ ih => exact ih ha
  | jump h => exact ⟨_, List.mem_singleton.mp ha ▸ h⟩
  | jumpIf h => exact ⟨_, List.mem_singleton.mp ha ▸ h⟩
  | label h => exact ⟨_, List.mem_singleton.mp ha ▸ h⟩
  | _ => cases ha

lemma exists_alike_of_mem {n : Naming} {is js : List Instr} (h : List.Forall₂ (Alike n) is js)
    {names : Instr → List Text} {a : Text} (ha : a ∈ is.flatMap names) :
    ∃ i j, a ∈ names i ∧ Alike n i j := by
  obtain ⟨i, hi, hai⟩ := List.mem_flatMap.mp ha
  obtain ⟨j, -, hij⟩ := exists_of_forall₂ h.flip hi
  exact ⟨i, j, hai, hij⟩

/-- Functions with one form are renamed from each other: variables by their slots, labels by their
numbers. -/
lemma renamed_of_sameForm {f g : Function} (h : SameForm f g) (hf : (f.vars.map Var.name).Nodup)
    (hg : (g.vars.map Var.name).Nodup) : ∃ var label, Renamed var label f g := by
  obtain ⟨ks, ls, htables, hbody⟩ := h.body
  have hlength : (f.vars.map Var.name).length = (g.vars.map Var.name).length := by
    simp [Function.vars, h.params, h.locals]
  have hmap := map_transfer hf hlength
  generalize hvar : transfer (f.vars.map Var.name) (g.vars.map Var.name) = var at hmap
  simp only [Function.vars, List.map_append] at hmap
  obtain ⟨hparams, hlocals⟩ := List.append_inj hmap (by simp [h.params])
  refine ⟨var, transfer ks ls, h.name.symm, hparams.symm, hlocals.symm, ?_, ?_, ?_, ?_⟩
  · apply hbody.imp
    intro i j hij
    apply hij.mono
    · intro a b hab
      rw [← hvar]
      exact eq_transfer_of_sameSlot hf hab
    · rintro a b ⟨i, ha, hb⟩
      exact (transfer_eq htables.nodup_left ha hb).symm
  · rw [← hvar]
    exact transfer_injOn hf hg hlength
  · intro a ha hundeclared
    obtain ⟨i, j, hai, hij⟩ := exists_alike_of_mem hbody ha
    obtain ⟨b, hindex, hname⟩ := hij.exists_var hai
    have hnone := List.idxOf?_eq_none_iff.mpr hundeclared
    rw [hname hnone]
    rw [hnone] at hindex
    exact List.idxOf?_eq_none_iff.mp hindex.symm
  · apply (transfer_injOn htables.nodup_left htables.nodup_right htables.length_eq).mono
    intro a ha
    obtain ⟨i, j, hai, hij⟩ := exists_alike_of_mem hbody ha
    obtain ⟨b, k, hk, -⟩ := hij.exists_label hai
    exact List.mem_of_getElem? hk

lemma renamed_of_sameForms {fs gs : List Function} (h : List.Forall₂ SameForm fs gs)
    (hfs : ∀ f ∈ fs, (f.vars.map Var.name).Nodup) (hgs : ∀ g ∈ gs, (g.vars.map Var.name).Nodup) :
    List.Forall₂ (Option.Rel fun f g => ∃ var label, Renamed var label f g) (fs.map some)
      (gs.map some) := by
  induction h with
  | nil => exact .nil
  | @cons f g fs gs hfg _ ih =>
    apply List.Forall₂.cons
    · exact .some (renamed_of_sameForm hfg (hfs f (by simp)) (hgs g (by simp)))
    · exact ih (fun f hf => hfs f (by simp [hf])) fun g hg => hgs g (by simp [hg])

/-- The canonical form of any module stays the same when its name and all types change and each
function gets other names for its variables and its labels. Nothing else is forgotten: modules that
compile and have one form are renamed from each other. -/
theorem canonical_forgets_names {m m' : Module} :
    (RenamedModule m m' → m'.canonical = m.canonical) ∧
      ∀ {optimize : Bool} {p p' : Program}, ShortModule m → ShortModule m' →
        (m.compile optimize).result = .ok p → (m'.compile optimize).result = .ok p' →
        m'.canonical = m.canonical → RenamedModule m m' := by
  constructor
  · intro h
    unfold Module.canonical
    rw [forms_of_renamed h.functions, h.exports, h.functions.length_eq]
  · intro optimize p p' hm hm' hp hp' h
    have hfaithful := formFaithful_of_compile hp
    have hfaithful' := formFaithful_of_compile hp'
    obtain ⟨fs, gs, hfs, hgs, hforms, hexports⟩ := forms_of_compile hm hm' hp hfaithful' h.symm
    refine ⟨?_, hexports.symm⟩
    rw [hfs, hgs]
    -- slots tell names apart because no name is declared twice in a module that compiles
    apply renamed_of_sameForms hforms
    · exact fun f hf => hfaithful.vars_nodup f (hfs ▸ List.mem_map_of_mem hf)
    · exact fun g hg => hfaithful'.vars_nodup g (hgs ▸ List.mem_map_of_mem hg)

/-- A variable declared twice, one that is not declared, a nested assignment, a label set twice and
an empty slot: far from valid. -/
def tangled (x y out back type : Text) : Module where
  name := type
  functions := [
    none,
    some {
      name := "f"
      params := [⟨x, type⟩, ⟨x, []⟩]
      locals := [⟨y, type⟩]
      body := [
        .jumpIf out, .label back, .assign y (.assign x (.load "gone")), .declare x type,
        .label out, .newArray type 2, .jump back, .label out] }]

def swapped (a b c : Text) : Text := if c = a then b else if c = b then a else c

lemma renamedModule_tangled :
    RenamedModule (tangled "x" "y" "out" "back" "int") (tangled "y" "x" "back" "out" []) := by
  have hvar : ∀ a ∈ (["x", "x", "y"] : List Text), ∀ b ∈ (["x", "x", "y"] : List Text),
      swapped "x" "y" a = swapped "x" "y" b → a = b := by decide
  have hlabel : ∀ a ∈ (["out", "back", "out", "back", "out"] : List Text),
      ∀ b ∈ (["out", "back", "out", "back", "out"] : List Text),
        swapped "out" "back" a = swapped "out" "back" b → a = b := by decide
  refine ⟨.cons .none (.cons (.some ⟨swapped "x" "y", swapped "out" "back", rfl, by decide,
    by decide, ?_, fun a ha b hb => hvar a ha b hb, by decide, fun a ha b hb => hlabel a ha b hb⟩)
    .nil), rfl⟩
  exact .cons (.jumpIf (by decide)) <| .cons (.label (by decide)) <|
    .cons (.assign (by decide) (.assign (by decide) (.load (by decide)))) <|
    .cons (.declare (by decide) _ _) <| .cons (.label (by decide)) <| .cons (.newArray _ _ rfl) <|
    .cons (.jump (by decide)) <| .cons (.label (by decide)) .nil

theorem tangled_looping_forgotten :
    RenamedModule (tangled "x" "y" "out" "back" "int") (tangled "y" "x" "back" "out" []) ∧
      (tangled "y" "x" "back" "out" []).canonical =
        (tangled "x" "y" "out" "back" "int").canonical ∧
      (looping "last" "x").canonical = (looping "x" "top").canonical ∧
      RenamedModule (looping "x" "top") (looping "last" "x") := by
  have hx : Short ("x" : Text) := by unfold Short; decide
  have hlast : Short ("last" : Text) := by unfold Short; decide
  have hp : ((looping "x" "top").compile true).result = .ok loopingProgram := by cbv
  have hp' : ((looping "last" "x").compile true).result = .ok loopingProgram := by cbv
  have hform : (looping "last" "x").canonical = (looping "x" "top").canonical := by cbv
  exact ⟨renamedModule_tangled, canonical_forgets_names.1 renamedModule_tangled, hform,
    canonical_forgets_names.2 (shortModule_looping hx "top") (shortModule_looping hlast "x") hp hp'
      hform⟩

end StackCode.Proofs
