import Mathlib
import StackCode.Compile

/-!
# Valid modules

The check of a module finds nothing exactly if names are used once, no place is empty and the
exports are functions of the module. A compilation that succeeds has passed the check.
-/

namespace StackCode.Proofs

open StackCode.Module

/-- An instruction that is there, and has a value if it assigns one. -/
def Filled (i : Instr) : Prop := i ≠ .missing ∧ ∀ name, i ≠ .assign name .missing

/-- A function with different names for its variables and for its labels, and without empty
places. -/
structure ValidFunction (f : Function) : Prop where
  vars_nodup : (f.vars.map Var.name).Nodup
  labels_nodup : f.labels.Nodup
  filled : ∀ i ∈ f.body, Filled i

/-- The names of the functions in some slots. -/
def slotNames (slots : List (Option Function)) : List Text :=
  (slots.filterMap id).map Function.name

lemma slotNames_map_some (fs : List Function) :
    slotNames (fs.map some) = fs.map Function.name := by
  simp [slotNames]

/-- A module that the check finds nothing wrong with. -/
structure Valid (m : Module) : Prop where
  filled : none ∉ m.functions
  names_nodup : (slotNames m.functions).Nodup
  function : ∀ f, some f ∈ m.functions → ValidFunction f
  exports : ∀ name ∈ m.exports, name ∈ slotNames m.functions

/-! ### One function -/

lemma repeated_eq_nil_iff {names : List Text} : repeated names = [] ↔ names.Nodup := by
  unfold repeated
  rw [List.reverse_eq_nil_iff]
  -- The names seen before grow along the fold, so the induction is over any such names.
  suffices hgen : ∀ seen again : List Text, (names.foldl (fun acc n =>
      if acc.1.contains n then (acc.1, n :: acc.2) else (n :: acc.1, acc.2)) (seen, again)).2 = [] ↔
      again = [] ∧ names.Nodup ∧ ∀ n ∈ names, n ∉ seen by
    apply (hgen [] []).trans
    simp
  induction names with
  | nil => simp
  | cons n names ih =>
    intro seen again
    rw [List.foldl_cons]
    by_cases hseen : n ∈ seen
    · simp only [List.contains_iff_mem.mpr hseen, if_true, ih]
      simp [hseen]
    · have hcontains : seen.contains n = false := by simpa using hseen
      simp only [hcontains, Bool.false_eq_true, if_false, ih, List.nodup_cons, List.mem_cons]
      grind

/-- The labels that some instructions define. -/
def labelsOf (body : List Instr) : List Text := Function.labels { name := [], body }

lemma labelsOf_cons (i : Instr) (body : List Instr) :
    labelsOf (i :: body) = labelsOf [i] ++ labelsOf body := by
  cases i <;> rfl

lemma push_found_eq_nil_iff (function : Text) (c : BodyCheck) (i : Instr) :
    (c.push function i).found = [] ↔
      c.found = [] ∧ Filled i ∧ ∀ name ∈ labelsOf [i], name ∉ c.labels := by
  unfold BodyCheck.push Filled
  split
  · simp
  · next name =>
    have hone : labelsOf [.label name] = [name] := rfl
    by_cases hseen : name ∈ c.labels
    · simp [hone, hseen]
    · simp [hone, hseen]
  · simp
  · next hmissing hlabel hassign =>
    have hnone : labelsOf [i] = [] := by cases i <;> simp_all [labelsOf, Function.labels]
    simpa [hnone] using fun _ => ⟨hmissing, hassign⟩

lemma push_labels {function : Text} {c : BodyCheck} {i : Instr}
    (h : (c.push function i).found = []) :
    (c.push function i).labels = labelsOf [i] ++ c.labels := by
  have hfresh := ((push_found_eq_nil_iff function c i).mp h).2.2
  cases i with
  | label name =>
    have hname : name ∉ c.labels := hfresh name (by simp [labelsOf, Function.labels])
    simp [BodyCheck.push, hname, labelsOf, Function.labels]
  | assign name inner => cases inner <;> rfl
  | _ => rfl

lemma body_found_eq_nil_iff (function : Text) (c : BodyCheck) (body : List Instr) :
    (body.foldl (BodyCheck.push function) c).found = [] ↔
      c.found = [] ∧ (∀ i ∈ body, Filled i) ∧ (labelsOf body).Nodup ∧
        ∀ name ∈ labelsOf body, name ∉ c.labels := by
  induction body generalizing c with
  | nil => simp [labelsOf, Function.labels]
  | cons i body ih =>
    have hone : (labelsOf [i]).Nodup := by cases i <;> simp [labelsOf, Function.labels]
    rw [List.foldl_cons, ih, labelsOf_cons, List.nodup_append]
    constructor
    · rintro ⟨hstep, hbody, hnodup, hfresh⟩
      rw [push_labels hstep] at hfresh
      obtain ⟨hfound, hfilled, hnew⟩ := (push_found_eq_nil_iff function c i).mp hstep
      grind
    · rintro ⟨hfound, hfilled, ⟨-, hnodup, hapart⟩, hfresh⟩
      have hstep : (c.push function i).found = [] :=
        (push_found_eq_nil_iff function c i).mpr ⟨hfound, by grind, by grind⟩
      refine ⟨hstep, by grind, hnodup, ?_⟩
      rw [push_labels hstep]
      grind

lemma functionProblems_eq_nil_iff {f : Function} : functionProblems f = [] ↔ ValidFunction f := by
  have hlabels : labelsOf f.body = f.labels := rfl
  unfold functionProblems
  rw [List.append_eq_nil_iff, List.map_eq_nil_iff, repeated_eq_nil_iff, List.reverse_eq_nil_iff,
    body_found_eq_nil_iff, hlabels]
  constructor
  · rintro ⟨hvars, -, hfilled, hnodup, -⟩
    exact ⟨hvars, hnodup, hfilled⟩
  · rintro ⟨hvars, hnodup, hfilled⟩
    exact ⟨hvars, rfl, hfilled, hnodup, by simp⟩

/-! ### The module -/

/-- The names and problems found after one more slot. -/
def checkSlot : List Text × List Problem → Option Function → List Text × List Problem
  | (names, found), none => (names, found ++ [.noFunction])
  | (names, found), some f =>
    (f.name :: names, found ++
      (if names.contains f.name then [.duplicateFunction f.name] else []) ++ functionProblems f)

lemma problems_eq (m : Module) :
    m.problems = (m.functions.foldl checkSlot ([], [])).2 ++
      (m.exports.filter fun e =>
        !(m.functions.foldl checkSlot ([], [])).1.contains e).map .unknownExport := by
  unfold Module.problems
  rw [List.foldl_ext _ checkSlot]
  intro acc slot _
  cases slot with
  | none => rfl
  | some f => rfl

lemma names_checkSlots (slots : List (Option Function)) (acc : List Text × List Problem) :
    (slots.foldl checkSlot acc).1 = (slotNames slots).reverse ++ acc.1 := by
  induction slots generalizing acc with
  | nil => rfl
  | cons slot slots ih =>
    rw [List.foldl_cons, ih]
    cases slot with
    | none => rfl
    | some f => simp [slotNames, checkSlot]

lemma found_checkSlots_eq_nil_iff (slots : List (Option Function))
    (acc : List Text × List Problem) :
    (slots.foldl checkSlot acc).2 = [] ↔ acc.2 = [] ∧ none ∉ slots ∧ (slotNames slots).Nodup ∧
      (∀ f, some f ∈ slots → ValidFunction f) ∧ ∀ name ∈ slotNames slots, name ∉ acc.1 := by
  induction slots generalizing acc with
  | nil => simp [slotNames]
  | cons slot slots ih =>
    rw [List.foldl_cons, ih]
    cases slot with
    | none => simp [checkSlot]
    | some f =>
      have hnames : slotNames (some f :: slots) = f.name :: slotNames slots := rfl
      rw [hnames, List.nodup_cons]
      by_cases hseen : f.name ∈ acc.1
      · simp [checkSlot, hseen]
      · simp [checkSlot, hseen, functionProblems_eq_nil_iff]
        grind

lemma problems_eq_nil_iff {m : Module} : m.problems = [] ↔ Valid m := by
  have hexports : (m.exports.filter fun e =>
      !(m.functions.foldl checkSlot ([], [])).1.contains e).map Problem.unknownExport = [] ↔
      ∀ name ∈ m.exports, name ∈ slotNames m.functions := by
    rw [names_checkSlots]
    simp
  rw [problems_eq, List.append_eq_nil_iff, hexports, found_checkSlots_eq_nil_iff]
  constructor
  · rintro ⟨⟨-, hfilled, hnodup, hvalid, -⟩, hknown⟩
    exact ⟨hfilled, hnodup, hvalid, hknown⟩
  · rintro ⟨hfilled, hnodup, hvalid, hknown⟩
    exact ⟨⟨rfl, hfilled, hnodup, hvalid, by simp⟩, hknown⟩

lemma exists_functions_of_filled {slots : List (Option Function)} (h : none ∉ slots) :
    ∃ fs : List Function, slots = fs.map some := by
  induction slots with
  | nil => exact ⟨[], rfl⟩
  | cons slot slots ih =>
    rw [List.mem_cons, not_or] at h
    obtain ⟨fs, rfl⟩ := ih h.2
    cases slot with
    | none => exact absurd rfl h.1
    | some f => exact ⟨f :: fs, rfl⟩

/-- The variables of a function in a valid module have different names. -/
lemma vars_nodup_of_problems {m : Module} (h : m.problems = []) {f : Function}
    (hf : some f ∈ m.functions) : (f.vars.map Var.name).Nodup :=
  ((problems_eq_nil_iff.mp h).function f hf).vars_nodup

/-! ### Compilation -/

lemma functions_optimize (m : Module) :
    m.optimize.1.functions = m.functions.map (Option.map fun f => f.optimize.1) := by
  simp [Module.optimize, Function.comp_def]

lemma slotNames_optimize (m : Module) :
    slotNames m.optimize.1.functions = slotNames m.functions := by
  rw [functions_optimize, slotNames, slotNames, List.filterMap_map, List.map_filterMap,
    List.map_filterMap]
  congr 1
  funext slot
  cases slot <;> rfl

lemma compile_of_problems {m : Module} (h : m.problems = []) (optimize : Bool) :
    m.compile optimize =
      ⟨if optimize then m.optimize.2 else {},
        (if optimize then m.optimize.1 else m).emit.mapError .emit⟩ := by
  unfold Module.compile
  rw [h]
  cases optimize <;> rfl

lemma compile_eq_ok {m : Module} {optimize : Bool} {p : Program}
    (h : (m.compile optimize).result = .ok p) :
    m.problems = [] ∧ (if optimize then m.optimize.1 else m).emit = .ok p := by
  cases hproblems : m.problems with
  | cons q qs =>
    unfold Module.compile at h
    simp [hproblems] at h
  | nil =>
    refine ⟨rfl, ?_⟩
    rw [compile_of_problems hproblems] at h
    cases hemit : (if optimize then m.optimize.1 else m).emit with
    | error e => simp [hemit, Except.mapError] at h
    | ok q => simpa [hemit, Except.mapError] using h

end StackCode.Proofs
