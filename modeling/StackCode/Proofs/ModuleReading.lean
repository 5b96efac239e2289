import Mathlib
import StackCode.Module.Reader
import StackCode.Proofs.DeclarationText

/-!
# What reading a module yields

Every line keeps an invariant of what has been read: names and types are words that the text form
can hold. So the modules that texts are read as are all of one shape.
-/

namespace StackCode.Proofs

open Text

/-! ### The shape of modules that are read -/

/-- An instruction that a line of a body is read as. -/
def LineSpelled (i : Instr) : Prop := (∃ name, i = .label name ∧ isIdent name) ∨ Spelled i

/-- A function whose parts can be written on lines. -/
structure FunctionSpelled (f : Function) : Prop where
  name : isIdent f.name
  params : ∀ v ∈ f.params, VarSpelled v
  locals : ∀ v ∈ f.locals, VarSpelled v
  body : ∀ i ∈ f.body, LineSpelled i

/-- The names of a module's functions, in order. -/
def functionNames (m : Module) : List Text := (m.functions.filterMap id).map Function.name

/-- A module that some text may be read as. An export may be empty: a comma alone names nothing. -/
structure ModuleSpelled (m : Module) : Prop where
  name : m.name = [] ∨ LineWord m.name
  exports : ∀ e ∈ m.exports, e = [] ∨ LineWord e
  exportsDistinct : m.exports.Nodup
  functions : ∀ slot ∈ m.functions, ∃ f, slot = some f ∧ FunctionSpelled f
  functionsDistinct : (functionNames m).Nodup

/-! ### Exports -/

lemma isSuffixOf_append (s x : Text) : List.isSuffixOf x (s ++ x) = true := by
  rw [List.isSuffixOf_iff_suffix]
  exact List.suffix_append s x

lemma dropSuffix_append (s x : Text) : dropSuffix x (s ++ x) = s := by
  rw [dropSuffix, if_pos (isSuffixOf_append s x)]
  simp

/-- An export without the comma that may follow it. -/
def stripComma (e : Text) : Text := dropSuffix "," e

lemma stripComma_append_comma (s : Text) : stripComma (s ++ [byte ',']) = s :=
  dropSuffix_append s [byte ',']

lemma stripComma_of_not {e : Text} (h : ¬∃ s, e = s ++ [byte ',']) : stripComma e = e := by
  rw [stripComma, dropSuffix, if_neg]
  rw [List.isSuffixOf_iff_suffix]
  rintro ⟨s, hs⟩
  exact h ⟨s, hs.symm⟩

lemma lineWord_stripComma {w : Text} (h : LineWord w) :
    stripComma w = [] ∨ LineWord (stripComma w) := by
  by_cases hcomma : ∃ s, w = s ++ [byte ',']
  · obtain ⟨s, rfl⟩ := hcomma
    rw [stripComma_append_comma]
    by_cases hs : s = []
    · exact .inl hs
    · right
      have hline : byte '\n' ∉ s := fun hmem => h.noNewline (by simp [hmem])
      rcases h.isWord with hplain | hquoted
      · exact ⟨.inl ⟨hs, fun b hb => hplain.2 b (by simp [hb])⟩, hline⟩
      · -- a quoted word ends with its quote
        obtain ⟨v, hv⟩ := hquoted.eq_append
        have hlast := (List.append_inj' hv rfl).2
        exact absurd hlast (by decide)
  · rw [stripComma_of_not hcomma]
    exact .inr h

lemma ModuleSpelled.addExport {m : Module} (h : ModuleSpelled m) {e : Text}
    (he : e = [] ∨ LineWord e) : ModuleSpelled (m.addExport e) := by
  unfold Module.addExport
  split_ifs with hknown
  · exact h
  · refine { h with exports := ?_, exportsDistinct := ?_ }
    · intro x hx
      rcases List.mem_append.mp hx with hx | hx
      · exact h.exports x hx
      · rw [List.mem_singleton.mp hx]
        exact he
    · have hnew : e ∉ m.exports := by simpa using hknown
      exact List.Nodup.append h.exportsDistinct (List.nodup_singleton e) (by simpa using hnew)

lemma ModuleSpelled.addExports {m : Module} (h : ModuleSpelled m) {ws : List Text}
    (hws : ∀ w ∈ ws, LineWord w) :
    ModuleSpelled (ws.foldl (fun m n => m.addExport (dropSuffix "," n)) m) := by
  induction ws generalizing m with
  | nil => exact h
  | cons w ws ih =>
    rw [List.foldl_cons]
    exact ih (h.addExport (lineWord_stripComma (hws w (by simp)))) fun v hv => hws v (by simp [hv])

/-! ### Functions -/

lemma lookup?_eq_none_iff {m : Module} {name : Text} :
    m.lookup? name = none ↔ name ∉ functionNames m := by
  rw [Module.lookup?, List.find?_eq_none, functionNames, List.mem_map]
  simp only [decide_eq_true_eq, not_exists, not_and]

lemma functionNames_snoc (m : Module) (f : Function) :
    functionNames { m with functions := m.functions ++ [some f] } = functionNames m ++ [f.name] := by
  simp [functionNames]

/-- A function that is registered leaves a module of the same shape. -/
lemma ModuleSpelled.add {m m' : Module} (h : ModuleSpelled m) {f : Function}
    (hf : FunctionSpelled f)
    (hadd : m.add (some f) = .ok m') : ModuleSpelled m' := by
  unfold Module.add at hadd
  dsimp only at hadd
  split_ifs at hadd with hknown
  cases hadd
  have hnew : f.name ∉ functionNames m := by
    rw [← lookup?_eq_none_iff]
    simpa using hknown
  refine { h with functions := ?_, functionsDistinct := ?_ }
  · intro slot hslot
    rcases List.mem_append.mp hslot with hslot | hslot
    · exact h.functions slot hslot
    · exact ⟨f, List.mem_singleton.mp hslot, hf⟩
  · rw [functionNames_snoc]
    exact List.Nodup.append h.functionsDistinct (List.nodup_singleton _) (by simpa using hnew)

/-! ### What a line keeps -/

/-- What has been read so far can be written on lines. -/
structure ReadingSpelled (r : Module.Reading) : Prop where
  module : ModuleSpelled r.module
  current : ∀ f, r.current = some f → FunctionSpelled f

lemma ReadingSpelled.fail {r : Module.Reading} (h : ReadingSpelled r) (line : Nat)
    (m : Module.Mistake) :
    ReadingSpelled (r.fail line m) := ⟨h.module, h.current⟩

lemma ReadingSpelled.topLevel {r : Module.Reading} (h : ReadingSpelled r) (line : Nat)
    {ws : List Text}
    (hws : ∀ w ∈ ws, LineWord w) : ReadingSpelled (r.topLevel line ws) := by
  cases ws with
  | nil => exact h
  | cons w ws =>
    have hrest : ∀ v ∈ ws, LineWord v := fun v hv => hws v (by simp [hv])
    unfold Module.Reading.topLevel
    dsimp only
    split_ifs
    · match ws, hrest with
      | [], _ => exact h.fail _ _
      | [name], hrest =>
        exact ⟨{ h.module with name := .inr (hrest name (by simp)) }, h.current⟩
      | _ :: _ :: _, _ => exact h.fail _ _
    · exact h.fail _ _
    · exact ⟨h.module.addExports hrest, h.current⟩
    · cases hheader : Module.readHeader (join " " ws) with
      | error e => exact h.fail _ _
      | ok f =>
        obtain ⟨hname, hparams, hlocals, hbody⟩ := header_of_readHeader hheader
        refine ⟨h.module, fun g hg => ?_⟩
        cases hg
        exact ⟨hname, hparams, by simp [hlocals], by simp [hbody]⟩
    · exact h.fail _ _

lemma ReadingSpelled.inFunction {r : Module.Reading} (h : ReadingSpelled r) (line : Nat)
    {f : Function}
    (hf : FunctionSpelled f) {ws : List Text} (hws : ∀ w ∈ ws, LineWord w) :
    ReadingSpelled (r.inFunction line f ws) := by
  -- a line of the body adds to the open function only
  have hcurrent : ∀ g, FunctionSpelled g → ReadingSpelled { r with current := some g } := by
    intro g hg
    refine ⟨h.module, fun f' hf' => ?_⟩
    cases hf'
    exact hg
  have hbody : ∀ i, LineSpelled i → FunctionSpelled { f with body := f.body ++ [i] } := by
    intro i hi
    refine { hf with body := fun j hj => ?_ }
    rcases List.mem_append.mp hj with hj | hj
    · exact hf.body j hj
    · rw [List.mem_singleton.mp hj]
      exact hi
  unfold Module.Reading.inFunction
  split_ifs
  · cases hadd : r.module.add (some f) with
    | error e => exact ⟨h.module, fun g hg => by cases hg⟩
    | ok m => exact ⟨h.module.add hf hadd, fun g hg => by cases hg⟩
  · cases hvar : Module.readVar (join " " (ws.drop 1)) with
    | error e => exact h.fail _ _
    | ok v =>
      refine hcurrent _ { hf with locals := fun u hu => ?_ }
      rcases List.mem_append.mp hu with hu | hu
      · exact hf.locals u hu
      · rw [List.mem_singleton.mp hu]
        exact varSpelled_of_readVar hvar
  · cases Module.Reading.labelOf? ws with
    | some name =>
      dsimp only
      split_ifs with hname
      · exact hcurrent _ (hbody _ (.inl ⟨name, rfl, hname⟩))
      · exact h.fail _ _
    | none =>
      dsimp only
      cases hread : Instr.read ws with
      | error e => exact h.fail _ _
      | ok i => exact hcurrent _ (hbody _ (.inr (spelled_of_read hws hread)))

lemma ReadingSpelled.push {r : Module.Reading} (h : ReadingSpelled r) (line : Nat) {t : Text}
    (ht : byte '\n' ∉ t) : ReadingSpelled (r.push line t) := by
  unfold Module.Reading.push
  cases hscan : Words.scan t with
  | none => exact h.fail _ _
  | some ws =>
    have hscans := scan_eq_some_iff.mp hscan
    have hws : ∀ w ∈ ws, LineWord w :=
      fun w hw => ⟨hscans.isWord w hw, fun hmem => ht (hscans.subset w hw hmem)⟩
    cases ws with
    | nil => exact h
    | cons w ws =>
      dsimp only
      cases hcurrent : r.current with
      | none => exact h.topLevel line hws
      | some f => exact h.inFunction line (h.current f hcurrent) hws

lemma ReadingSpelled.pushAll {r : Module.Reading} (h : ReadingSpelled r) (line : Nat)
    {ts : List Text}
    (hts : ∀ t ∈ ts, byte '\n' ∉ t) : ReadingSpelled (r.pushAll line ts) := by
  induction ts generalizing r line with
  | nil => exact h
  | cons t ts ih =>
    rw [Module.Reading.pushAll]
    exact ih (h.push line (hts t (by simp))) (line + 1) fun u hu => hts u (by simp [hu])

lemma finish_eq_ok {r : Module.Reading} {lines : Nat} {m : Module} (h : r.finish lines = .ok m) :
    r.current = none ∧ r.mistakes = [] ∧ r.module = m := by
  unfold Module.Reading.finish at h
  cases hcurrent : r.current with
  | some f =>
    rw [hcurrent] at h
    simp [Module.Reading.fail] at h
  | none =>
    rw [hcurrent] at h
    dsimp only at h
    split_ifs at h with hempty
    cases h
    exact ⟨rfl, by simpa using hempty, rfl⟩

/-- Reading yields modules of one shape only. -/
lemma moduleSpelled_of_read {src : Text} {m : Module} (h : Module.read src = .ok m) :
    ModuleSpelled m := by
  have hstart : ReadingSpelled {} :=
    ⟨⟨.inl rfl, by simp, List.nodup_nil, by simp, List.nodup_nil⟩, by simp⟩
  have hend := hstart.pushAll 1 (not_mem_splitOn (byte '\n') src)
  obtain ⟨-, -, rfl⟩ := finish_eq_ok h
  exact hend.module

end StackCode.Proofs
