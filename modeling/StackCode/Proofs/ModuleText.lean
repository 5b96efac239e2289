import Mathlib
import StackCode.Proofs.ModuleWriting

/-!
# Modules in text

A well formed module is read back from its text. A module that was itself read from some text is
read back as well, unless one of its exports is empty or ends in a comma: a comma may follow an
export in a list, so that one of them is lost on the way.
-/

namespace StackCode.Proofs

open Text

/-! ### Well formed modules -/

def isLabel : Instr → Bool
  | .label _ => true
  | _ => false

/-- An instruction with identifiers for names, operators that are defined and counts that are not
negative. The only NaN is that of the literal, and what is assigned is not a label. -/
def InstrWellFormed : Instr → Prop
  | .missing => False
  | .const (.float x) => x.isNaN → x = Binary64.nan
  | .const _ | .ret | .arrayLoad | .arrayStore => True
  | .load name | .store name | .jump name | .jumpIf name | .label name | .newObject name
  | .getProp name | .setProp name => isIdent name
  | .assign name inner => isIdent name ∧ ¬isLabel inner ∧ InstrWellFormed inner
  | .declare name type => isIdent name ∧ (type = [] ∨ isIdent type)
  | .binary op => op ∈ BinOp.all
  | .unary op => op = .neg ∨ op = .not
  | .call function argc => isIdent function ∧ 0 ≤ argc ∧ argc < 2 ^ 63
  | .newArray type size => (type = [] ∨ isIdent type) ∧ 0 ≤ size ∧ size < 2 ^ 63

instance instDecidableInstrWellFormed : (i : Instr) → Decidable (InstrWellFormed i)
  | .missing => inferInstanceAs (Decidable False)
  | .const (.float x) => inferInstanceAs (Decidable (x.isNaN → x = Binary64.nan))
  | .const .null | .const (.bool _) | .const (.int _) | .const (.str _) | .ret | .arrayLoad
  | .arrayStore => inferInstanceAs (Decidable True)
  | .load name | .store name | .jump name | .jumpIf name | .label name | .newObject name
  | .getProp name | .setProp name => inferInstanceAs (Decidable (isIdent name))
  | .assign name inner =>
    have := instDecidableInstrWellFormed inner
    inferInstanceAs (Decidable (isIdent name ∧ ¬isLabel inner ∧ InstrWellFormed inner))
  | .declare name type => inferInstanceAs (Decidable (isIdent name ∧ (type = [] ∨ isIdent type)))
  | .binary op => inferInstanceAs (Decidable (op ∈ BinOp.all))
  | .unary op => inferInstanceAs (Decidable (op = .neg ∨ op = .not))
  | .call function argc =>
    inferInstanceAs (Decidable (isIdent function ∧ 0 ≤ argc ∧ argc < 2 ^ 63))
  | .newArray type size =>
    inferInstanceAs (Decidable ((type = [] ∨ isIdent type) ∧ 0 ≤ size ∧ size < 2 ^ 63))

/-- A function with identifiers for names and for the types that are given. -/
structure FunctionWellFormed (f : Function) : Prop where
  name : isIdent f.name
  vars : ∀ v ∈ f.vars, isIdent v.name ∧ (v.type = [] ∨ isIdent v.type)
  body : ∀ i ∈ f.body, InstrWellFormed i

/-- A module with distinct exports and distinct functions, all of them identifiers. -/
structure ModuleWellFormed (m : Module) : Prop where
  name : m.name = [] ∨ isIdent m.name
  exports : ∀ e ∈ m.exports, isIdent e
  exportsDistinct : m.exports.Nodup
  functions : ∀ slot ∈ m.functions, ∃ f, slot = some f ∧ FunctionWellFormed f
  functionsDistinct : (functionNames m).Nodup

lemma InstrWellFormed.spelled {i : Instr} (h : InstrWellFormed i) (hlabel : ¬isLabel i) :
    Spelled i := by
  have htype : ∀ {type : Text}, type = [] ∨ isIdent type → type = [] ∨ LineWord type :=
    fun h => h.imp_right lineWord_of_isIdent
  induction i with
  | missing => exact h.elim
  | label name => exact absurd rfl hlabel
  | const v =>
    rintro x rfl
    exact h
  | assign name inner ih => exact ⟨lineWord_of_isIdent h.1, ih h.2.2 h.2.1⟩
  | declare name type => exact ⟨lineWord_of_isIdent h.1, htype h.2⟩
  | call function argc => exact ⟨lineWord_of_isIdent h.1, h.2⟩
  | newArray type size => exact ⟨htype h.1, h.2⟩
  | _ => exact h

lemma InstrWellFormed.lineSpelled {i : Instr} (h : InstrWellFormed i) : LineSpelled i := by
  by_cases hlabel : isLabel i
  · cases i with
    | label name => exact .inl ⟨name, rfl, h⟩
    | _ => cases hlabel
  · exact .inr (h.spelled hlabel)

lemma FunctionWellFormed.spelled {f : Function} (h : FunctionWellFormed f) : FunctionSpelled f where
  name := h.name
  params v hv :=
    have hvar := h.vars v (List.mem_append_left _ hv)
    ⟨hvar.1, hvar.2⟩
  locals v hv :=
    have hvar := h.vars v (List.mem_append_right _ hv)
    ⟨hvar.1, hvar.2⟩
  body i hi := (h.body i hi).lineSpelled

lemma ModuleWellFormed.spelled {m : Module} (h : ModuleWellFormed m) : ModuleSpelled m where
  name := h.name.imp_right lineWord_of_isIdent
  exports e he := .inr (lineWord_of_isIdent (h.exports e he))
  exportsDistinct := h.exportsDistinct
  functions slot hslot := by
    obtain ⟨f, rfl, hf⟩ := h.functions slot hslot
    exact ⟨f, rfl, hf.spelled⟩
  functionsDistinct := h.functionsDistinct

/-! ### Reading back -/

/-- A well formed module is read back from its text. -/
theorem wellFormed_text_reads_back {m : Module} (h : ModuleWellFormed m) :
    ∃ t, m.text? = some t ∧ Module.read t = .ok m := by
  obtain ⟨t, htext, hread, -⟩ := h.spelled.read_text
  have hempty : [] ∉ m.exports := fun hmem => ne_nil_of_isIdent (h.exports [] hmem) rfl
  have hkept : mergeExports [] m.exports = m.exports := by
    rw [mergeExports_eq_iff h.exportsDistinct]
    rintro _ he ⟨s, rfl⟩
    exact not_mem_of_isIdent (h.exports _ he) (c := byte ',') (by decide) (by simp)
  refine ⟨t, htext, ?_⟩
  rw [hread hempty, hkept]

/-- A module with names beyond ASCII, words of the format for names and a string of any bytes. -/
def sampleModule : Module where
  name := "größe"
  exports := ["main", "π"]
  functions := [
    some {
      name := "main"
      params := [⟨"x", "int"⟩, ⟨"y", []⟩]
      locals := [⟨"module", "str"⟩]
      body := [.label "local", .const (.str [byte '"', 0, 255, byte '#', byte '\n']),
        .assign "x" (.assign "y" (.const (.float Binary64.nan))), .declare "z" [],
        .declare "z" "int", .binary .le, .unary .not, .call "π" 2, .jumpIf "local", .newArray [] 0,
        .newArray "T" 9223372036854775807, .arrayStore, .setProp "f", .ret] },
    some { name := "π" }]

theorem sampleModule_text_reads_back :
    ModuleWellFormed sampleModule ∧
      ∃ t, sampleModule.text? = some t ∧ Module.read t = .ok sampleModule := by
  have hwell : ModuleWellFormed sampleModule := by
    refine ⟨by decide +kernel, by decide +kernel, by decide +kernel, ?_, by decide +kernel⟩
    simp only [sampleModule, List.mem_cons, List.not_mem_nil, or_false, forall_eq_or_imp, forall_eq,
      Option.some.injEq, exists_eq_left']
    exact ⟨⟨by decide +kernel, by decide +kernel, by decide +kernel⟩,
      ⟨by decide +kernel, by decide +kernel, by decide +kernel⟩⟩
  exact ⟨hwell, wellFormed_text_reads_back hwell⟩

/-- A module that was read from some text is read back from its own text exactly if no export is
empty or ends in a comma. Only an empty export keeps its text from being read at all, and nothing
but exports is ever lost. -/
theorem accepted_text_reads_back_iff {src : Text} {m : Module} (h : Module.read src = .ok m) :
    ∃ t, m.text? = some t ∧
      ((∃ es, Module.read t = .ok { m with exports := es }) ↔ [] ∉ m.exports) ∧
      (Module.read t = .ok m ↔ ∀ e ∈ m.exports, e ≠ [] ∧ ¬∃ s, e = s ++ [byte ',']) := by
  have hm := moduleSpelled_of_read h
  obtain ⟨t, htext, hread, herror⟩ := hm.read_text
  refine ⟨t, htext, ⟨?_, fun hempty => ⟨_, hread hempty⟩⟩, ?_, ?_⟩
  · rintro ⟨es, hes⟩ hempty
    exact herror hempty _ hes
  · intro hsame
    have hempty : [] ∉ m.exports := fun hempty => herror hempty m hsame
    have hexports : mergeExports [] m.exports = m.exports := by
      rw [hread hempty] at hsame
      exact congrArg Module.exports (Except.ok.inj hsame)
    intro e he
    exact ⟨fun hnil => hempty (hnil ▸ he),
      (mergeExports_eq_iff hm.exportsDistinct).mp hexports e he⟩
  · intro hkept
    have hempty : [] ∉ m.exports := fun hmem => (hkept [] hmem).1 rfl
    rw [hread hempty, (mergeExports_eq_iff hm.exportsDistinct).mpr fun e he => (hkept e he).2]

lemma eq_ok_of_toOption {ε α : Type} {x : Except ε α} {a : α} (h : x.toOption = some a) :
    x = .ok a := by
  cases x with
  | error e => cases h
  | ok b => exact congrArg Except.ok (Option.some.inj h)

/-- A text that has other words where names stand. -/
def looseText : Text :=
  "module \"a b\"\nexport f, \"x y\"\nfunc f(x:int,y)\x7b\nlocal z\n" ++
    "assign \"q,\" const str `a`\ndeclare x: 1\ncall (f) 2\nl:\n\x7d\n"

/-- The module that `looseText` describes. -/
def looseModule : Module where
  name := "\"a b\""
  exports := ["f", "\"x y\""]
  functions := [
    some {
      name := "f"
      params := [⟨"x", "int"⟩, ⟨"y", []⟩]
      locals := [⟨"z", []⟩]
      body := [.assign "\"q,\"" (.const (.str "a")), .declare "x:" "1", .call "(f)" 2,
        .label "l"] }]

theorem looseText_reads_back :
    Module.read looseText = .ok looseModule ∧
      (∀ e ∈ looseModule.exports, e ≠ [] ∧ ¬∃ s, e = s ++ [byte ',']) ∧
      ∃ t, looseModule.text? = some t ∧ Module.read t = .ok looseModule := by
  have hread : Module.read looseText = .ok looseModule := eq_ok_of_toOption (by decide +kernel)
  have hkept : ∀ e ∈ looseModule.exports, e ≠ [] ∧ ¬∃ s, e = s ++ [byte ','] := by
    simp only [← List.getLast?_eq_some_iff]
    decide
  obtain ⟨t, htext, -, hback⟩ := accepted_text_reads_back_iff hread
  exact ⟨hread, hkept, t, htext, hback.mpr hkept⟩

/-- A comma alone is an export without a name, which is not accepted on a line of its own. Of two
commas after an export the first belongs to it, until its text is read. -/
theorem comma_exports_not_read_back :
    (Module.read "export ," = .ok { exports := [[]] } ∧
      ({ exports := [[]] } : Module).text? = some (Text.ofString "export \n") ∧
      ∀ m, Module.read "export \n" ≠ .ok m) ∧
    (Module.read "export a,," = .ok { exports := ["a,"] } ∧
      ({ exports := ["a,"] } : Module).text? = some (Text.ofString "export a,\n") ∧
      Module.read "export a,\n" = .ok { exports := ["a"] }) := by
  refine ⟨⟨eq_ok_of_toOption (by decide +kernel), by decide +kernel, ?_⟩,
    eq_ok_of_toOption (by decide +kernel), by decide +kernel, eq_ok_of_toOption (by decide +kernel)⟩
  intro m hread
  have hnone : (Module.read "export \n").toOption = none := by decide +kernel
  rw [hread] at hnone
  cases hnone

end StackCode.Proofs
