import Mathlib
import StackCode.Module.Printer
import StackCode.Proofs.ModuleReading

/-!
# Reading what is written

The text of a module is a sequence of lines, and each line adds to what has been read exactly the
part of the module that it was written for. Only exports lose something: a comma at their end.
-/

namespace StackCode.Proofs

open Text

/-! ### The lines of a module -/

/-- Lines, each with its end. -/
def unlines (ls : List Text) : Text := ls.flatMap (· ++ [byte '\n'])

lemma unlines_cons (l : Text) (ls : List Text) :
    unlines (l :: ls) = l ++ byte '\n' :: unlines ls := by simp [unlines]

lemma unlines_append (ls ls' : List Text) : unlines (ls ++ ls') = unlines ls ++ unlines ls' :=
  List.flatMap_append

lemma splitOn_unlines {ls : List Text} (h : ∀ l ∈ ls, byte '\n' ∉ l) :
    splitOn (byte '\n') (unlines ls) = ls ++ [[]] := by
  induction ls with
  | nil => rfl
  | cons l ls ih =>
    rw [unlines_cons, splitOn_append (h l (by simp)), ih fun k hk => h k (by simp [hk])]
    rfl

/-- The line of a local. -/
def localLine (v : Var) : Text := "  local " ++ v.text

/-- The line of an instruction. -/
def bodyLine : Instr → Text
  | .label name => name ++ [byte ':']
  | i => "  " ++ i.text

/-- The lines of a function. -/
def functionLines (f : Function) : List Text :=
  ("func " ++ headerText f) ::
    (f.locals.map localLine ++ (f.body.map bodyLine ++ [Text.ofString "\x7d"]))

/-- The lines of functions, an empty one before each but the first of the text. -/
def functionsLines (first : Bool) : List Function → List Text
  | [] => []
  | f :: fs => (if first then [] else [[]]) ++ functionLines f ++ functionsLines false fs

/-- The line that names a module, if it has a name. -/
def nameLines (name : Text) : List Text := if name.isEmpty then [] else ["module " ++ name]

/-- The lines of exports. -/
def exportLines (es : List Text) : List Text := es.map fun e => "export " ++ e

/-- The lines of a module with the given functions. -/
def moduleLines (m : Module) (fs : List Function) : List Text :=
  nameLines m.name ++ (exportLines m.exports ++ functionsLines m.header.isEmpty fs)

lemma instr_line_eq (i : Instr) : i.line = bodyLine i ++ [byte '\n'] := by
  cases i <;> simp [Instr.line, bodyLine, List.append_assoc] <;> rfl

lemma function_text_eq (f : Function) : f.text = unlines (functionLines f) := by
  have hlocals : f.locals.flatMap Var.line = unlines (f.locals.map localLine) := by
    rw [unlines, List.flatMap_map]
    rfl
  have hbody : f.body.flatMap Instr.line = unlines (f.body.map bodyLine) := by
    rw [unlines, List.flatMap_map]
    exact List.flatMap_congr fun i _ => instr_line_eq i
  have hlines : unlines (functionLines f) =
      Text.ofString "func " ++ headerText f ++ byte '\n' :: (unlines (f.locals.map localLine) ++
        (unlines (f.body.map bodyLine) ++ unlines [Text.ofString "\x7d"])) := by
    rw [functionLines, unlines_cons, unlines_append, unlines_append]
  rw [hlines, ← hlocals, ← hbody, Function.text, headerText, paramsText]
  simp only [List.append_assoc, List.cons_append]
  rfl

lemma functionsText_eq (first : Bool) (fs : List Function) :
    Module.functionsText first fs = unlines (functionsLines first fs) := by
  induction fs generalizing first with
  | nil => rfl
  | cons f fs ih =>
    rw [Module.functionsText, functionsLines, unlines_append, unlines_append, ih, function_text_eq]
    cases first <;> rfl

lemma header_eq (m : Module) : m.header = unlines (nameLines m.name ++ exportLines m.exports) := by
  have hexports : m.exports.flatMap Module.exportLine = unlines (exportLines m.exports) := by
    rw [unlines, exportLines, List.flatMap_map]
    rfl
  rw [Module.header, unlines_append, hexports, Module.nameLine, nameLines]
  split_ifs
  · rfl
  · simp [unlines]
    rfl

/-- A module without empty slots is written as its lines. -/
lemma text?_eq {m : Module} {fs : List Function} (h : m.functions = fs.map some) :
    m.text? = some (unlines (moduleLines m fs)) := by
  have hslots : (fs.map some).mapM id = some fs := by
    clear h
    induction fs with
    | nil => rfl
    | cons f fs ih =>
      rw [List.map_cons, List.mapM_cons, ih]
      rfl
  rw [Module.text?, h, hslots, Option.map_some, functionsText_eq]
  conv_lhs => rw [header_eq]
  rw [← unlines_append, moduleLines, List.append_assoc, header_eq]

/-! ### Reading single lines -/

/-- The given lines lead from one reading to another, whatever their numbers. -/
def Leads (r : Module.Reading) (ls : List Text) (r' : Module.Reading) : Prop :=
  ∀ line, r.pushAll line ls = r'

lemma pushAll_append (r : Module.Reading) (line : Nat) (ls ls' : List Text) :
    r.pushAll line (ls ++ ls') = (r.pushAll line ls).pushAll (line + ls.length) ls' := by
  induction ls generalizing r line with
  | nil => rfl
  | cons l ls ih =>
    rw [List.cons_append, Module.Reading.pushAll, ih, Module.Reading.pushAll, List.length_cons]
    congr 1
    omega

lemma Leads.append {r r' r'' : Module.Reading} {ls ls' : List Text} (h : Leads r ls r')
    (h' : Leads r' ls' r'') : Leads r (ls ++ ls') r'' := by
  intro line
  rw [pushAll_append, h line, h' _]

lemma leads_nil (r : Module.Reading) : Leads r [] r := fun _ => rfl

lemma leads_single {r r' : Module.Reading} {l : Text} (h : ∀ line, r.push line l = r') :
    Leads r [l] r' := h

lemma push_empty (r : Module.Reading) (line : Nat) : r.push line [] = r := rfl

section Outside

variable {r : Module.Reading} (hr : r.current = none)
include hr

lemma push_outside {l : Text} {w : Text} {ws : List Text} (h : Scans l (w :: ws)) (line : Nat) :
    r.push line l = r.topLevel line (w :: ws) := by
  rw [Module.Reading.push, scan_eq_some_iff.mpr h]
  dsimp only
  rw [hr]

lemma push_name {name : Text} (h : LineWord name) (line : Nat) :
    r.push line ("module " ++ name) = { r with module := { r.module with name } } := by
  have hwords : ∀ w ∈ [Text.ofString "module", name], IsWord w := by
    simp only [List.mem_cons, List.not_mem_nil, or_false, forall_eq_or_imp, forall_eq]
    exact ⟨(lineWord_of_check (by decide)).isWord, h.isWord⟩
  rw [push_outside hr (l := "module " ++ name) (scans_join hwords), Module.Reading.topLevel,
    if_pos rfl]

/-- An export is read without a comma at its end. -/
lemma push_export {e : Text} (h : LineWord e) (line : Nat) :
    r.push line ("export " ++ e) = { r with module := r.module.addExport (stripComma e) } := by
  have hwords : ∀ w ∈ [Text.ofString "export", e], IsWord w := by
    simp only [List.mem_cons, List.not_mem_nil, or_false, forall_eq_or_imp, forall_eq]
    exact ⟨(lineWord_of_check (by decide)).isWord, h.isWord⟩
  rw [push_outside hr (l := "export " ++ e) (scans_join hwords), Module.Reading.topLevel,
    if_neg (by decide), if_pos rfl, if_neg (by simp)]
  rfl

/-- An empty export is written as a line that is not accepted. -/
lemma push_export_empty (line : Nat) :
    r.push line (Text.ofString "export " ++ []) = r.fail line .usageExport := by
  have hwords : Scans (Text.ofString "export " ++ []) [Text.ofString "export"] := by
    have hword : IsWord (Text.ofString "export") := (lineWord_of_check (by decide)).isWord
    exact hword.scans (t := [byte ' ']) rfl (.blank (by decide) .nil)
  rw [push_outside hr hwords]
  unfold Module.Reading.topLevel
  dsimp only
  rw [if_neg (by decide), if_pos rfl, if_pos List.isEmpty_nil]

lemma push_header {f : Function} (hf : FunctionSpelled f) (line : Nat) :
    r.push line ("func " ++ headerText f) =
      { r with current := some { name := f.name, params := f.params } } := by
  have hword : IsPlainWord (Text.ofString "func") := isPlainWord_of_check (by decide)
  obtain ⟨ws, hscans, hjoin⟩ := (headerText_spec hf.name hf.params).1.scan_after hword
  rw [push_outside hr (l := "func " ++ headerText f) hscans]
  unfold Module.Reading.topLevel
  dsimp only
  rw [if_neg (by decide), if_neg (by decide), if_pos rfl, hjoin, readHeader_text hf.name hf.params]

end Outside

/-- The words that instructions start with. -/
def keywords : List Text :=
  (["const", "load", "store", "assign", "declare", "call", "ret", "jump", "jumpif", "newarray",
    "aload", "astore", "new", "getprop", "setprop", "neg", "not"] : List Text) ++
    BinOp.all.map BinOp.name

lemma exists_keyword {i : Instr} (h : Spelled i) :
    ∃ w ws, instrWords i = w :: ws ∧ w ∈ keywords := by
  cases i with
  | missing => exact h.elim
  | label name => exact h.elim
  | binary op => exact ⟨op.name, [], rfl, by simp [keywords, List.mem_map_of_mem h]⟩
  | unary op => rcases h with rfl | rfl <;> exact ⟨_, [], rfl, by simp [keywords, UnOp.name]⟩
  | declare name type =>
    unfold instrWords
    split_ifs <;> exact ⟨_, _, rfl, by simp [keywords]⟩
  | newArray type size =>
    unfold instrWords
    split_ifs <;> exact ⟨_, _, rfl, by simp [keywords]⟩
  | _ => exact ⟨_, _, rfl, by simp [keywords]⟩

/-- No instruction looks like a label, a declaration or the end of the function. -/
lemma keywords_spec : ∀ w ∈ keywords, w ≠ Text.ofString "\x7d" ∧ w ≠ Text.ofString "local" ∧
    List.isSuffixOf (Text.ofString ":") w = false := by
  decide

lemma bodyLine_eq {i : Instr} (hi : Spelled i) :
    bodyLine i = Text.ofString "  " ++ join " " (instrWords i) := by
  rw [← instr_text_eq hi]
  cases i <;> first | rfl | exact hi.elim

section Inside

variable {r : Module.Reading} {f : Function} (hr : r.current = some f)
include hr

lemma push_inside {l : Text} {w : Text} {ws : List Text} (h : Scans l (w :: ws)) (line : Nat) :
    r.push line l = r.inFunction line f (w :: ws) := by
  rw [Module.Reading.push, scan_eq_some_iff.mpr h]
  dsimp only
  rw [hr]

lemma push_local {v : Var} (hv : VarSpelled v) (line : Nat) :
    r.push line (localLine v) =
      { r with current := some { f with locals := f.locals ++ [v] } } := by
  have hword : IsPlainWord (Text.ofString "local") := isPlainWord_of_check (by decide)
  obtain ⟨ws, hscans, hjoin⟩ := hv.spaced.scan_after hword
  have hline : Scans (localLine v) (Text.ofString "local" :: ws) :=
    .blank (b := byte ' ') (by decide) (.blank (b := byte ' ') (by decide) hscans)
  rw [push_inside hr hline, Module.Reading.inFunction, if_neg, if_pos List.head?_cons,
    List.drop_one, List.tail_cons, hjoin, readVar_text hv (.inl rfl)]
  intro heq
  exact absurd (List.cons.inj heq).1 (by decide)

lemma push_label {name : Text} (hname : isIdent name) (line : Nat) :
    r.push line (bodyLine (.label name)) =
      { r with current := some { f with body := f.body ++ [.label name] } } := by
  have hword : IsWord (name ++ [byte ':']) :=
    .inl ((isPlainWord_of_isIdent hname).append isPlainWord_colon)
  have hline : Scans (bodyLine (.label name)) [name ++ [byte ':']] := hword.scans_self
  -- neither a brace nor the word for locals has a colon
  have hother : ∀ w : Text, byte ':' ∉ w → name ++ [byte ':'] ≠ w := by
    rintro w hw rfl
    exact hw (by simp)
  have hlabel : Module.Reading.labelOf? [name ++ [byte ':']] = some name := by
    have hsuffix : List.isSuffixOf (Text.ofString ":") (name ++ [byte ':']) = true :=
      isSuffixOf_append name [byte ':']
    have hdrop : dropSuffix (Text.ofString ":") (name ++ [byte ':']) = name :=
      dropSuffix_append name [byte ':']
    have hlength := List.length_pos_iff.mpr (ne_nil_of_isIdent hname)
    rw [Module.Reading.labelOf?, if_pos (by simp [hsuffix, hlength]), hdrop]
  rw [push_inside hr hline, Module.Reading.inFunction, if_neg, if_neg, hlabel]
  · dsimp only
    rw [if_pos hname]
  · intro heq
    exact hother _ (by decide) (Option.some.inj heq)
  · intro heq
    exact hother _ (by decide) (List.cons.inj heq).1

lemma push_instr {i : Instr} (hi : Spelled i) (line : Nat) :
    r.push line (bodyLine i) = { r with current := some { f with body := f.body ++ [i] } } := by
  obtain ⟨w, ws, hws, hkey⟩ := exists_keyword hi
  obtain ⟨hbrace, hlocal, hcolon⟩ := keywords_spec w hkey
  have hread := read_instrWords hi
  have hline : Scans (bodyLine i) (instrWords i) := by
    rw [bodyLine_eq hi]
    exact scans_indented fun v hv => (lineWord_instrWords hi v hv).isWord
  have hlabel : Module.Reading.labelOf? (w :: ws) = none := by
    cases ws with
    | nil => rw [Module.Reading.labelOf?, if_neg (by simp [hcolon])]
    | cons v vs => rfl
  rw [hws] at hline hread
  rw [push_inside hr hline, Module.Reading.inFunction, if_neg, if_neg, hlabel]
  · dsimp only
    rw [hread]
  · intro heq
    exact hlocal (Option.some.inj heq)
  · intro heq
    exact hbrace (List.cons.inj heq).1

lemma push_body {i : Instr} (hi : LineSpelled i) (line : Nat) :
    r.push line (bodyLine i) = { r with current := some { f with body := f.body ++ [i] } } := by
  rcases hi with ⟨name, rfl, hname⟩ | hi
  · exact push_label hr hname line
  · exact push_instr hr hi line

/-- The closing brace registers the function. -/
lemma push_close (hname : f.name ∉ functionNames r.module) (line : Nat) :
    r.push line "\x7d" = { r with
      module := { r.module with functions := r.module.functions ++ [some f] }
      current := none } := by
  have hadd : r.module.add (some f) =
      .ok { r.module with functions := r.module.functions ++ [some f] } := by
    rw [← lookup?_eq_none_iff] at hname
    rw [Module.add, hname]
    rfl
  have hword : IsWord (Text.ofString "\x7d") := .inl (isPlainWord_of_check (by decide))
  rw [push_inside hr hword.scans_self, Module.Reading.inFunction, if_pos rfl, hadd]

end Inside

/-! ### Reading functions -/

lemma leads_locals (r : Module.Reading) (f : Function) {vs : List Var}
    (h : ∀ v ∈ vs, VarSpelled v) :
    Leads { r with current := some f } (vs.map localLine)
      { r with current := some { f with locals := f.locals ++ vs } } := by
  induction vs generalizing f with
  | nil => simpa using leads_nil _
  | cons v vs ih =>
    have hfirst := leads_single (push_local (r := { r with current := some f }) rfl (h v (by simp)))
    have hrest := ih { f with locals := f.locals ++ [v] } fun u hu => h u (by simp [hu])
    have hboth := hfirst.append hrest
    simpa using hboth

lemma leads_body (r : Module.Reading) (f : Function) {is : List Instr}
    (h : ∀ i ∈ is, LineSpelled i) :
    Leads { r with current := some f } (is.map bodyLine)
      { r with current := some { f with body := f.body ++ is } } := by
  induction is generalizing f with
  | nil => simpa using leads_nil _
  | cons i is ih =>
    have hfirst := leads_single (push_body (r := { r with current := some f }) rfl (h i (by simp)))
    have hrest := ih { f with body := f.body ++ [i] } fun j hj => h j (by simp [hj])
    have hboth := hfirst.append hrest
    simpa using hboth

/-- The lines of a function add it to the module. -/
lemma leads_function {r : Module.Reading} (hr : r.current = none) {f : Function}
    (hf : FunctionSpelled f) (hname : f.name ∉ functionNames r.module) :
    Leads r (functionLines f)
      { r with module := { r.module with functions := r.module.functions ++ [some f] } } := by
  obtain ⟨m, current, mistakes⟩ := r
  cases hr
  let r : Module.Reading := { module := m, mistakes }
  have hheader := leads_single (push_header (r := r) rfl hf)
  have hlocals := leads_locals r { name := f.name, params := f.params } hf.locals
  have hbody := leads_body r { name := f.name, params := f.params, locals := f.locals } hf.body
  have hclose := leads_single (push_close (r := { r with current := some f }) rfl hname)
  exact hheader.append (hlocals.append (hbody.append hclose))

/-- The lines of functions with new names add them to the module, in order. -/
lemma leads_functions {r : Module.Reading} (hr : r.current = none) (first : Bool)
    {fs : List Function}
    (hfs : ∀ f ∈ fs, FunctionSpelled f)
    (hnames : (functionNames r.module ++ fs.map Function.name).Nodup) :
    Leads r (functionsLines first fs)
      { r with module := { r.module with functions := r.module.functions ++ fs.map some } } := by
  induction fs generalizing r first with
  | nil => simpa [functionsLines] using leads_nil r
  | cons f fs ih =>
    have hgap : Leads r (if first then [] else [[]]) r := by
      cases first
      · exact leads_single (push_empty r)
      · exact leads_nil r
    have hnew : f.name ∉ functionNames r.module := by
      intro hmem
      exact List.disjoint_of_nodup_append hnames hmem (by simp)
    have hfunction := leads_function hr (hfs f (by simp)) hnew
    have hrest := ih (r := { r with module :=
        { r.module with functions := r.module.functions ++ [some f] } }) hr false
      (fun g hg => hfs g (by simp [hg])) (by rw [functionNames_snoc]; simpa using hnames)
    have hall := (hgap.append hfunction).append hrest
    simpa [functionsLines] using hall

/-! ### Reading exports -/

/-- The exports known after reading the lines of more of them. -/
def mergeExports (known es : List Text) : List Text :=
  es.foldl (fun known e => if known.contains (stripComma e) then known else known ++ [stripComma e])
    known

lemma mergeExports_cons (known : List Text) (e : Text) (es : List Text) :
    mergeExports known (e :: es) = mergeExports
      (if known.contains (stripComma e) then known else known ++ [stripComma e]) es := rfl

lemma addExport_eq (m : Module) (e : Text) : m.addExport e =
    { m with exports := if m.exports.contains e then m.exports else m.exports ++ [e] } := by
  unfold Module.addExport
  split_ifs <;> rfl

lemma leads_exports {r : Module.Reading} (hr : r.current = none) {es : List Text}
    (h : ∀ e ∈ es, LineWord e) :
    Leads r (exportLines es)
      { r with module := { r.module with exports := mergeExports r.module.exports es } } := by
  induction es generalizing r with
  | nil => exact leads_nil r
  | cons e es ih =>
    have hfirst := leads_single (push_export hr (h e (by simp)))
    have hrest := ih (r := { r with module := r.module.addExport (stripComma e) }) hr
      fun x hx => h x (by simp [hx])
    rw [addExport_eq] at hfirst hrest
    exact hfirst.append hrest

/-- Every export that is read was written, up to a comma at its end. -/
lemma mem_mergeExports {known es : List Text} {x : Text} (h : x ∈ mergeExports known es) :
    x ∈ known ∨ ∃ e ∈ es, x = stripComma e := by
  induction es generalizing known with
  | nil => exact .inl h
  | cons e es ih =>
    rw [mergeExports_cons] at h
    rcases ih h with hold | ⟨y, hy, rfl⟩
    · split_ifs at hold
      · exact .inl hold
      · rcases List.mem_append.mp hold with hold | hold
        · exact .inl hold
        · exact .inr ⟨e, by simp, List.mem_singleton.mp hold⟩
    · exact .inr ⟨y, by simp [hy], rfl⟩

/-- New exports without a comma at their end are all added. -/
lemma mergeExports_of_distinct {known es : List Text} (h : ∀ e ∈ es, stripComma e = e)
    (hnodup : (known ++ es).Nodup) : mergeExports known es = known ++ es := by
  induction es generalizing known with
  | nil => simp [mergeExports]
  | cons e es ih =>
    have hnew : e ∉ known := fun hmem => List.disjoint_of_nodup_append hnodup hmem (by simp)
    rw [mergeExports_cons, h e (by simp), if_neg (by simpa using hnew),
      ih (fun x hx => h x (by simp [hx])) (by simpa using hnodup)]
    simp

/-- An export that ends in a comma can only come from one with a further comma. -/
lemma append_comma_mem {es : List Text} (heq : mergeExports [] es = es) {s : Text}
    (hs : s ++ [byte ','] ∈ es) : s ++ [byte ','] ++ [byte ','] ∈ es := by
  rw [← heq] at hs
  rcases mem_mergeExports hs with hnone | ⟨e, he, hstrip⟩
  · cases hnone
  · by_cases hcomma : ∃ u, e = u ++ [byte ',']
    · obtain ⟨u, rfl⟩ := hcomma
      rw [stripComma_append_comma] at hstrip
      rwa [hstrip]
    · rw [stripComma_of_not hcomma] at hstrip
      exact absurd ⟨s, hstrip.symm⟩ hcomma

/-- Distinct exports are read as they were written exactly if none of them ends in a comma. -/
lemma mergeExports_eq_iff {es : List Text} (hnodup : es.Nodup) :
    mergeExports [] es = es ↔ ∀ e ∈ es, ¬∃ s, e = s ++ [byte ','] := by
  constructor
  · rintro heq _ he ⟨s, rfl⟩
    -- commas could be added for ever
    have hlonger : ∀ n, ∃ u, u ++ [byte ','] ∈ es ∧ n ≤ u.length := by
      intro n
      induction n with
      | zero => exact ⟨s, he, Nat.zero_le _⟩
      | succ n ih =>
        obtain ⟨u, hu, hlength⟩ := ih
        exact ⟨u ++ [byte ','], append_comma_mem heq hu, by simpa using hlength⟩
    obtain ⟨u, hu, hlength⟩ := hlonger es.flatten.length
    have hle := (List.sublist_flatten_of_mem hu).length_le
    simp only [List.length_append, List.length_singleton] at hle
    omega
  · intro h
    exact mergeExports_of_distinct (fun e he => stripComma_of_not (h e he)) (by simpa using hnodup)

/-! ### Mistakes -/

/-- No line takes a mistake back. -/
lemma mistakes_suffix_push (r : Module.Reading) (line : Nat) (t : Text) :
    r.mistakes <:+ (r.push line t).mistakes := by
  have hfail : ∀ m, r.mistakes <:+ (r.fail line m).mistakes := fun m => List.suffix_cons _ _
  have hsame : r.mistakes <:+ r.mistakes := List.suffix_rfl
  have htop : ∀ ws, r.mistakes <:+ (r.topLevel line ws).mistakes := by
    intro ws
    unfold Module.Reading.topLevel
    repeat' split
    all_goals first | exact hsame | exact hfail _
  have hinside : ∀ f ws, r.mistakes <:+ (r.inFunction line f ws).mistakes := by
    intro f ws
    unfold Module.Reading.inFunction
    repeat' split
    all_goals first | exact hsame | exact hfail _
  unfold Module.Reading.push
  repeat' split
  · exact hfail _
  · exact hsame
  · exact htop _
  · exact hinside _ _

lemma mistakes_suffix_pushAll (r : Module.Reading) (line : Nat) (ts : List Text) :
    r.mistakes <:+ (r.pushAll line ts).mistakes := by
  induction ts generalizing r line with
  | nil => exact List.suffix_rfl
  | cons t ts ih => exact (mistakes_suffix_push r line t).trans (ih _ _)

/-- An empty export leaves a mistake. -/
lemma mistakes_of_empty_export {r : Module.Reading} (hr : r.current = none) {es : List Text}
    (h : ∀ e ∈ es, e = [] ∨ LineWord e) (hempty : [] ∈ es) (line : Nat) :
    (r.pushAll line (exportLines es)).mistakes ≠ [] := by
  induction es generalizing r line with
  | nil => cases hempty
  | cons e es ih =>
    have hstep : r.pushAll line (exportLines (e :: es)) =
        (r.push line ("export " ++ e)).pushAll (line + 1) (exportLines es) := rfl
    rw [hstep]
    rcases h e (by simp) with rfl | he
    · rw [push_export_empty hr]
      intro hnone
      have hsuffix := mistakes_suffix_pushAll (r.fail line .usageExport) (line + 1) (exportLines es)
      rw [hnone] at hsuffix
      exact List.cons_ne_nil _ _ (List.suffix_nil.mp hsuffix)
    · have hrest : [] ∈ es := by
        rcases List.mem_cons.mp hempty with rfl | hmem
        · exact absurd rfl he.isWord.ne_nil
        · exact hmem
      rw [push_export hr he]
      exact ih (r := { r with module := r.module.addExport (stripComma e) }) hr
        (fun x hx => h x (by simp [hx])) hrest (line + 1)

/-! ### Reading a whole text -/

lemma newline_not_mem_join {ws : List Text} (h : ∀ w ∈ ws, LineWord w) :
    byte '\n' ∉ join " " ws := by
  induction ws with
  | nil => decide
  | cons w ws ih =>
    have hw := (h w (by simp)).noNewline
    by_cases hws : ws = []
    · subst hws
      simpa [join] using hw
    · have hrest := ih fun v hv => h v (by simp [hv])
      have hblank : byte '\n' ∉ Text.ofString " " := by decide
      rw [join_cons _ _ hws]
      simp only [List.mem_append, hw, hblank, hrest, or_self, not_false_eq_true]

lemma newline_not_mem_bodyLine {i : Instr} (h : LineSpelled i) : byte '\n' ∉ bodyLine i := by
  rcases h with ⟨name, rfl, hname⟩ | h
  · have hword := not_mem_of_isIdent hname (c := byte '\n') (by decide)
    have hcolon : byte '\n' ∉ [byte ':'] := by decide
    simp only [bodyLine, List.mem_append, hword, hcolon, or_self, not_false_eq_true]
  · have hwords := newline_not_mem_join (lineWord_instrWords h)
    have hblank : byte '\n' ∉ Text.ofString "  " := by decide
    rw [bodyLine_eq h]
    simp only [List.mem_append, hblank, hwords, or_self, not_false_eq_true]

lemma newline_not_mem_functionLines {f : Function} (hf : FunctionSpelled f) :
    ∀ l ∈ functionLines f, byte '\n' ∉ l := by
  have hfunc : byte '\n' ∉ Text.ofString "func " := by decide
  have hlocal : byte '\n' ∉ Text.ofString "  local " := by decide
  have hheader := (headerText_spec hf.name hf.params).2
  simp only [functionLines, List.mem_cons, List.mem_append, List.mem_map, List.not_mem_nil,
    or_false]
  rintro l (rfl | ⟨v, hv, rfl⟩ | ⟨i, hi, rfl⟩ | rfl)
  · simp only [List.mem_append, hfunc, hheader, or_self, not_false_eq_true]
  · have hvar := (hf.locals v hv).not_mem (c := byte '\n') (by decide) (by decide) (by decide)
    simp only [localLine, List.mem_append, hlocal, hvar, or_self, not_false_eq_true]
  · exact newline_not_mem_bodyLine (hf.body i hi)
  · decide

lemma newline_not_mem_functionsLines (first : Bool) {fs : List Function}
    (hfs : ∀ f ∈ fs, FunctionSpelled f) : ∀ l ∈ functionsLines first fs, byte '\n' ∉ l := by
  induction fs generalizing first with
  | nil => simp [functionsLines]
  | cons f fs ih =>
    simp only [functionsLines, List.mem_append]
    rintro l ((hl | hl) | hl)
    · cases first <;> simp at hl
      simp [hl]
    · exact newline_not_mem_functionLines (hfs f (by simp)) l hl
    · exact ih false (fun g hg => hfs g (by simp [hg])) l hl

lemma newline_not_mem_moduleLines {m : Module} (hm : ModuleSpelled m) {fs : List Function}
    (hfs : ∀ f ∈ fs, FunctionSpelled f) : ∀ l ∈ moduleLines m fs, byte '\n' ∉ l := by
  have hword : ∀ {w : Text}, w = [] ∨ LineWord w → byte '\n' ∉ w := by
    rintro w (rfl | hw)
    · simp
    · exact hw.noNewline
  have hmodule : byte '\n' ∉ Text.ofString "module " := by decide
  have hexport : byte '\n' ∉ Text.ofString "export " := by decide
  simp only [moduleLines, List.mem_append]
  rintro l (hl | hl | hl)
  · unfold nameLines at hl
    split_ifs at hl
    · cases hl
    · rw [List.mem_singleton.mp hl]
      simp only [List.mem_append, hmodule, hword hm.name, or_self, not_false_eq_true]
  · obtain ⟨e, he, rfl⟩ := List.mem_map.mp hl
    simp only [List.mem_append, hexport, hword (hm.exports e he), or_self, not_false_eq_true]
  · exact newline_not_mem_functionsLines _ hfs l hl

lemma leads_name {name : Text} (h : name = [] ∨ LineWord name) :
    Leads {} (nameLines name) { module := { name } } := by
  rcases h with rfl | h
  · exact leads_nil _
  · have hne : ¬name.isEmpty := by simpa using h.isWord.ne_nil
    rw [nameLines, if_neg hne]
    exact leads_single (push_name rfl h)

/-- A module that can be spelled has functions in all its slots. -/
lemma ModuleSpelled.exists_functions {m : Module} (hm : ModuleSpelled m) :
    ∃ fs : List Function, m.functions = fs.map some ∧ (∀ f ∈ fs, FunctionSpelled f) ∧
      (fs.map Function.name).Nodup := by
  have hslots : ∀ slots : List (Option Function),
      (∀ slot ∈ slots, ∃ f, slot = some f ∧ FunctionSpelled f) →
      ∃ fs : List Function, slots = fs.map some ∧ ∀ f ∈ fs, FunctionSpelled f := by
    intro slots h
    induction slots with
    | nil => exact ⟨[], rfl, by simp⟩
    | cons slot slots ih =>
      obtain ⟨f, rfl, hf⟩ := h slot (by simp)
      obtain ⟨fs, rfl, hfs⟩ := ih fun s hs => h s (by simp [hs])
      exact ⟨f :: fs, rfl, by simpa using ⟨hf, hfs⟩⟩
  obtain ⟨fs, heq, hfs⟩ := hslots m.functions hm.functions
  have hnames := hm.functionsDistinct
  rw [functionNames, heq] at hnames
  exact ⟨fs, heq, hfs, by simpa using hnames⟩

/-- What reading makes of the lines of a module without an empty export. -/
lemma read_unlines {m : Module} (hm : ModuleSpelled m) (hempty : [] ∉ m.exports)
    {fs : List Function}
    (heq : m.functions = fs.map some) (hfs : ∀ f ∈ fs, FunctionSpelled f)
    (hnames : (fs.map Function.name).Nodup) :
    Module.read (unlines (moduleLines m fs)) =
      .ok { m with exports := mergeExports [] m.exports } := by
  have hexports : ∀ e ∈ m.exports, LineWord e := by
    intro e he
    rcases hm.exports e he with rfl | hword
    · exact absurd he hempty
    · exact hword
  have hhead := (leads_name hm.name).append (leads_exports rfl hexports)
  have hbody := leads_functions
    (r := { module := { name := m.name, exports := mergeExports [] m.exports } }) rfl
    m.header.isEmpty hfs (by simpa [functionNames] using hnames)
  rw [List.nil_append, ← heq] at hbody
  have hlast := leads_single
    (push_empty { module := { m with exports := mergeExports [] m.exports } })
  have hall := (hhead.append hbody).append hlast
  rw [Module.read, splitOn_unlines (newline_not_mem_moduleLines hm hfs), moduleLines,
    ← List.append_assoc, hall 1]
  rfl

lemma read_unlines_ne_ok {m : Module} (hm : ModuleSpelled m) (hempty : [] ∈ m.exports)
    {fs : List Function} (hfs : ∀ f ∈ fs, FunctionSpelled f) (m' : Module) :
    Module.read (unlines (moduleLines m fs)) ≠ .ok m' := by
  intro hread
  rw [Module.read, splitOn_unlines (newline_not_mem_moduleLines hm hfs)] at hread
  obtain ⟨-, hmistakes, -⟩ := finish_eq_ok hread
  rw [moduleLines, List.append_assoc, pushAll_append, leads_name hm.name, List.append_assoc,
    pushAll_append] at hmistakes
  have hsuffix := mistakes_suffix_pushAll
    (({ module := { name := m.name } } : Module.Reading).pushAll (1 + (nameLines m.name).length)
      (exportLines m.exports)) (1 + (nameLines m.name).length + (exportLines m.exports).length)
    (functionsLines m.header.isEmpty fs ++ [[]])
  -- what the exports left behind is still there after the functions
  rw [hmistakes] at hsuffix
  exact mistakes_of_empty_export rfl hm.exports hempty _ (List.suffix_nil.mp hsuffix)

/-- A module that can be spelled has a text. It is read as the module up to the commas of exports,
or not at all if an export is empty. -/
lemma ModuleSpelled.read_text {m : Module} (hm : ModuleSpelled m) :
    ∃ t, m.text? = some t ∧
      ([] ∉ m.exports → Module.read t = .ok { m with exports := mergeExports [] m.exports }) ∧
      ([] ∈ m.exports → ∀ m', Module.read t ≠ .ok m') := by
  obtain ⟨fs, heq, hfs, hnames⟩ := hm.exists_functions
  exact ⟨_, text?_eq heq, fun hempty => read_unlines hm hempty heq hfs hnames,
    fun hempty => read_unlines_ne_ok hm hempty hfs⟩

end StackCode.Proofs
