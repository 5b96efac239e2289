import StackCode.Canonical
import StackCode.Proofs.NumberBytes
import StackCode.Proofs.Renaming
import StackCode.Proofs.Validity

/-!
# Reading the canonical form

The canonical form needs no separators: from texts that are equal, the parts at the front can be
taken off one by one, and they agree in everything that the form writes. What it does not write are
names of variables and labels and types, so modules with one form are alike and compile to one
program.
-/

namespace StackCode.Proofs

open Canonical

/-! ### Numbers, texts and values -/

/-- A text whose length has four bytes. -/
def Short (t : Text) : Prop := t.length < 2 ^ 32

lemma long_append_inj {n n' : Nat} {r r' : Text} (hn : n < 2 ^ 32) (hn' : n' < 2 ^ 32)
    (h : long n ++ r = long n' ++ r') : n = n' ∧ r = r' :=
  bigEndianBytes_append_inj (by omega) (by omega) h

lemma word_append_inj {n n' : Nat} {r r' : Text} (hn : n < 65536) (hn' : n' < 65536)
    (h : word n ++ r = word n' ++ r') : n = n' ∧ r = r' :=
  bigEndianBytes_append_inj (by omega) (by omega) h

lemma wide_append_inj {n n' : UInt64} {r r' : Text} (h : wide n ++ r = wide n' ++ r') :
    n = n' ∧ r = r' := by
  have hn := n.toNat_lt
  have hn' := n'.toNat_lt
  obtain ⟨heq, hrest⟩ := bigEndianBytes_append_inj (by omega) (by omega) h
  exact ⟨UInt64.toNat_inj.mp heq, hrest⟩

lemma string_append_inj {t u r r' : Text} (ht : Short t) (hu : Short u)
    (h : string t ++ r = string u ++ r') : t = u ∧ r = r' := by
  unfold string at h
  rw [List.append_assoc, List.append_assoc] at h
  obtain ⟨hlength, hrest⟩ := long_append_inj ht hu h
  exact List.append_inj hrest hlength

/-- A value whose content has a length of four bytes. -/
def ShortValue : Value → Prop
  | .str s => Short s
  | _ => True

lemma value_append_inj {v w : Value} {r r' : Text} (hv : ShortValue v) (hw : ShortValue w)
    (h : value v ++ r = value w ++ r') : v = w ∧ r = r' := by
  cases v with
  | null =>
    cases w with
    | null => exact ⟨rfl, by simpa [value] using h⟩
    | _ => simp [value] at h
  | bool b =>
    cases w with
    | bool c => cases b <;> cases c <;> simp_all [value]
    | _ => simp [value] at h
  | int n =>
    cases w with
    | int k =>
      obtain ⟨heq, hrest⟩ := wide_append_inj (List.cons.inj h).2
      exact ⟨congrArg (fun u => Value.int (Int64.ofUInt64 u)) heq, hrest⟩
    | _ => simp [value] at h
  | float x =>
    cases w with
    | float y =>
      obtain ⟨heq, hrest⟩ := wide_append_inj (List.cons.inj h).2
      exact ⟨congrArg (fun b => Value.float ⟨b⟩) heq, hrest⟩
    | _ => simp [value] at h
  | str s =>
    cases w with
    | str t =>
      obtain ⟨heq, hrest⟩ := string_append_inj hv hw (List.cons.inj h).2
      exact ⟨by rw [heq], hrest⟩
    | _ => simp [value] at h

lemma binOp_code_inj {op op' : BinOp} (h : op.code = op'.code) : op = op' := by
  have hinverse : ∀ o : BinOp, BinOp.ofCode o.code = o := by
    intro o
    cases o with
    | undefined code hcode => exact dif_pos hcode
    | _ => rfl
  rw [← hinverse op, h, hinverse]

lemma unOp_code_inj {op op' : UnOp} (h : op.code = op'.code) : op = op' := by
  have hinverse : ∀ o : UnOp, UnOp.ofCode o.code = o := by
    intro o
    cases o with
    | undefined code hcode => exact dif_pos hcode
    | _ => rfl
  rw [← hinverse op, h, hinverse]

/-! ### Names -/

/-- Names that the form writes alike in functions with these variables: declared names with one
slot, or one name that neither declares. -/
def SameSlot (vs ws : List Text) (a b : Text) : Prop :=
  vs.idxOf? a = ws.idxOf? b ∧ (vs.idxOf? a = none → a = b)

lemma slot_append_inj {vs ws : List Text} (hvs : vs.length < 65536) (hws : ws.length < 65536)
    {a b r r' : Text} (ha : Short a) (hb : Short b) (h : slot vs a ++ r = slot ws b ++ r') :
    SameSlot vs ws a b ∧ r = r' := by
  unfold slot at h
  unfold SameSlot
  cases hi : vs.idxOf? a with
  | none =>
    cases hj : ws.idxOf? b with
    | none =>
      simp only [hi, hj, List.append_assoc, List.append_cancel_left_eq, List.cons_append] at h
      obtain ⟨heq, hrest⟩ := string_append_inj ha hb (List.cons.inj h).2
      exact ⟨⟨rfl, fun _ => heq⟩, hrest⟩
    | some j =>
      have hlt := (List.idxOf?_eq_some_iff.mp hj).1
      simp only [hi, hj, List.append_assoc] at h
      have hescape := (word_append_inj (by omega) (by omega) h).1
      omega
  | some i =>
    have hlti := (List.idxOf?_eq_some_iff.mp hi).1
    cases hj : ws.idxOf? b with
    | none =>
      simp only [hi, hj, List.append_assoc] at h
      have hescape := (word_append_inj (by omega) (by omega) h).1
      omega
    | some j =>
      have hltj := (List.idxOf?_eq_some_iff.mp hj).1
      simp only [hi, hj] at h
      obtain ⟨heq, hrest⟩ := word_append_inj (by omega) (by omega) h
      exact ⟨⟨by rw [heq], by simp⟩, hrest⟩

/-- Tables that number the labels of two bodies. -/
structure LabelTables (ks ls : List Text) : Prop where
  length_eq : ks.length = ls.length
  nodup_left : ks.Nodup
  nodup_right : ls.Nodup

/-- Labels with one number. -/
def SameNumber (ks ls : List Text) (a b : Text) : Prop :=
  ∃ i : Nat, ks[i]? = some a ∧ ls[i]? = some b

lemma LabelTables.biUnique {ks ls : List Text} (h : LabelTables ks ls) :
    Relator.BiUnique (SameNumber ks ls) := by
  constructor
  · rintro a b c ⟨i, hai, hci⟩ ⟨j, hbj, hcj⟩
    have hlt := (List.getElem?_eq_some_iff.mp hci).1
    have hij : i = j := (List.getElem?_inj hlt h.nodup_right).mp (hci.trans hcj.symm)
    subst hij
    exact Option.some.inj (hai.symm.trans hbj)
  · rintro a b c ⟨i, hai, hbi⟩ ⟨j, haj, hcj⟩
    have hlt := (List.getElem?_eq_some_iff.mp hai).1
    have hij : i = j := (List.getElem?_inj hlt h.nodup_left).mp (hai.trans haj.symm)
    subst hij
    exact Option.some.inj (hbi.symm.trans hcj)

lemma label_le (ks : List Text) (a : Text) : (label ks a).1 ≤ ks.length := by
  unfold label
  split
  · exact le_trans (Nat.sub_le _ _) (Nat.sub_le _ _)
  · exact le_rfl

/-- Tables that number at least the labels that others number, and those in the same way. -/
structure Extends (ks ls ks' ls' : List Text) : Prop where
  tables : LabelTables ks' ls'
  grows : ∀ a b, SameNumber ks ls a b → SameNumber ks' ls' a b

lemma LabelTables.refl {ks ls : List Text} (h : LabelTables ks ls) : Extends ks ls ks ls :=
  ⟨h, fun _ _ hab => hab⟩

/-- Labels that get one number have it in the tables that follow. -/
lemma LabelTables.label {ks ls : List Text} (h : LabelTables ks ls) {a b : Text}
    (hnumber : (label ks a).1 = (label ls b).1) :
    Extends ks ls (label ks a).2 (label ls b).2 ∧
      SameNumber (label ks a).2 (label ls b).2 a b := by
  have hlength := h.length_eq
  unfold Canonical.label at hnumber ⊢
  cases hi : ks.idxOf? a with
  | none =>
    cases hj : ls.idxOf? b with
    | none =>
      refine ⟨⟨⟨by simp [hlength], ?_, ?_⟩, ?_⟩, 0, rfl, rfl⟩
      · exact List.nodup_cons.mpr ⟨List.idxOf?_eq_none_iff.mp hi, h.nodup_left⟩
      · exact List.nodup_cons.mpr ⟨List.idxOf?_eq_none_iff.mp hj, h.nodup_right⟩
      · rintro c d ⟨k, hc, hd⟩
        exact ⟨k + 1, hc, hd⟩
    | some j =>
      have hlt := (List.idxOf?_eq_some_iff.mp hj).1
      simp only [hi, hj] at hnumber
      omega
  | some i =>
    obtain ⟨hlti, hgeti, -⟩ := List.idxOf?_eq_some_iff.mp hi
    cases hj : ls.idxOf? b with
    | none =>
      simp only [hi, hj] at hnumber
      omega
    | some j =>
      obtain ⟨hltj, hgetj, -⟩ := List.idxOf?_eq_some_iff.mp hj
      simp only [hi, hj] at hnumber
      have hij : i = j := by omega
      subst hij
      refine ⟨h.refl, i, ?_, ?_⟩
      · rw [List.getElem?_eq_getElem hlti, hgeti]
      · rw [List.getElem?_eq_getElem hltj, hgetj]

/-! ### Instructions -/

/-- The names that correspond where the form is the same. -/
def formNaming (vs ws ks ls : List Text) : Naming := ⟨SameSlot vs ws, SameNumber ks ls⟩

/-- An instruction whose texts have lengths of four bytes, as far as they are written. -/
def ShortInstr : Instr → Prop
  | .const v => ShortValue v
  | .load name | .store name | .declare name _ => Short name
  | .assign name inner => Short name ∧ ShortInstr inner
  | .call function _ => Short function
  | .newObject name | .getProp name | .setProp name => Short name
  | _ => True

lemma length_instr_le (vs ks : List Text) (i : Instr) :
    (instr vs ks i).2.length ≤ ks.length + 1 := by
  have hlabel : ∀ a, (label ks a).2.length ≤ ks.length + 1 := by
    intro a
    unfold label
    split <;> simp
  induction i with
  | assign name inner ih => exact ih
  | jump name => exact hlabel name
  | jumpIf name => exact hlabel name
  | label name => exact hlabel name
  | _ => exact Nat.le_succ _

lemma instr_append_inj {vs ws : List Text} (hvs : vs.length < 65536) (hws : ws.length < 65536)
    {i j : Instr} (hi : ShortInstr i) (hj : ShortInstr j) {ks ls : List Text}
    (hkl : LabelTables ks ls) (hcount : ks.length < 2 ^ 32) {r r' : Text}
    (h : (instr vs ks i).1 ++ r = (instr ws ls j).1 ++ r') :
    Extends ks ls (instr vs ks i).2 (instr ws ls j).2 ∧
      Alike (formNaming vs ws (instr vs ks i).2 (instr ws ls j).2) i j ∧ r = r' := by
  have numbers : ∀ a b, long (label ks a).1 ++ r = long (label ls b).1 ++ r' →
      (label ks a).1 = (label ls b).1 ∧ r = r' := by
    intro a b hlong
    have ha := label_le ks a
    have hb := label_le ls b
    have hlength := hkl.length_eq
    exact long_append_inj (by omega) (by omega) hlong
  induction i generalizing j with
  | missing =>
    cases j with
    | missing => exact ⟨hkl.refl, .missing, (List.cons.inj h).2⟩
    | _ => simp [instr] at h
  | const v =>
    cases j with
    | const w =>
      obtain ⟨rfl, hrest⟩ := value_append_inj hi hj (List.cons.inj h).2
      exact ⟨hkl.refl, .const v, hrest⟩
    | _ => simp [instr] at h
  | load a =>
    cases j with
    | load b =>
      obtain ⟨hslot, hrest⟩ := slot_append_inj hvs hws hi hj (List.cons.inj h).2
      exact ⟨hkl.refl, .load hslot, hrest⟩
    | _ => simp [instr] at h
  | store a =>
    cases j with
    | store b =>
      obtain ⟨hslot, hrest⟩ := slot_append_inj hvs hws hi hj (List.cons.inj h).2
      exact ⟨hkl.refl, .store hslot, hrest⟩
    | _ => simp [instr] at h
  | assign a i ih =>
    cases j with
    | assign b j =>
      have hparts : slot vs a ++ (instr vs ks i).1 ++ r = slot ws b ++ (instr ws ls j).1 ++ r' :=
        (List.cons.inj h).2
      rw [List.append_assoc, List.append_assoc] at hparts
      obtain ⟨hslot, hinner⟩ := slot_append_inj hvs hws hi.1 hj.1 hparts
      obtain ⟨hextends, halike, hrest⟩ := ih hi.2 hj.2 hinner
      exact ⟨hextends, .assign hslot halike, hrest⟩
    | _ => simp [instr] at h
  | declare a t =>
    cases j with
    | declare b u =>
      obtain ⟨hslot, hrest⟩ := slot_append_inj hvs hws hi hj (List.cons.inj h).2
      exact ⟨hkl.refl, .declare hslot t u, hrest⟩
    | _ => simp [instr] at h
  | binary op =>
    cases j with
    | binary op' =>
      obtain ⟨hcode, hrest⟩ := List.cons.inj (List.cons.inj h).2
      rw [binOp_code_inj hcode]
      exact ⟨hkl.refl, .binary op', hrest⟩
    | _ => simp [instr] at h
  | unary op =>
    cases j with
    | unary op' =>
      obtain ⟨hcode, hrest⟩ := List.cons.inj (List.cons.inj h).2
      rw [unOp_code_inj hcode]
      exact ⟨hkl.refl, .unary op', hrest⟩
    | _ => simp [instr] at h
  | call function argc =>
    cases j with
    | call function' argc' =>
      have hparts : string function ++ integer argc ++ r = string function' ++ integer argc' ++ r' :=
        (List.cons.inj h).2
      rw [List.append_assoc, List.append_assoc] at hparts
      obtain ⟨rfl, hargc⟩ := string_append_inj hi hj hparts
      obtain ⟨heq, hrest⟩ := wide_append_inj hargc
      exact ⟨hkl.refl, .call function heq, hrest⟩
    | _ => simp [instr] at h
  | ret =>
    cases j with
    | ret => exact ⟨hkl.refl, .ret, (List.cons.inj h).2⟩
    | _ => simp [instr] at h
  | jump a =>
    cases j with
    | jump b =>
      obtain ⟨hnumber, hrest⟩ := numbers a b (List.cons.inj h).2
      obtain ⟨hextends, hsame⟩ := hkl.label hnumber
      exact ⟨hextends, .jump hsame, hrest⟩
    | _ => simp [instr] at h
  | jumpIf a =>
    cases j with
    | jumpIf b =>
      obtain ⟨hnumber, hrest⟩ := numbers a b (List.cons.inj h).2
      obtain ⟨hextends, hsame⟩ := hkl.label hnumber
      exact ⟨hextends, .jumpIf hsame, hrest⟩
    | _ => simp [instr] at h
  | label a =>
    cases j with
    | label b =>
      obtain ⟨hnumber, hrest⟩ := numbers a b (List.cons.inj h).2
      obtain ⟨hextends, hsame⟩ := hkl.label hnumber
      exact ⟨hextends, .label hsame, hrest⟩
    | _ => simp [instr] at h
  | newArray t size =>
    cases j with
    | newArray u size' =>
      obtain ⟨heq, hrest⟩ := wide_append_inj (List.cons.inj h).2
      exact ⟨hkl.refl, .newArray t u heq, hrest⟩
    | _ => simp [instr] at h
  | arrayLoad =>
    cases j with
    | arrayLoad => exact ⟨hkl.refl, .arrayLoad, (List.cons.inj h).2⟩
    | _ => simp [instr] at h
  | arrayStore =>
    cases j with
    | arrayStore => exact ⟨hkl.refl, .arrayStore, (List.cons.inj h).2⟩
    | _ => simp [instr] at h
  | newObject className =>
    cases j with
    | newObject className' =>
      obtain ⟨rfl, hrest⟩ := string_append_inj hi hj (List.cons.inj h).2
      exact ⟨hkl.refl, .newObject className, hrest⟩
    | _ => simp [instr] at h
  | getProp name =>
    cases j with
    | getProp name' =>
      obtain ⟨rfl, hrest⟩ := string_append_inj hi hj (List.cons.inj h).2
      exact ⟨hkl.refl, .getProp name, hrest⟩
    | _ => simp [instr] at h
  | setProp name =>
    cases j with
    | setProp name' =>
      obtain ⟨rfl, hrest⟩ := string_append_inj hi hj (List.cons.inj h).2
      exact ⟨hkl.refl, .setProp name, hrest⟩
    | _ => simp [instr] at h

/-! ### Bodies -/

/-- The form of a body, instruction by instruction. -/
def bodyForm (vars : List Text) : List Text → List Instr → Text
  | _, [] => []
  | labels, i :: is => (instr vars labels i).1 ++ bodyForm vars (instr vars labels i).2 is

lemma flatten_body (vars : List Text) (is : List Instr) :
    (body vars is).reverse.flatten = bodyForm vars [] is := by
  suffices hgen : ∀ done labels, (is.foldl (fun (done, labels) i =>
      ((instr vars labels i).1 :: done, (instr vars labels i).2)) (done, labels)).1.reverse.flatten =
      (done.reverse.flatten : Text) ++ bodyForm vars labels is from hgen [] []
  induction is with
  | nil => simp [bodyForm]
  | cons i is ih =>
    intro done labels
    rw [List.foldl_cons, ih, bodyForm]
    simp

lemma bodyForm_append_inj {vs ws : List Text} (hvs : vs.length < 65536) (hws : ws.length < 65536)
    {is js : List Instr} (his : ∀ i ∈ is, ShortInstr i) (hjs : ∀ j ∈ js, ShortInstr j)
    (hlength : is.length = js.length) {ks ls : List Text} (hkl : LabelTables ks ls)
    (hcount : ks.length + is.length < 2 ^ 32) {r r' : Text}
    (h : bodyForm vs ks is ++ r = bodyForm ws ls js ++ r') :
    ∃ ks' ls', Extends ks ls ks' ls' ∧ List.Forall₂ (Alike (formNaming vs ws ks' ls')) is js ∧
      r = r' := by
  induction is generalizing js ks ls with
  | nil =>
    cases js with
    | nil => exact ⟨ks, ls, hkl.refl, .nil, h⟩
    | cons j js => cases hlength
  | cons i is ih =>
    cases js with
    | nil => cases hlength
    | cons j js =>
      rw [bodyForm, bodyForm, List.append_assoc, List.append_assoc] at h
      rw [List.length_cons] at hcount
      have hgrowth := length_instr_le vs ks i
      obtain ⟨hfirst, halike, hrests⟩ := instr_append_inj hvs hws (his i (by simp))
        (hjs j (by simp)) hkl (by omega) h
      obtain ⟨ks', ls', hlater, halikes, hrest⟩ := ih (fun i hi => his i (by simp [hi]))
        (fun j hj => hjs j (by simp [hj])) (Nat.succ.inj hlength) hfirst.tables (by omega) hrests
      refine ⟨ks', ls', ⟨hlater.tables, fun a b hab => hlater.grows a b (hfirst.grows a b hab)⟩,
        .cons ?_ halikes, hrest⟩
      exact halike.mono (fun _ _ hab => hab) hlater.grows

/-! ### Functions -/

/-- A function whose texts and body have lengths of four bytes. -/
structure ShortFunction (f : Function) : Prop where
  name : Short f.name
  body : f.body.length < 2 ^ 32
  instr : ∀ i ∈ f.body, ShortInstr i

/-- Functions with one form. -/
structure SameForm (f g : Function) : Prop where
  name : f.name = g.name
  params : f.params.length = g.params.length
  locals : f.locals.length = g.locals.length
  body : ∃ ks ls, LabelTables ks ls ∧
    List.Forall₂ (Alike (formNaming (f.vars.map Var.name) (g.vars.map Var.name) ks ls)) f.body g.body

lemma function_append_inj {f g : Function} (hf : ShortFunction f) (hg : ShortFunction g)
    (hvars : f.vars.length < 65536) (hparams : g.params.length < 65536)
    (hlocals : g.locals.length < 65536) {r r' : Text}
    (h : function (some f) ++ r = function (some g) ++ r') : SameForm f g ∧ r = r' := by
  have hf' : f.vars.length = f.params.length + f.locals.length := List.length_append
  have hg' : g.vars.length = g.params.length + g.locals.length := List.length_append
  simp only [function, flatten_body, List.append_assoc, List.cons_append, List.cons.injEq,
    true_and] at h
  obtain ⟨hname, hafterName⟩ := string_append_inj hf.name hg.name h
  obtain ⟨hps, hafterParams⟩ := word_append_inj (by omega) hparams hafterName
  obtain ⟨hls, hafterLocals⟩ := word_append_inj (by omega) hlocals hafterParams
  obtain ⟨hcount, hbodies⟩ := long_append_inj hf.body hg.body hafterLocals
  have htables : LabelTables [] [] := ⟨rfl, .nil, .nil⟩
  have hlength := hf.body
  obtain ⟨ks, ls, hextends, halike, hrest⟩ := bodyForm_append_inj
    (by rw [List.length_map]; omega) (by rw [List.length_map]; omega) hf.instr hg.instr hcount
    htables (by rw [List.length_nil]; omega) hbodies
  exact ⟨⟨hname, hps, hls, ks, ls, hextends.tables, halike⟩, hrest⟩

/-- An empty slot reads like the start of a function, if the name of that function is long enough
for the first byte of its length to be the mark of an empty slot. -/
lemma le_length_of_empty_slot {f : Function} (hf : ShortFunction f) {r r' : Text}
    (h : function (some f) ++ r = function none ++ r') : 0x53000000 ≤ f.name.length := by
  have hname := hf.name
  unfold Short at hname
  simp only [function, string, long, Text.bigEndianBytes, Text.littleEndianBytes, List.reverse_cons,
    List.reverse_nil, List.nil_append, List.cons_append, List.append_assoc, List.cons.injEq,
    true_and] at h
  have hbyte := congrArg UInt8.toNat h.1
  rw [Nat.toUInt8, UInt8.toNat_ofNat'] at hbyte
  have hmark : (0x53 : UInt8).toNat = 0x53 := rfl
  omega

lemma functions_append_inj {fs : List Function} {slots : List (Option Function)}
    (hfs : ∀ f ∈ fs, ShortFunction f) (hvars : ∀ f ∈ fs, f.vars.length < 65536)
    (hslots : ∀ g, some g ∈ slots → ShortFunction g)
    (hcounts : ∀ g, some g ∈ slots → g.params.length < 65536 ∧ g.locals.length < 65536)
    (hlength : fs.length = slots.length) {r r' : Text}
    (h : ((fs.map some).map function).flatten ++ r = (slots.map function).flatten ++ r') :
    (∃ gs, slots = gs.map some ∧ List.Forall₂ SameForm fs gs ∧ r = r') ∨
      none ∈ slots ∧ ∃ f ∈ fs, 0x53000000 ≤ f.name.length := by
  induction fs generalizing slots with
  | nil =>
    cases slots with
    | nil => exact .inl ⟨[], rfl, .nil, h⟩
    | cons slot slots => cases hlength
  | cons f fs ih =>
    cases slots with
    | nil => cases hlength
    | cons slot slots =>
      simp only [List.map_cons, List.flatten_cons, List.append_assoc] at h
      cases slot with
      | none => exact .inr ⟨by simp, f, by simp, le_length_of_empty_slot (hfs f (by simp)) h⟩
      | some g =>
        have hcount := hcounts g (by simp)
        obtain ⟨hform, hrests⟩ := function_append_inj (hfs f (by simp)) (hslots g (by simp))
          (hvars f (by simp)) hcount.1 hcount.2 h
        have hlater := ih (fun f hf => hfs f (by simp [hf])) (fun f hf => hvars f (by simp [hf]))
          (fun g hg => hslots g (by simp [hg])) (fun g hg => hcounts g (by simp [hg]))
          (Nat.succ.inj hlength) hrests
        rcases hlater with ⟨gs, rfl, hforms, hrest⟩ | ⟨hnone, f', hf', hlong⟩
        · exact .inl ⟨g :: gs, rfl, .cons hform hforms, hrest⟩
        · exact .inr ⟨by simp [hnone], f', by simp [hf'], hlong⟩

/-! ### Modules -/

/-- A module whose texts and lists have lengths of four bytes. -/
structure ShortModule (m : Module) : Prop where
  functions_lt : m.functions.length < 2 ^ 32
  function : ∀ f, some f ∈ m.functions → ShortFunction f
  exports_lt : m.exports.length < 2 ^ 32
  exports : ∀ name ∈ m.exports, Short name

lemma strings_append_inj {ts us : List Text} (hts : ∀ t ∈ ts, Short t) (hus : ∀ u ∈ us, Short u)
    (hlength : ts.length = us.length) {r r' : Text}
    (h : (ts.map string).flatten ++ r = (us.map string).flatten ++ r') : ts = us ∧ r = r' := by
  induction ts generalizing us with
  | nil =>
    cases us with
    | nil => exact ⟨rfl, h⟩
    | cons u us => cases hlength
  | cons t ts ih =>
    cases us with
    | nil => cases hlength
    | cons u us =>
      simp only [List.map_cons, List.flatten_cons, List.append_assoc] at h
      obtain ⟨rfl, hrests⟩ := string_append_inj (hts t (by simp)) (hus u (by simp)) h
      obtain ⟨rfl, hrest⟩ := ih (fun t ht => hts t (by simp [ht])) (fun u hu => hus u (by simp [hu]))
        (Nat.succ.inj hlength) hrests
      exact ⟨rfl, hrest⟩

/-- Modules with one canonical form have functions with one form, as long as no function has more
variables than the form counts; only an empty slot can be mistaken for a function. -/
lemma forms_of_canonical_eq {m m' : Module} {fs : List Function} (hm : ShortModule m)
    (hm' : ShortModule m') (hfs : m.functions = fs.map some)
    (hvars : ∀ f ∈ fs, f.vars.length < 65536)
    (hcounts : ∀ g, some g ∈ m'.functions → g.params.length < 65536 ∧ g.locals.length < 65536)
    (h : m.canonical = m'.canonical) :
    (∃ gs, m'.functions = gs.map some ∧ List.Forall₂ SameForm fs gs ∧ m.exports = m'.exports) ∨
      none ∈ m'.functions ∧ ∃ f ∈ fs, 0x53000000 ≤ f.name.length := by
  unfold Module.canonical at h
  simp only [List.append_assoc, List.cons_append, List.cons.injEq, true_and] at h
  obtain ⟨hlength, hparts⟩ := long_append_inj hm.functions_lt hm'.functions_lt h
  have hshort : ∀ f ∈ fs, ShortFunction f := by
    intro f hf
    apply hm.function
    rw [hfs]
    exact List.mem_map_of_mem hf
  rw [hfs, List.length_map] at hlength
  rw [hfs] at hparts
  rcases functions_append_inj hshort hvars hm'.function hcounts hlength hparts with
    ⟨gs, hgs, hforms, hrest⟩ | hempty
  · obtain ⟨hcount, hexports⟩ := long_append_inj hm.exports_lt hm'.exports_lt (List.cons.inj hrest).2
    rw [← List.append_nil (m.exports.map string).flatten,
      ← List.append_nil (m'.exports.map string).flatten] at hexports
    have hsame := (strings_append_inj hm.exports hm'.exports hcount hexports).1
    exact .inl ⟨gs, hgs, hforms, hsame⟩
  · exact .inr hempty

/-! ### Compilation -/

lemma SameForm.alike {f g : Function} (h : SameForm f g) (hf : (f.vars.map Var.name).Nodup)
    (hg : (g.vars.map Var.name).Nodup) : FunctionsAlike f g := by
  obtain ⟨ks, ls, htables, hbody⟩ := h.body
  refine ⟨h.name, h.params, h.locals, _, hbody, htables.biUnique, ?_⟩
  intro functions a b hab
  rw [slot?_eq_idxOf? hf, slot?_eq_idxOf? hg]
  exact hab.1

lemma forms_alike {fs gs : List Function} (h : List.Forall₂ SameForm fs gs)
    (hfs : ∀ f ∈ fs, (f.vars.map Var.name).Nodup) (hgs : ∀ g ∈ gs, (g.vars.map Var.name).Nodup) :
    List.Forall₂ FunctionsAlike fs gs := by
  induction h with
  | nil => exact .nil
  | @cons f g fs gs hfg _ ih =>
    apply List.Forall₂.cons
    · exact hfg.alike (hfs f (by simp)) (hgs g (by simp))
    · exact ih (fun f hf => hfs f (by simp [hf])) fun g hg => hgs g (by simp [hg])

lemma Alike.filled {n : Naming} {i j : Instr} (h : Alike n i j) (hi : Filled i) : Filled j := by
  constructor
  · exact fun hj => hi.1 (h.eq_missing_iff.mpr hj)
  · rintro name rfl
    cases h with
    | assign _ hinner =>
      cases hinner
      exact hi.2 _ rfl

lemma labelsOf_alike {n : Naming} {is js : List Instr} (h : List.Forall₂ (Alike n) is js) :
    List.Forall₂ n.label (labelsOf is) (labelsOf js) := by
  induction h with
  | nil => exact .nil
  | @cons i j is js hij _ ih =>
    rw [labelsOf_cons i, labelsOf_cons j]
    refine List.rel_append ?_ ih
    cases hij with
    | label hname => exact .cons hname .nil
    | _ => exact .nil

lemma FunctionsAlike.valid {f g : Function} (h : FunctionsAlike f g) (hf : ValidFunction f)
    (hvars : (g.vars.map Var.name).Nodup) : ValidFunction g := by
  obtain ⟨n, hbody, hlabels, -⟩ := h.body
  refine ⟨hvars, (List.rel_nodup hlabels (labelsOf_alike hbody)).mp hf.labels_nodup, ?_⟩
  intro j hj
  obtain ⟨k, hk, rfl⟩ := List.mem_iff_getElem.mp hj
  have hk' : k < f.body.length := hbody.length_eq ▸ hk
  exact (hbody.get hk' hk).filled (hf.filled _ (List.getElem_mem hk'))

lemma ModulesAlike.valid {m m' : Module} (h : ModulesAlike m m') (hm : Valid m)
    (hvars : ∀ g, some g ∈ m'.functions → (g.vars.map Var.name).Nodup) : Valid m' := by
  obtain ⟨fs, gs, hfs, hgs, halike, hexports⟩ := h
  have hnames : slotNames m'.functions = slotNames m.functions := by
    rw [hfs, hgs, slotNames_map_some, slotNames_map_some, names_alike halike]
  refine ⟨by simp [hgs], hnames ▸ hm.names_nodup, ?_, ?_⟩
  · intro g hg
    rw [hgs, List.mem_map_of_injective (Option.some_injective _)] at hg
    obtain ⟨k, hk, rfl⟩ := List.mem_iff_getElem.mp hg
    have hk' : k < fs.length := halike.length_eq ▸ hk
    apply (halike.get hk' hk).valid
    · exact hm.function _ (hfs ▸ List.mem_map_of_mem (List.getElem_mem hk'))
    · exact hvars _ (hgs ▸ List.mem_map_of_mem (List.getElem_mem hk))
  · rw [hnames, ← hexports]
    exact hm.exports

/-- The module that is emitted. -/
def prepared (optimize : Bool) (m : Module) : Module := if optimize then m.optimize.1 else m

lemma vars_le_of_compile {optimize : Bool} {m : Module} {p : Program}
    (h : (m.compile optimize).result = .ok p) {f : Function} (hf : some f ∈ m.functions) :
    f.vars.length ≤ 256 := by
  obtain ⟨-, hemit⟩ := compile_eq_ok h
  obtain ⟨fs, hfs, hp⟩ := emittedProgram_of_emit hemit
  have hvars : ∃ g ∈ fs, g.vars = f.vars := by
    cases optimize with
    | false =>
      have hmem : some f ∈ fs.map some := hfs ▸ hf
      exact ⟨f, (List.mem_map_of_injective (Option.some_injective _)).mp hmem, rfl⟩
    | true =>
      have hmem : some f.optimize.1 ∈ fs.map some := by
        rw [← hfs, if_pos rfl, functions_optimize]
        exact List.mem_map_of_mem hf
      exact ⟨_, (List.mem_map_of_injective (Option.some_injective _)).mp hmem, rfl⟩
  obtain ⟨g, hg, hsame⟩ := hvars
  obtain ⟨k, hk⟩ := List.getElem?_of_mem hg
  obtain ⟨r, -, hr⟩ := hp.exists_routine hk
  rw [← hsame]
  exact hr.slots_le

/-- Modules that differ in names only have one outcome. -/
lemma compile_alike {optimize : Bool} {m m' : Module} {p : Program} (h : ModulesAlike m m')
    (hvars : ∀ g, some g ∈ m'.functions → (g.vars.map Var.name).Nodup)
    (hfits : ∀ g, some g ∈ (prepared optimize m').functions → OperandsFit g.body)
    (hp : (m.compile optimize).result = .ok p) : m'.compile optimize = m.compile optimize := by
  obtain ⟨hproblems, hemit⟩ := compile_eq_ok hp
  have hvalid := h.valid (problems_eq_nil_iff.mp hproblems) hvars
  rw [compile_of_problems hproblems, compile_of_problems (problems_eq_nil_iff.mpr hvalid)]
  cases optimize with
  | false =>
    have hemit' := emit_alike h hfits hemit
    simp only [Bool.false_eq_true, if_false] at hemit hemit' ⊢
    rw [hemit, hemit']
  | true =>
    obtain ⟨halike, hstats⟩ := h.optimize
    have hemit' := emit_alike halike hfits hemit
    simp only [if_true] at hemit hemit' ⊢
    rw [hemit, hemit', hstats]

/-- A module that its canonical form describes: no slot is empty, and the variables of a function
have different names and are few enough to be counted in two bytes. -/
structure FormFaithful (m : Module) : Prop where
  filled : none ∉ m.functions
  vars_nodup : ∀ f, some f ∈ m.functions → (f.vars.map Var.name).Nodup
  params_lt : ∀ f, some f ∈ m.functions → f.params.length < 65536
  locals_lt : ∀ f, some f ∈ m.functions → f.locals.length < 65536

lemma formFaithful_of_compile {optimize : Bool} {m : Module} {p : Program}
    (h : (m.compile optimize).result = .ok p) : FormFaithful m := by
  have hvalid := problems_eq_nil_iff.mp (compile_eq_ok h).1
  have hvars : ∀ f, some f ∈ m.functions → f.params.length + f.locals.length ≤ 256 := by
    intro f hf
    have hle := vars_le_of_compile h hf
    rwa [Function.vars, List.length_append] at hle
  refine ⟨hvalid.filled, fun f hf => (hvalid.function f hf).vars_nodup, ?_, ?_⟩
  · intro f hf
    have hle := hvars f hf
    omega
  · intro f hf
    have hle := hvars f hf
    omega

/-- A module that compiles and one that its canonical form describes have functions with one form,
if the modules have one. -/
lemma forms_of_compile {optimize : Bool} {m m' : Module} {p : Program} (hm : ShortModule m)
    (hm' : ShortModule m') (hp : (m.compile optimize).result = .ok p) (hfaithful : FormFaithful m')
    (h : m.canonical = m'.canonical) :
    ∃ fs gs, m.functions = fs.map some ∧ m'.functions = gs.map some ∧ List.Forall₂ SameForm fs gs ∧
      m.exports = m'.exports := by
  obtain ⟨fs, hfs⟩ := exists_functions_of_filled (formFaithful_of_compile hp).filled
  have hcounted : ∀ f ∈ fs, f.vars.length < 65536 := by
    intro f hf
    have hle := vars_le_of_compile hp (hfs ▸ List.mem_map_of_mem hf)
    omega
  rcases forms_of_canonical_eq hm hm' hfs hcounted
    (fun g hg => ⟨hfaithful.params_lt g hg, hfaithful.locals_lt g hg⟩) h with
    ⟨gs, hgs, hforms, hexports⟩ | ⟨hempty, -⟩
  · exact ⟨fs, gs, hfs, hgs, hforms, hexports⟩
  · exact absurd hempty hfaithful.filled

/-- A module has the outcome of one that compiles and has the same canonical form, if that form
describes it. -/
lemma compile_eq_of_canonical_eq {optimize : Bool} {m m' : Module} {p : Program}
    (hm : ShortModule m) (hm' : ShortModule m') (hp : (m.compile optimize).result = .ok p)
    (hfaithful : FormFaithful m')
    (hfits : ∀ g, some g ∈ (prepared optimize m').functions → OperandsFit g.body)
    (h : m.canonical = m'.canonical) : m'.compile optimize = m.compile optimize := by
  obtain ⟨fs, gs, hfs, hgs, hforms, hexports⟩ := forms_of_compile hm hm' hp hfaithful h
  have halike : ModulesAlike m m' := by
    refine ⟨fs, gs, hfs, hgs, forms_alike hforms ?_ ?_, hexports⟩
    · exact fun f hf =>
        (formFaithful_of_compile hp).vars_nodup f (hfs ▸ List.mem_map_of_mem hf)
    · exact fun g hg => hfaithful.vars_nodup g (hgs ▸ List.mem_map_of_mem hg)
  exact compile_alike halike hfaithful.vars_nodup hfits hp

/-- Modules with one canonical form compile to one program with one record of changes. -/
theorem canonical_determines_output (optimize : Bool) {m m' : Module} {p p' : Program}
    (hm : ShortModule m) (hm' : ShortModule m') (hp : (m.compile optimize).result = .ok p)
    (hp' : (m'.compile optimize).result = .ok p') (h : m.canonical = m'.canonical) :
    p = p' ∧ (m.compile optimize).stats = (m'.compile optimize).stats := by
  have houtcome := compile_eq_of_canonical_eq hm hm' hp (formFaithful_of_compile hp')
    (operandsFit_of_emit (compile_eq_ok hp').2) h
  rw [houtcome]
  rw [houtcome, hp] at hp'
  exact ⟨Except.ok.inj hp', rfl⟩

/-- A loop, a sum of constants, and an unknown variable in code that is never reached. -/
def looping (x top : Text) : Module where
  exports := ["f"]
  functions := [
    some {
      name := "f"
      params := [⟨x, []⟩]
      body := [
        .label top, .load x, .jumpIf top, .const (.int 2), .const (.int 3), .binary .add,
        .assign x (.load x), .ret, .load "gone"] }]

def loopingProgram : Program where
  functions := [
    { name := "f"
      code := some #[32, 0, 129, 255, 251, 16, 0, 0, 32, 0, 33, 0, 240]
      params := 1 }]
  constants := [.int 5]
  symbols := ["f"]

lemma shortModule_looping {x : Text} (hx : Short x) (top : Text) : ShortModule (looping x top) := by
  have hf : Short ("f" : Text) := by unfold Short; decide
  have hgone : Short ("gone" : Text) := by unfold Short; decide
  refine ⟨by simp [looping], ?_, by simp [looping], by simpa [looping] using hf⟩
  intro f hmem
  simp only [looping, List.mem_singleton, Option.some.injEq] at hmem
  subst hmem
  refine ⟨hf, by simp, ?_⟩
  simp [ShortInstr, ShortValue, hx, hgone]

theorem looping_determined :
    ((looping "x" "top").compile true).result = .ok loopingProgram ∧
      ∃ p, ((looping "last" "x").compile true).result = .ok p ∧ loopingProgram = p ∧
        ((looping "x" "top").compile true).stats = ((looping "last" "x").compile true).stats := by
  have hx : Short ("x" : Text) := by unfold Short; decide
  have hlast : Short ("last" : Text) := by unfold Short; decide
  have hp : ((looping "x" "top").compile true).result = .ok loopingProgram := by cbv
  have hp' : ((looping "last" "x").compile true).result = .ok loopingProgram := by cbv
  exact ⟨hp, loopingProgram, hp', canonical_determines_output true (shortModule_looping hx "top")
    (shortModule_looping hlast "x") hp hp' (by cbv)⟩

end StackCode.Proofs
