import StackCode.Proofs.Emission
import StackCode.Proofs.MachineRuns
import StackCode.Proofs.SourceMachine

/-!
# Instructions and their pieces

An instruction of a body and the machine instruction that its piece denotes do the same: names have
become slots, labels offsets and immediates indices, and the operands are as they were.
-/

namespace StackCode.Proofs

open Emit Source

/-! ### Variables and slots -/

lemma Bindings.names_set (vars : Bindings) (name : Text) (d : Datum) :
    (vars.set name d).map Prod.fst = vars.map Prod.fst := by
  simp [Bindings.set]

/-- A variable is found by its name where its slot stands. -/
lemma lookup_eq_slot {vars : Bindings} {name : Text} {k : Nat}
    (hk : (vars.map Prod.fst)[k]? = some name) (hnodup : (vars.map Prod.fst).Nodup) :
    vars.lookup name = (vars.map Prod.snd)[k]? := by
  induction vars generalizing k with
  | nil => simp at hk
  | cons v vars ih =>
    obtain ⟨n, d⟩ := v
    rw [List.map_cons, List.nodup_cons] at hnodup
    cases k with
    | zero =>
      simp only [List.map_cons, List.getElem?_cons_zero, Option.some.injEq] at hk
      simp [hk]
    | succ k =>
      simp only [List.map_cons, List.getElem?_cons_succ] at hk
      have hne : name ≠ n := by
        rintro rfl
        exact hnodup.1 (List.mem_of_getElem? hk)
      have hbeq : (name == n) = false := by simpa using hne
      simp only [List.lookup_cons, hbeq, List.map_cons, List.getElem?_cons_succ]
      exact ih hk hnodup.2

lemma values_set {vars : Bindings} {name : Text} {k : Nat} (d : Datum)
    (hk : (vars.map Prod.fst)[k]? = some name) (hnodup : (vars.map Prod.fst).Nodup) :
    (vars.set name d).map Prod.snd = (vars.map Prod.snd).set k d := by
  induction vars generalizing k with
  | nil => rfl
  | cons v vars ih =>
    obtain ⟨n, old⟩ := v
    rw [List.map_cons, List.nodup_cons] at hnodup
    have hcons : Bindings.set ((n, old) :: vars) name d =
        (n, if n = name then d else old) :: Bindings.set vars name d := rfl
    cases k with
    | zero =>
      simp only [List.map_cons, List.getElem?_cons_zero, Option.some.injEq] at hk
      subst hk
      have hrest : Bindings.set vars n d = vars := by
        refine (List.map_congr_left fun v hv => ?_).trans (List.map_id vars)
        have hn : n ∉ vars.map Prod.fst := hnodup.1
        have hne : v.1 ≠ n := fun he => hn (he ▸ List.mem_map_of_mem hv)
        simp [hne]
      rw [hcons, hrest]
      simp
    | succ k =>
      simp only [List.map_cons, List.getElem?_cons_succ] at hk
      have hne : n ≠ name := by
        rintro rfl
        exact hnodup.1 (List.mem_of_getElem? hk)
      rw [hcons, List.map_cons, ih hk hnodup.2]
      simp [hne]

/-! ### One instruction -/

/-- The frame of a routine whose slots hold the variables. -/
def frameOf (r : Routine) (ip : Int) (vars : Bindings) (stack : List Datum) : Frame :=
  ⟨r, ip, (vars.map Prod.snd).toArray, stack⟩

/-- The effect of an instruction of a body, and what the instruction it became does to its frame. -/
inductive Matches (functions : List Text) (leads : Text → Int → Prop) (r : Routine) (next : Int)
    (vars : Bindings) : Effect → Frame.Action → Prop
  | next {vars' stack h} (hnames : vars'.map Prod.fst = vars.map Prod.fst) :
    Matches functions leads r next vars (.next vars' stack h) (.next (frameOf r next vars' stack) h)
  | jump {label t stack h} (hlead : leads label t) :
    Matches functions leads r next vars (.jump label stack h) (.next (frameOf r t vars stack) h)
  | call {name k arguments stack h} (hk : functions.idxOf? name = some k) :
    Matches functions leads r next vars (.call name arguments none stack h)
      (.call k arguments (frameOf r next vars stack) h)
  | leave {d h} : Matches functions leads r next vars (.leave d h) (.leave d h)
  | fault (cause h) : Matches functions leads r next vars (.fault cause.kind h) (.fault cause h)
  | stuck {h} : Matches functions leads r next vars (.stuck h) (.crash h)

lemma perform_of_operands {vars : Bindings} {stack : List Datum} {h : Heap} {i : Instr}
    (hle : i.stackEffect.1 ≤ stack.length) :
    perform vars stack h i = Source.execute vars stack h i := by
  unfold perform
  rw [if_neg (by omega)]

lemma perform_underflow {vars : Bindings} {stack : List Datum} {h : Heap} {i : Instr}
    (hlt : stack.length < i.stackEffect.1) :
    perform vars stack h i = .fault .stackUnderflow h := by
  unfold perform
  rw [if_pos hlt]

section Execute

attribute [local simp] Instr.stackEffect

variable {functions names : List Text} {constants : List Value} {leads : Text → Int → Prop}
  {image : Image} {r : Routine} {vars : Bindings} {offset : Nat} {x : Instruction}

/-- On every stack and heap, the machine's instruction does what the one of the body does. -/
def Implements (functions : List Text) (leads : Text → Int → Prop) (image : Image) (r : Routine)
    (vars : Bindings) (offset : Nat) (i : Instr) (x : Instruction) : Prop :=
  ∀ stack h, Matches functions leads r (offset + x.length : Nat) vars (perform vars stack h i)
    (Frame.execute image h (frameOf r offset vars stack) x)

lemma const_implements {v : Value} (himage : image.constants.toList = constants)
    (hd : Denotes ⟨functions, names⟩ constants (fun _ => leads) offset (.constant .loadConst v) x) :
    Implements functions leads image r vars offset (.const v) x := by
  intro stack h
  obtain ⟨k, hk, rfl⟩ := hd
  rw [← himage, Array.getElem?_toList] at hk
  rw [perform_of_operands (by simp [Instr.stackEffect])]
  simp only [Frame.execute, frameOf, hk]
  exact .next rfl

lemma load_implements {name : Text} (hnames : vars.map Prod.fst = names) (hnodup : names.Nodup)
    (hd : Denotes ⟨functions, names⟩ constants (fun _ => leads) offset (.slot .loadLocal name) x) :
    Implements functions leads image r vars offset (.load name) x := by
  intro stack h
  obtain ⟨k, hk, rfl⟩ := hd
  have hname : names[k]? = some name := getElem_of_slot hk
  subst hnames
  rw [perform_of_operands (by simp [Instr.stackEffect])]
  simp only [Frame.execute, frameOf, List.getElem?_toArray, Source.execute,
    lookup_eq_slot hname hnodup]
  cases (vars.map Prod.snd)[k]? with
  | none => exact .stuck
  | some d => exact .next rfl

/-- Storing by name is storing in the slot. -/
lemma execute_storeLocal {name : Text} (hnames : vars.map Prod.fst = names) (hnodup : names.Nodup)
    (hd : Denotes ⟨functions, names⟩ constants (fun _ => leads) offset (.slot .storeLocal name) x)
    (d : Datum) (stack : List Datum) (h : Heap) :
    (vars.lookup name).isSome ∧ Frame.execute image h (frameOf r offset vars (d :: stack)) x =
      .next (frameOf r (offset + x.length : Nat) (vars.set name d) stack) h := by
  obtain ⟨k, hk, rfl⟩ := hd
  have hname : names[k]? = some name := getElem_of_slot hk
  subst hnames
  have hlt := (List.getElem?_eq_some_iff.mp hname).1
  rw [List.length_map] at hlt
  constructor
  · rw [lookup_eq_slot hname hnodup, List.getElem?_eq_getElem (by simpa using hlt)]
    rfl
  · simp [Frame.execute, frameOf, hlt, values_set d hname hnodup]

lemma store_implements {name : Text} (hnames : vars.map Prod.fst = names) (hnodup : names.Nodup)
    (hd : Denotes ⟨functions, names⟩ constants (fun _ => leads) offset (.slot .storeLocal name) x) :
    Implements functions leads image r vars offset (.store name) x := by
  intro stack h
  cases stack with
  | nil =>
    obtain ⟨k, hk, rfl⟩ := hd
    rw [perform_underflow (by simp [Instr.stackEffect])]
    exact .fault (.underflow ..) h
  | cons d stack =>
    obtain ⟨hfound, hexec⟩ := execute_storeLocal hnames hnodup hd d stack h
    rw [perform_of_operands (by simp only [Instr.stackEffect, List.length_cons]; omega), hexec]
    simp only [Source.execute, store, hfound, if_true]
    exact .next (Bindings.names_set vars name d)

/-- An operator that has an opcode computes what the machine does for it. -/
lemma binary_eq_arith {op : BinOp} {code : Opcode} (hcode : op.opcode? = some code) :
    binary? op = some (Datum.arith code) := by
  cases op <;> cases hcode <;> rfl

lemma unary_eq {op : UnOp} {code : Opcode} (hcode : op.opcode? = some code) :
    unary? op = some (Datum.unary code) := by
  cases op <;> cases hcode <;> rfl

lemma push_matches {stack : List Datum} {h : Heap} {next : Int}
    (result : Except Fault.Cause Datum) :
    Matches functions leads r next vars (push vars stack h result)
      (match result with
        | .ok d => .next (frameOf r next vars (d :: stack)) h
        | .error e => .fault e h) := by
  cases result with
  | ok d => exact .next rfl
  | error e => exact .fault e h

lemma binary_implements {op : BinOp} {code : Opcode} (hcode : op.opcode? = some code) :
    Implements functions leads image r vars offset (.binary op) { op := code, offset } := by
  intro stack h
  rcases stack with _ | ⟨b, _ | ⟨a, rest⟩⟩
  case cons.cons =>
    rw [perform_of_operands (by simp only [Instr.stackEffect, List.length_cons]; omega)]
    simp only [Source.execute, binary_eq_arith hcode]
    cases op <;> cases hcode <;> exact push_matches (a.arith _ b)
  all_goals
    rw [perform_underflow (by simp [Instr.stackEffect])]
    cases op <;> cases hcode <;> exact .fault (.underflow ..) h

lemma unary_implements {op : UnOp} {code : Opcode} (hcode : op.opcode? = some code) :
    Implements functions leads image r vars offset (.unary op) { op := code, offset } := by
  intro stack h
  cases stack with
  | nil =>
    rw [perform_underflow (by simp [Instr.stackEffect])]
    cases op <;> cases hcode <;> exact .fault (.underflow ..) h
  | cons a rest =>
    rw [perform_of_operands (by simp only [Instr.stackEffect, List.length_cons]; omega)]
    simp only [Source.execute, unary_eq hcode]
    cases op <;> cases hcode <;> exact push_matches (a.unary _)

lemma call_implements {function : Text} {argc : Int}
    (hd : Denotes ⟨functions, names⟩ constants (fun _ => leads) offset (.call function argc) x) :
    Implements functions leads image r vars offset (.call function argc) x := by
  intro stack h
  obtain ⟨k, hk, hargc, rfl⟩ := hd
  by_cases hmany : Frame.hasAtLeast argc.toNat stack
  · have hle := hasAtLeast_iff.mp hmany
    rw [perform_of_operands (by simp only [Instr.stackEffect]; omega)]
    simp only [Frame.execute, frameOf, hmany, if_true]
    exact .call hk
  · have hlt := mt hasAtLeast_iff.mpr hmany
    rw [perform_underflow (by simp only [Instr.stackEffect]; omega)]
    simp only [Frame.execute, frameOf, hmany]
    exact .fault (.underflow ..) h

lemma ret_implements :
    Implements functions leads image r vars offset .ret { op := .ret, offset } := by
  intro stack h
  cases stack with
  | nil =>
    rw [perform_underflow (by simp [Instr.stackEffect])]
    exact .fault (.underflow ..) h
  | cons d stack =>
    rw [perform_of_operands (by simp only [Instr.stackEffect, List.length_cons]; omega)]
    exact .leave

lemma jump_implements {label : Text}
    (hd : Denotes ⟨functions, names⟩ constants (fun _ => leads) offset (.jump .jump label) x) :
    Implements functions leads image r vars offset (.jump label) x := by
  intro stack h
  obtain ⟨t, ht, rfl⟩ := hd
  have hnext : ((offset + Opcode.length .jump : Nat) : Int) + (t - (offset + 3 : Nat)) = t := by
    simp only [Opcode.length, Opcode.operandLength]
    omega
  rw [perform_of_operands (by simp [Instr.stackEffect])]
  simp only [Frame.execute, frameOf, Instruction.length, hnext]
  exact .jump ht

lemma jumpIf_implements {label : Text}
    (hd : Denotes ⟨functions, names⟩ constants (fun _ => leads) offset (.jump .jumpIf label) x) :
    Implements functions leads image r vars offset (.jumpIf label) x := by
  intro stack h
  obtain ⟨t, ht, rfl⟩ := hd
  have hnext : ((offset + Opcode.length .jumpIf : Nat) : Int) + (t - (offset + 3 : Nat)) = t := by
    simp only [Opcode.length, Opcode.operandLength]
    omega
  cases stack with
  | nil =>
    rw [perform_underflow (by simp [Instr.stackEffect])]
    exact .fault (.underflow ..) h
  | cons d stack =>
    rw [perform_of_operands (by simp only [Instr.stackEffect, List.length_cons]; omega)]
    simp only [Frame.execute, frameOf, Instruction.length, hnext, Source.execute]
    rcases d with s | _ | _
    case scalar =>
      rcases s with _ | ⟨_ | _⟩ | _ | _ | _
      case bool.true => exact .next rfl
      case bool.false => exact .jump ht
      all_goals exact .fault (.condition _) h
    all_goals exact .fault (.condition _) h

lemma newArray_implements {elemType : Text} {size : Int}
    (hd : Denotes ⟨functions, names⟩ constants (fun _ => leads) offset (.newArray size) x) :
    Implements functions leads image r vars offset (.newArray elemType size) x := by
  intro stack h
  obtain ⟨-, rfl⟩ := hd
  rw [perform_of_operands (by simp [Instr.stackEffect])]
  exact .next rfl

lemma arrayLoad_implements :
    Implements functions leads image r vars offset .arrayLoad { op := .loadArray, offset } := by
  intro stack h
  match stack with
  | [] | [_] =>
    rw [perform_underflow (by simp [Instr.stackEffect])]
    exact .fault (.underflow ..) h
  | index :: array :: rest =>
    rw [perform_of_operands (by simp only [Instr.stackEffect, List.length_cons]; omega)]
    simp only [Frame.execute, frameOf, Source.execute]
    match Frame.loadElement h array index with
    | .ok (some d) => exact .next rfl
    | .ok none => exact .stuck
    | .error e => exact .fault e h

lemma arrayStore_implements :
    Implements functions leads image r vars offset .arrayStore { op := .storeArray, offset } := by
  intro stack h
  match stack with
  | [] | [_] | [_, _] =>
    rw [perform_underflow (by simp [Instr.stackEffect])]
    exact .fault (.underflow ..) h
  | d :: index :: array :: rest =>
    rw [perform_of_operands (by simp only [Instr.stackEffect, List.length_cons]; omega)]
    simp only [Frame.execute, frameOf, Source.execute]
    match Frame.storePlace h array index with
    | .ok (some (a, k)) => exact .next rfl
    | .ok none => exact .stuck
    | .error e => exact .fault e h

lemma newObject_implements {className : Text} (himage : image.constants.toList = constants)
    (hd : Denotes ⟨functions, names⟩ constants (fun _ => leads) offset
      (.constant .newObject (.str className)) x) :
    Implements functions leads image r vars offset (.newObject className) x := by
  intro stack h
  obtain ⟨k, hk, rfl⟩ := hd
  rw [← himage, Array.getElem?_toList] at hk
  rw [perform_of_operands (by simp [Instr.stackEffect])]
  simp only [Frame.execute, frameOf, hk]
  exact .next rfl

lemma getProp_implements {name : Text} (himage : image.constants.toList = constants)
    (hd : Denotes ⟨functions, names⟩ constants (fun _ => leads) offset
      (.constant .loadField (.str name)) x) :
    Implements functions leads image r vars offset (.getProp name) x := by
  intro stack h
  obtain ⟨k, hk, rfl⟩ := hd
  rw [← himage, Array.getElem?_toList] at hk
  cases stack with
  | nil =>
    rw [perform_underflow (by simp [Instr.stackEffect])]
    exact .fault (.underflow ..) h
  | cons d stack =>
    rw [perform_of_operands (by simp only [Instr.stackEffect, List.length_cons]; omega)]
    simp only [Frame.execute, frameOf, hk, Source.execute]
    cases d with
    | object a =>
      dsimp only
      cases h.objects[a]? with
      | none => exact .stuck
      | some o => exact .next rfl
    | scalar v => exact .fault (.notObject ..) h
    | array a => exact .fault (.notObject ..) h

lemma setProp_implements {name : Text} (himage : image.constants.toList = constants)
    (hd : Denotes ⟨functions, names⟩ constants (fun _ => leads) offset
      (.constant .storeField (.str name)) x) :
    Implements functions leads image r vars offset (.setProp name) x := by
  intro stack h
  obtain ⟨k, hk, rfl⟩ := hd
  rw [← himage, Array.getElem?_toList] at hk
  match stack with
  | [] | [_] =>
    rw [perform_underflow (by simp [Instr.stackEffect])]
    exact .fault (.underflow ..) h
  | d :: object :: rest =>
    rw [perform_of_operands (by simp only [Instr.stackEffect, List.length_cons]; omega)]
    simp only [Frame.execute, frameOf, hk, Source.execute]
    cases object with
    | object a =>
      by_cases htable : h.objects[a]?.any Object.hasTable
      · simp only [htable, if_true]
        exact .next rfl
      · simp only [htable]
        exact .stuck
    | scalar v => exact .fault (.notObject ..) h
    | array a => exact .fault (.notObject ..) h

/-- An instruction with one piece that has code is what the piece denotes. -/
lemma implements_of_denotes {i : Instr} {q : Piece} (himage : image.constants.toList = constants)
    (hnames : vars.map Prod.fst = names) (hnodup : names.Nodup) (hpieces : pieces i = [q])
    (hlabel : ¬IsLabel q)
    (hd : Denotes ⟨functions, names⟩ constants (fun _ => leads) offset q x) :
    Implements functions leads image r vars offset i x := by
  cases i with
  | assign name inner =>
    rw [pieces] at hpieces
    split_ifs at hpieces with hmissing hpush
    · cases hpieces
      cases hd
    · cases hpieces
      cases hd
    · obtain ⟨q', hq', -⟩ := pieces_of_pushes (not_ne_iff.mp hpush)
      rw [hq'] at hpieces
      cases hpieces
  | missing => cases hpieces; cases hd
  | const v => cases hpieces; exact const_implements himage hd
  | load name => cases hpieces; exact load_implements hnames hnodup hd
  | store name => cases hpieces; exact store_implements hnames hnodup hd
  | declare name type => cases hpieces
  | binary op =>
    rw [pieces] at hpieces
    cases hcode : op.opcode? with
    | none => rw [hcode] at hpieces; cases hpieces; cases hd
    | some code => rw [hcode] at hpieces; cases hpieces; cases hd; exact binary_implements hcode
  | unary op =>
    rw [pieces] at hpieces
    cases hcode : op.opcode? with
    | none => rw [hcode] at hpieces; cases hpieces; cases hd
    | some code => rw [hcode] at hpieces; cases hpieces; cases hd; exact unary_implements hcode
  | call function argc => cases hpieces; exact call_implements hd
  | ret => cases hpieces; cases hd; exact ret_implements
  | jump label => cases hpieces; exact jump_implements hd
  | jumpIf label => cases hpieces; exact jumpIf_implements hd
  | label name => cases hpieces; exact absurd trivial hlabel
  | newArray elemType size => cases hpieces; exact newArray_implements hd
  | arrayLoad => cases hpieces; cases hd; exact arrayLoad_implements
  | arrayStore => cases hpieces; cases hd; exact arrayStore_implements
  | newObject className => cases hpieces; exact newObject_implements himage hd
  | getProp name => cases hpieces; exact getProp_implements himage hd
  | setProp name => cases hpieces; exact setProp_implements himage hd

end Execute

/-! ### Assignments -/

lemma perform_assign (vars : Bindings) (stack : List Datum) (h : Heap) (name : Text)
    (inner : Instr) :
    perform vars stack h (.assign name inner) = (perform vars stack h inner).storing name := by
  unfold perform
  rw [Instr.stackEffect]
  split_ifs
  · rfl
  · rw [Source.execute]

lemma push_ne {vars vars' : Bindings} {stack : List Datum} {h h' : Heap}
    (result : Except Fault.Cause Datum) : push vars stack h result ≠ .next vars' [] h' := by
  cases result <;> simp [push]

lemma execute_pushes {vars : Bindings} {stack : List Datum} {h : Heap} {i : Instr}
    (hpush : i.stackEffect.2 = 1) (vars' : Bindings) (h' : Heap) :
    Source.execute vars stack h i ≠ .next vars' [] h' := by
  cases i with
  | const v => simp [Source.execute]
  | load name =>
    simp only [Source.execute]
    split <;> simp
  | call function argc => simp [Source.execute]
  | newArray type size => simp [Source.execute]
  | newObject className => simp [Source.execute]
  | binary op =>
    simp only [Source.execute]
    split
    · exact push_ne _
    · simp
  | unary op =>
    simp only [Source.execute]
    split
    · exact push_ne _
    · simp
  | arrayLoad =>
    simp only [Source.execute]
    repeat' split
    all_goals simp
  | getProp name =>
    simp only [Source.execute]
    repeat' split
    all_goals simp
  | _ => simp [Instr.stackEffect] at hpush

lemma perform_pushes {vars : Bindings} {stack : List Datum} {h : Heap} {i : Instr}
    (hpush : i.stackEffect.2 = 1) (vars' : Bindings) (h' : Heap) :
    perform vars stack h i ≠ .next vars' [] h' := by
  unfold perform
  split_ifs
  · simp
  · exact execute_pushes hpush vars' h'

/-- How an instruction is lowered: to no code, to one machine instruction, or to the code of an inner
instruction and a store. -/
inductive Shape (i : Instr) : Prop
  | silent (hsize : totalSize (pieces i) = 0)
    (heffect : ∀ vars stack h, perform vars stack h i = .next vars stack h)
  | single {q} (hpieces : pieces i = [q]) (hlabel : ¬IsLabel q)
  | assign {name inner q} (hi : i = .assign name inner)
    (hpieces : pieces i = [q, .slot .storeLocal name]) (hinner : pieces inner = [q])
    (hlabel : ¬IsLabel q) (hpush : inner.stackEffect.2 = 1)

lemma shape (i : Instr) : Shape i := by
  cases i with
  | declare name type =>
    refine .silent rfl fun vars stack h => ?_
    rw [perform_of_operands (by simp [Instr.stackEffect]), Source.execute]
  | label name =>
    refine .silent rfl fun vars stack h => ?_
    rw [perform_of_operands (by simp [Instr.stackEffect]), Source.execute]
  | assign name inner =>
    by_cases hmissing : inner = .missing
    · exact .single (by rw [pieces, if_pos hmissing]) id
    by_cases hpush : inner.stackEffect.2 = 1
    · obtain ⟨q, hq, hlabel⟩ := pieces_of_pushes hpush
      refine .assign rfl ?_ hq hlabel hpush
      rw [pieces, if_neg hmissing, if_neg (not_ne_iff.mpr hpush), hq]
      rfl
    · exact .single (by rw [pieces, if_neg hmissing, if_pos hpush]) id
  | binary op => cases op <;> exact .single rfl id
  | unary op => cases op <;> exact .single rfl id
  | _ => exact .single rfl id

end StackCode.Proofs
