import StackCode.Proofs.MachineRuns
import StackCode.Proofs.Verification

/-!
# Verified programs run safely

Every frame of a run stays at the start of an instruction or at the end of its code, and every datum
points into the heap. So whatever an instruction of a verified program reads is there, and no run
ends with an instruction that cannot be read. The only crash that is left is a store in an object
without a table of fields. The machine makes no such object, so it has to be there from the start.
-/

namespace StackCode.Proofs

/-! ### Heaps without dangling addresses -/

/-- The array or object of a datum is in the heap. -/
def Within (h : Heap) : Datum → Prop
  | .scalar _ => True
  | .array a => a < h.arrays.size
  | .object a => a < h.objects.size

instance (h : Heap) : DecidablePred (Within h)
  | .scalar _ => isTrue trivial
  | .array a => inferInstanceAs (Decidable (a < h.arrays.size))
  | .object a => inferInstanceAs (Decidable (a < h.objects.size))

/-- Everything in the heap points into it. -/
@[mk_iff closed_iff]
structure Closed (h : Heap) : Prop where
  arrays : ∀ elems ∈ h.arrays, ∀ d ∈ elems, Within h d
  objects : ∀ o ∈ h.objects, ∀ v ∈ o.entries, Within h v.2

instance : DecidablePred Closed := fun h => decidable_of_iff' _ (closed_iff h)

/-- Every object of the heap has a table of fields. -/
def HasTables (h : Heap) : Prop := ∀ o ∈ h.objects, o.hasTable

instance : DecidablePred HasTables := fun h =>
  inferInstanceAs (Decidable (∀ o ∈ h.objects, o.hasTable))

/-- The second heap has all addresses of the first, and no new object is without a table. -/
structure Grows (h h' : Heap) : Prop where
  arrays : h.arrays.size ≤ h'.arrays.size
  objects : h.objects.size ≤ h'.objects.size
  tables : HasTables h → HasTables h'

lemma Grows.refl (h : Heap) : Grows h h := ⟨Nat.le_refl _, Nat.le_refl _, id⟩

lemma Within.mono {h h' : Heap} {d : Datum} (hd : Within h d) (hg : Grows h h') : Within h' d := by
  cases d with
  | scalar v => trivial
  | array a => exact Nat.lt_of_lt_of_le hd hg.arrays
  | object a => exact Nat.lt_of_lt_of_le hd hg.objects

lemma closed_addArray {h : Heap} (hh : Closed h) :
    Grows h (h.addArray #[]).1 ∧ Closed (h.addArray #[]).1 ∧
      Within (h.addArray #[]).1 (h.addArray #[]).2 := by
  have hg : Grows h (h.addArray #[]).1 := ⟨by simp [Heap.addArray], Nat.le_refl _, id⟩
  refine ⟨hg, ⟨?_, ?_⟩, by simp [Heap.addArray, Within]⟩
  · intro elems helems d hd
    rcases Array.mem_push.mp helems with helems | rfl
    · exact (hh.arrays elems helems d hd).mono hg
    · simp at hd
  · intro o ho v hv
    exact (hh.objects o ho v hv).mono hg

lemma closed_addObject {h : Heap} (hh : Closed h) (className : Text) :
    Grows h (h.addObject { className }).1 ∧ Closed (h.addObject { className }).1 ∧
      Within (h.addObject { className }).1 (h.addObject { className }).2 := by
  have hg : Grows h (h.addObject { className }).1 := by
    refine ⟨Nat.le_refl _, by simp [Heap.addObject], fun htables o ho => ?_⟩
    rcases Array.mem_push.mp ho with ho | rfl
    · exact htables o ho
    · rfl
  refine ⟨hg, ⟨?_, ?_⟩, by simp [Heap.addObject, Within]⟩
  · intro elems helems d hd
    exact (hh.arrays elems helems d hd).mono hg
  · intro o ho v hv
    rcases Array.mem_push.mp ho with ho | rfl
    · exact (hh.objects o ho v hv).mono hg
    · cases hv

lemma mem_modify {α : Type} {xs : Array α} {i : Nat} {f : α → α} {y : α} (h : y ∈ xs.modify i f) :
    ∃ x ∈ xs, y = x ∨ y = f x := by
  obtain ⟨j, hj⟩ := Array.getElem?_of_mem h
  rw [Array.getElem?_modify] at hj
  split_ifs at hj
  · obtain ⟨x, hx, rfl⟩ := Option.map_eq_some_iff.mp hj
    exact ⟨x, Array.mem_of_getElem? hx, .inr rfl⟩
  · exact ⟨y, Array.mem_of_getElem? hj, .inl rfl⟩

lemma mem_putElement {k : Nat} {d e : Datum} {elems : Array Datum}
    (h : e ∈ Frame.putElement k d elems) : e ∈ elems ∨ e = d := by
  unfold Frame.putElement at h
  split_ifs at h
  · exact Array.mem_or_eq_of_mem_setIfInBounds h
  · exact Array.mem_push.mp h

lemma mem_write {name : Text} {d : Datum} {fields : List (Text × Datum)} {v : Text × Datum}
    (h : v ∈ Object.write name d fields) : v ∈ fields ∨ v.2 = d := by
  induction fields with
  | nil =>
    rw [Object.write, List.mem_singleton] at h
    exact .inr (by rw [h])
  | cons w fields ih =>
    obtain ⟨n, old⟩ := w
    rw [Object.write] at h
    split_ifs at h
    · rcases List.mem_cons.mp h with rfl | h
      · exact .inr rfl
      · exact .inl (List.mem_cons_of_mem _ h)
    · rcases List.mem_cons.mp h with rfl | h
      · exact .inl List.mem_cons_self
      · rcases ih h with h | h
        · exact .inl (List.mem_cons_of_mem _ h)
        · exact .inr h

/-- A store keeps the table of an object, and all its entries but the one that is stored. -/
lemma mem_entries_set {o : Object} {name : Text} {d : Datum} {v : Text × Datum}
    (h : v ∈ (o.set name d).entries) : v ∈ o.entries ∨ v.2 = d := by
  obtain ⟨className, _ | fields⟩ := o
  · cases h
  · exact mem_write h

lemma hasTable_set (o : Object) (name : Text) (d : Datum) :
    (o.set name d).hasTable = o.hasTable :=
  Option.isSome_map

lemma closed_storeElement {h : Heap} (hh : Closed h) {d : Datum} (hd : Within h d) (a k : Nat) :
    Grows h ⟨h.arrays.modify a (Frame.putElement k d), h.objects⟩ ∧
      Closed ⟨h.arrays.modify a (Frame.putElement k d), h.objects⟩ := by
  have hg : Grows h ⟨h.arrays.modify a (Frame.putElement k d), h.objects⟩ :=
    ⟨by simp, Nat.le_refl _, id⟩
  refine ⟨hg, ?_, fun o ho v hv => (hh.objects o ho v hv).mono hg⟩
  intro elems helems e he
  obtain ⟨old, hold, rfl | rfl⟩ := mem_modify helems
  · exact (hh.arrays _ hold e he).mono hg
  · rcases mem_putElement he with he | rfl
    · exact (hh.arrays _ hold e he).mono hg
    · exact hd.mono hg

lemma closed_storeField {h : Heap} (hh : Closed h) {d : Datum} (hd : Within h d) (a : Nat)
    (name : Text) :
    Grows h ⟨h.arrays, h.objects.modify a (·.set name d)⟩ ∧
      Closed ⟨h.arrays, h.objects.modify a (·.set name d)⟩ := by
  have hg : Grows h ⟨h.arrays, h.objects.modify a (·.set name d)⟩ := by
    refine ⟨Nat.le_refl _, by simp, ?_⟩
    intro htables o (ho : o ∈ h.objects.modify a (·.set name d))
    obtain ⟨old, hold, rfl | rfl⟩ := mem_modify ho
    · exact htables _ hold
    · rw [hasTable_set]
      exact htables _ hold
  refine ⟨hg, fun elems helems e he => (hh.arrays elems helems e he).mono hg, ?_⟩
  intro o (ho : o ∈ h.objects.modify a (·.set name d)) v hv
  obtain ⟨old, hold, rfl | rfl⟩ := mem_modify ho
  · exact (hh.objects _ hold v hv).mono hg
  · rcases mem_entries_set hv with hv | hv
    · exact (hh.objects _ hold v hv).mono hg
    · rw [hv]
      exact hd.mono hg

lemma within_get {h : Heap} (hh : Closed h) {o : Object} (ho : o ∈ h.objects) (name : Text) :
    Within h (o.get name) := by
  unfold Object.get
  cases hfield : o.entries.lookup name with
  | none => trivial
  | some d =>
    obtain ⟨front, back, hfields, -⟩ := List.lookup_eq_some_iff.mp hfield
    exact hh.objects o ho (name, d) (by simp [hfields])

/-! ### Operators and elements -/

/-- A result is a constant, a fault is none of the instruction itself. -/
def SafeResult (h : Heap) : Except Fault.Cause Datum → Prop
  | .ok d => Within h d
  | .error e => e.kind ≠ .invalidOpcode

lemma ordered_ne_error (op : Opcode) (o : Option Ordering) (e : Fault.Cause) :
    (Value.ordered? op o).map Except.ok ≠ some (.error e) := by
  cases Value.ordered? op o <;> simp

/-- The only fault of an operator on operands of its types is a division by zero. -/
lemma arith?_error {op : Opcode} {a b : Datum} {e : Fault.Cause}
    (h : Datum.arith? op a b = some (.error e)) : ∃ d, e = .byZero d := by
  have hordered := ordered_ne_error op
  unfold Datum.arith? at h
  split at h
  · unfold Datum.arithInts at h
    split at h <;> grind
  · unfold Datum.arithFloats at h
    split at h <;> grind
  · unfold Datum.arithTexts at h
    split at h <;> grind
  · unfold Datum.arithBools at h
    split at h <;> grind
  · cases h

lemma safe_arith (h : Heap) (op : Opcode) (a b : Datum) : SafeResult h (a.arith op b) := by
  unfold Datum.arith
  split
  · trivial
  · trivial
  · cases hresult : Datum.arith? op a b with
    | none => simp [SafeResult, Except.map, Fault.Cause.kind]
    | some result =>
      cases result with
      | ok v => trivial
      | error e =>
        obtain ⟨d, rfl⟩ := arith?_error hresult
        simp [SafeResult, Except.map, Fault.Cause.kind]

lemma safe_unary (h : Heap) (op : Opcode) (a : Datum) : SafeResult h (a.unary op) := by
  unfold Datum.unary
  split <;> simp [SafeResult, Within, Fault.Cause.kind]

lemma arrayIndex_error {array index : Datum} {e : Fault.Cause}
    (he : Frame.arrayIndex array index = .error e) : e.kind ≠ .invalidOpcode := by
  unfold Frame.arrayIndex at he
  split at he
  · split at he
    · split_ifs at he
      cases he
      simp [Fault.Cause.kind]
    · cases he
      simp [Fault.Cause.kind]
  · cases he
    simp [Fault.Cause.kind]

lemma arrayIndex_ok {h : Heap} {array index : Datum} {a k : Nat} (harray : Within h array)
    (hok : Frame.arrayIndex array index = .ok (a, k)) : a < h.arrays.size := by
  unfold Frame.arrayIndex at hok
  split at hok
  · split at hok
    · split_ifs at hok
      cases hok
      exact harray
    · cases hok
  · cases hok

lemma safe_loadElement {h : Heap} (hh : Closed h) {array : Datum} (harray : Within h array)
    (index : Datum) :
    match Frame.loadElement h array index with
    | .ok (some d) => Within h d
    | .ok none => False
    | .error e => e.kind ≠ .invalidOpcode := by
  unfold Frame.loadElement
  cases hplace : Frame.arrayIndex array index with
  | error e => exact arrayIndex_error hplace
  | ok place =>
    obtain ⟨a, k⟩ := place
    have ha := arrayIndex_ok harray hplace
    simp only [bind, Except.bind, Array.getElem?_eq_getElem ha]
    cases helem : h.arrays[a][k]? with
    | none => simp [throw, throwThe, MonadExceptOf.throw, Fault.Cause.kind]
    | some d => exact hh.arrays _ (Array.getElem_mem ha) d (Array.mem_of_getElem? helem)

lemma safe_storePlace {h : Heap} {array : Datum} (harray : Within h array) (index : Datum) :
    match Frame.storePlace h array index with
    | .ok (some _) => True
    | .ok none => False
    | .error e => e.kind ≠ .invalidOpcode := by
  unfold Frame.storePlace
  cases hplace : Frame.arrayIndex array index with
  | error e => exact arrayIndex_error hplace
  | ok place =>
    obtain ⟨a, k⟩ := place
    have ha := arrayIndex_ok harray hplace
    simp only [bind, Except.bind, Array.getElem?_eq_getElem ha]
    by_cases hk : h.arrays[a].size < k
    · simp [hk, throw, throwThe, MonadExceptOf.throw, Fault.Cause.kind]
    · simp [hk, pure, Except.pure]

/-! ### Frames -/

/-- A frame of a run of the program. -/
structure SafeFrame (p : Program) (h : Heap) (f : Frame) : Prop where
  routine : f.routine ∈ p.functions
  boundary : Boundary f.routine.bytes f.ip
  slots : f.slots.size = f.routine.slots
  slots_within : ∀ d ∈ f.slots, Within h d
  stack_within : ∀ d ∈ f.stack, Within h d

lemma SafeFrame.mono {p : Program} {h h' : Heap} {f : Frame} (hf : SafeFrame p h f)
    (hg : Grows h h') : SafeFrame p h' f :=
  ⟨hf.routine, hf.boundary, hf.slots, fun d hd => (hf.slots_within d hd).mono hg,
    fun d hd => (hf.stack_within d hd).mono hg⟩

/-- What an instruction of a verified program may do. -/
inductive SafeAction (p : Program) (h : Heap) : Frame.Action → Prop
  | next {f h'} (hg : Grows h h') (hh : Closed h') (hf : SafeFrame p h' f) :
    SafeAction p h (.next f h')
  | call {k arguments f} (hk : k < p.functions.length) (harguments : ∀ d ∈ arguments, Within h d)
    (hf : SafeFrame p h f) : SafeAction p h (.call k arguments f h)
  | leave {d} (hd : Within h d) : SafeAction p h (.leave d h)
  | fault {cause} (hkind : cause.kind ≠ .invalidOpcode) : SafeAction p h (.fault cause h)

/-- The instruction stores a field in an object that has no table. -/
def MissesTable (h : Heap) (f : Frame) (i : Instruction) : Prop :=
  i.op = .storeField ∧ ∃ d a rest o, f.stack = d :: .object a :: rest ∧ h.objects[a]? = some o ∧
    o.fields = none

lemma not_missesTable {h : Heap} (htables : HasTables h) (f : Frame) (i : Instruction) :
    ¬MissesTable h f i := by
  rintro ⟨-, d, a, rest, o, -, ho, hnone⟩
  have htable := htables o (Array.mem_of_getElem? ho)
  rw [Object.hasTable, hnone] at htable
  cases htable

/-- The operands that an instruction pops. -/
def neededOperands (i : Instruction) : Nat := if i.op = .call then i.argc else i.op.pops.toNat

/-- Operands that are not there are never read. -/
lemma execute_underflow {image : Image} {h : Heap} {f : Frame} {i : Instruction}
    (hfew : f.stack.length < neededOperands i) :
    f.execute image h i = .fault (.underflow i.op (neededOperands i) f.stack.length) h := by
  obtain ⟨r, ip, slots, stack⟩ := f
  obtain ⟨op, offset, operand, argc, jump, target⟩ := i
  cases op with
  | nop | loadConst | loadLocal | jump | newArray | newObject =>
    exact absurd hfew (Nat.not_lt_zero _)
  | pop | storeLocal | neg | not | jumpIf | loadField | ret =>
    match stack with
    | [] => rfl
    | _ :: stack => exact absurd hfew (by simp [neededOperands, Opcode.pops])
  | add | sub | mul | div | mod | eq | ne | lt | le | gt | ge | and | or | loadArray | storeField =>
    match stack with
    | [] | [_] => rfl
    | _ :: _ :: stack => exact absurd hfew (by simp [neededOperands, Opcode.pops])
  | storeArray =>
    match stack with
    | [] | [_] | [_, _] => rfl
    | _ :: _ :: _ :: stack => exact absurd hfew (by simp [neededOperands, Opcode.pops])
  | call =>
    have hlt : stack.length < argc := by simpa [neededOperands] using hfew
    have hnone : ¬Frame.hasAtLeast argc stack := fun hall => by
      have hle := hasAtLeast_iff.mp hall
      omega
    simp [Frame.execute, hnone, neededOperands]

section Execute

variable {p : Program} (hp : SoundProgram p) {h : Heap} (hh : Closed h) {r : Routine} {ip : Int}
  {slots : Array Datum} {stack : List Datum} (hf : SafeFrame p h ⟨r, ip, slots, stack⟩)
  {i : Instruction} (hi : i ∈ r.bytes.walk.1)

include hp hf hi

lemma goes_on_grown {h' : Heap} {stack' : List Datum} (hg : Grows h h') (hh' : Closed h')
    (hstack : ∀ d ∈ stack', Within h' d) :
    SafeAction p h (.next ⟨r, (i.offset + i.length : Nat), slots, stack'⟩ h') := by
  have hnext := boundary_next (hp.routines r hf.routine).walks hi
  exact .next hg hh' ⟨hf.routine, hnext, hf.slots, fun d hd => (hf.slots_within d hd).mono hg,
    hstack⟩

lemma constant_there (hop : i.op.usesConstant) : ∃ v, p.image.constants[i.operand]? = some v := by
  have hlt := ((hp.routines r hf.routine).instructions i hi).constant hop
  exact ⟨p.constants[i.operand], by simp [Program.image, hlt]⟩

lemma call_safe (hop : i.op = .call) :
    SafeAction p h (Frame.execute p.image h ⟨r, ip, slots, stack⟩ i) := by
  have hr := hp.routines r hf.routine
  simp only [Frame.execute, hop]
  by_cases hmany : Frame.hasAtLeast i.argc stack
  · simp only [hmany, if_true]
    refine .call ((hr.instructions i hi).function hop) ?_
      ⟨hf.routine, boundary_next hr.walks hi, hf.slots, hf.slots_within, ?_⟩
    · intro d hd
      exact hf.stack_within d (List.mem_of_mem_take (List.mem_reverse.mp hd))
    · intro d hd
      exact hf.stack_within d (List.mem_of_mem_drop hd)
  · simp only [hmany]
    exact .fault nofun

include hh

lemma goes_on {stack' : List Datum} (hstack : ∀ d ∈ stack', Within h d) :
    SafeAction p h (.next ⟨r, (i.offset + i.length : Nat), slots, stack'⟩ h) :=
  goes_on_grown hp hf hi (.refl h) hh hstack

lemma jumps {stack' : List Datum} (hjump : i.op.isJump) (hstack : ∀ d ∈ stack', Within h d) :
    SafeAction p h (.next ⟨r, (i.offset + i.length : Nat) + i.jump, slots, stack'⟩ h) := by
  have hr := hp.routines r hf.routine
  obtain ⟨j, hj, hoff⟩ := hr.landings i hi hjump
  rw [target_of_decodeAt (decodeAt_of_mem_walk hr.walks hi) hjump] at hoff
  exact .next (.refl h) hh
    ⟨hf.routine, .inr ⟨j, hj, hoff⟩, hf.slots, hf.slots_within, hstack⟩

lemma loadConst_safe (hop : i.op = .loadConst) :
    SafeAction p h (Frame.execute p.image h ⟨r, ip, slots, stack⟩ i) := by
  obtain ⟨v, hv⟩ := constant_there hp hf hi (by rw [hop]; rfl)
  simp only [Frame.execute, hop, hv]
  exact goes_on hp hh hf hi (List.forall_mem_cons.mpr ⟨trivial, hf.stack_within⟩)

lemma loadLocal_safe (hop : i.op = .loadLocal) :
    SafeAction p h (Frame.execute p.image h ⟨r, ip, slots, stack⟩ i) := by
  have hlt := ((hp.routines r hf.routine).instructions i hi).slot (.inl hop)
  rw [← hf.slots] at hlt
  simp only [Frame.execute, hop, Array.getElem?_eq_getElem hlt]
  have hd := hf.slots_within _ (Array.getElem_mem hlt)
  exact goes_on hp hh hf hi (List.forall_mem_cons.mpr ⟨hd, hf.stack_within⟩)

lemma storeLocal_safe (hop : i.op = .storeLocal) :
    SafeAction p h (Frame.execute p.image h ⟨r, ip, slots, stack⟩ i) := by
  have hr := hp.routines r hf.routine
  have hlt := (hr.instructions i hi).slot (.inr hop)
  rw [← hf.slots] at hlt
  cases stack with
  | nil =>
    simp only [Frame.execute, hop]
    exact .fault nofun
  | cons d stack =>
    obtain ⟨hd, hstack⟩ := List.forall_mem_cons.mp hf.stack_within
    simp only [Frame.execute, hop, hlt, if_true]
    refine .next (.refl h) hh
      ⟨hf.routine, boundary_next hr.walks hi, by simpa using hf.slots, ?_, hstack⟩
    intro e he
    rcases Array.mem_or_eq_of_mem_setIfInBounds he with he | rfl
    · exact hf.slots_within e he
    · exact hd

lemma result_safe {stack' : List Datum} (hstack : ∀ d ∈ stack', Within h d)
    {result : Except Fault.Cause Datum} :
    SafeResult h result → SafeAction p h (match result with
      | .ok d => .next ⟨r, (i.offset + i.length : Nat), slots, d :: stack'⟩ h
      | .error e => .fault e h) := by
  intro hresult
  cases result with
  | ok d => exact goes_on hp hh hf hi (List.forall_mem_cons.mpr ⟨hresult, hstack⟩)
  | error e => exact .fault hresult

lemma jumpIf_safe (hop : i.op = .jumpIf) :
    SafeAction p h (Frame.execute p.image h ⟨r, ip, slots, stack⟩ i) := by
  simp only [Frame.execute, hop]
  match stack, hf with
  | [], _ => exact .fault nofun
  | .scalar (.bool true) :: rest, hf =>
    exact goes_on hp hh hf hi (List.forall_mem_cons.mp hf.stack_within).2
  | .scalar (.bool false) :: rest, hf =>
    exact jumps hp hh hf hi (by rw [hop]; rfl) (List.forall_mem_cons.mp hf.stack_within).2
  | .scalar .null :: _, _ | .scalar (.int _) :: _, _ | .scalar (.float _) :: _, _
  | .scalar (.str _) :: _, _ | .array _ :: _, _ | .object _ :: _, _ => exact .fault nofun

lemma newArray_safe (hop : i.op = .newArray) :
    SafeAction p h (Frame.execute p.image h ⟨r, ip, slots, stack⟩ i) := by
  obtain ⟨hg, hh', hd⟩ := closed_addArray hh
  simp only [Frame.execute, hop]
  exact goes_on_grown hp hf hi hg hh'
    (List.forall_mem_cons.mpr ⟨hd, fun d hd => (hf.stack_within d hd).mono hg⟩)

lemma loadArray_safe (hop : i.op = .loadArray) :
    SafeAction p h (Frame.execute p.image h ⟨r, ip, slots, stack⟩ i) := by
  simp only [Frame.execute, hop]
  match stack, hf with
  | [], _ | [_], _ => exact .fault nofun
  | index :: array :: rest, hf =>
    obtain ⟨-, hrest⟩ := List.forall_mem_cons.mp hf.stack_within
    obtain ⟨harray, hrest⟩ := List.forall_mem_cons.mp hrest
    have hload := safe_loadElement hh harray index
    dsimp only
    generalize Frame.loadElement h array index = result at hload ⊢
    match result, hload with
    | .ok (some d), hd => exact goes_on hp hh hf hi (List.forall_mem_cons.mpr ⟨hd, hrest⟩)
    | .error e, he => exact .fault he

lemma storeArray_safe (hop : i.op = .storeArray) :
    SafeAction p h (Frame.execute p.image h ⟨r, ip, slots, stack⟩ i) := by
  simp only [Frame.execute, hop]
  match stack, hf with
  | [], _ | [_], _ | [_, _], _ => exact .fault nofun
  | d :: index :: array :: rest, hf =>
    obtain ⟨hd, hrest⟩ := List.forall_mem_cons.mp hf.stack_within
    obtain ⟨-, hrest⟩ := List.forall_mem_cons.mp hrest
    obtain ⟨harray, hrest⟩ := List.forall_mem_cons.mp hrest
    have hplace := safe_storePlace harray index
    dsimp only
    generalize Frame.storePlace h array index = result at hplace ⊢
    match result, hplace with
    | .ok (some (a, k)), _ =>
      obtain ⟨hg, hh'⟩ := closed_storeElement hh hd a k
      exact goes_on_grown hp hf hi hg hh' fun e he => (hrest e he).mono hg
    | .error e, he => exact .fault he

lemma newObject_safe (hop : i.op = .newObject) :
    SafeAction p h (Frame.execute p.image h ⟨r, ip, slots, stack⟩ i) := by
  obtain ⟨v, hv⟩ := constant_there hp hf hi (by rw [hop]; rfl)
  obtain ⟨hg, hh', hd⟩ := closed_addObject hh (Frame.nameOf v)
  simp only [Frame.execute, hop, hv]
  exact goes_on_grown hp hf hi hg hh'
    (List.forall_mem_cons.mpr ⟨hd, fun d hd => (hf.stack_within d hd).mono hg⟩)

lemma loadField_safe (hop : i.op = .loadField) :
    SafeAction p h (Frame.execute p.image h ⟨r, ip, slots, stack⟩ i) := by
  obtain ⟨v, hv⟩ := constant_there hp hf hi (by rw [hop]; rfl)
  simp only [Frame.execute, hop, hv]
  match stack, hf with
  | [], _ | .scalar _ :: _, _ | .array _ :: _, _ => exact .fault nofun
  | .object a :: rest, hf =>
    obtain ⟨ha, hrest⟩ := List.forall_mem_cons.mp hf.stack_within
    have hlt : a < h.objects.size := ha
    simp only [Array.getElem?_eq_getElem hlt]
    have hfield := within_get hh (Array.getElem_mem hlt) (Frame.nameOf v)
    exact goes_on hp hh hf hi (List.forall_mem_cons.mpr ⟨hfield, hrest⟩)

lemma storeField_safe (hop : i.op = .storeField)
    (htable : ¬MissesTable h ⟨r, ip, slots, stack⟩ i) :
    SafeAction p h (Frame.execute p.image h ⟨r, ip, slots, stack⟩ i) := by
  obtain ⟨v, hv⟩ := constant_there hp hf hi (by rw [hop]; rfl)
  simp only [Frame.execute, hop, hv]
  match stack, hf, htable with
  | [], _, _ | [_], _, _ | _ :: .scalar _ :: _, _, _ | _ :: .array _ :: _, _, _ =>
    exact .fault nofun
  | d :: .object a :: rest, hf, htable =>
    obtain ⟨hd, hrest⟩ := List.forall_mem_cons.mp hf.stack_within
    obtain ⟨ha, hrest⟩ := List.forall_mem_cons.mp hrest
    have hlt : a < h.objects.size := ha
    have hfound : h.objects[a]?.any Object.hasTable := by
      rw [Array.getElem?_eq_getElem hlt, Option.any_some]
      by_contra hnone
      exact htable ⟨hop, d, a, rest, _, rfl, Array.getElem?_eq_getElem hlt,
        Option.not_isSome_iff_eq_none.mp hnone⟩
    obtain ⟨hg, hh'⟩ := closed_storeField hh hd a (Frame.nameOf v)
    simp only [hfound, if_true]
    exact goes_on_grown hp hf hi hg hh' fun e he => (hrest e he).mono hg

/-- No instruction of a verified program crashes that finds its table, and its frame stays safe. -/
lemma execute_safe (htable : ¬MissesTable h ⟨r, ip, slots, stack⟩ i) :
    SafeAction p h (Frame.execute p.image h ⟨r, ip, slots, stack⟩ i) := by
  cases hop : i.op with
  | nop =>
    simp only [Frame.execute, hop]
    exact goes_on hp hh hf hi hf.stack_within
  | pop =>
    simp only [Frame.execute, hop]
    match stack, hf with
    | [], _ => exact .fault nofun
    | _ :: rest, hf => exact goes_on hp hh hf hi (List.forall_mem_cons.mp hf.stack_within).2
  | add | sub | mul | div | mod | lt | le | gt | ge | and | or =>
    simp only [Frame.execute, hop]
    match stack, hf with
    | [], _ | [_], _ => exact .fault nofun
    | b :: a :: rest, hf =>
      obtain ⟨-, hrest⟩ := List.forall_mem_cons.mp hf.stack_within
      exact result_safe hp hh hf hi (List.forall_mem_cons.mp hrest).2 (safe_arith h _ a b)
  | eq | ne =>
    simp only [Frame.execute, hop]
    match stack, hf with
    | [], _ | [_], _ => exact .fault nofun
    | b :: a :: rest, hf =>
      obtain ⟨-, hrest⟩ := List.forall_mem_cons.mp hf.stack_within
      exact goes_on hp hh hf hi
        (List.forall_mem_cons.mpr ⟨trivial, (List.forall_mem_cons.mp hrest).2⟩)
  | neg | not =>
    simp only [Frame.execute, hop]
    match stack, hf with
    | [], _ => exact .fault nofun
    | a :: rest, hf =>
      exact result_safe hp hh hf hi (List.forall_mem_cons.mp hf.stack_within).2 (safe_unary h _ a)
  | ret =>
    simp only [Frame.execute, hop]
    match stack, hf with
    | [], _ => exact .fault nofun
    | d :: rest, hf => exact .leave (List.forall_mem_cons.mp hf.stack_within).1
  | jump =>
    simp only [Frame.execute, hop]
    exact jumps hp hh hf hi (by rw [hop]; rfl) hf.stack_within
  | loadConst => exact loadConst_safe hp hh hf hi hop
  | loadLocal => exact loadLocal_safe hp hh hf hi hop
  | storeLocal => exact storeLocal_safe hp hh hf hi hop
  | jumpIf => exact jumpIf_safe hp hh hf hi hop
  | call => exact call_safe hp hf hi hop
  | newArray => exact newArray_safe hp hh hf hi hop
  | loadArray => exact loadArray_safe hp hh hf hi hop
  | storeArray => exact storeArray_safe hp hh hf hi hop
  | newObject => exact newObject_safe hp hh hf hi hop
  | loadField => exact loadField_safe hp hh hf hi hop
  | storeField => exact storeField_safe hp hh hf hi hop htable

omit hh in
lemma execute_missesTable (hmisses : MissesTable h ⟨r, ip, slots, stack⟩ i) :
    Frame.execute p.image h ⟨r, ip, slots, stack⟩ i = .crash h := by
  obtain ⟨hop, d, a, rest, o, rfl, ho, hnone⟩ := hmisses
  obtain ⟨v, hv⟩ := constant_there hp hf hi (by rw [hop]; rfl)
  simp [Frame.execute, hop, hv, ho, Object.hasTable, hnone]

end Execute

/-! ### Runs -/

/-- The run ended neither with a crash nor with an instruction that cannot be read. -/
def EndsSafely (f : Final) : Prop :=
  f.outcome ≠ .crash ∧ ∀ fault, f.outcome = .fault fault → fault.cause.kind ≠ .invalidOpcode

/-- A run of the program that is under way, or has ended safely. -/
inductive SafeNext (p : Program) : State.Next → Prop
  | running {s : State} (hh : Closed s.heap)
    (hframes : ∀ f ∈ s.frame :: s.callers, SafeFrame p s.heap f) : SafeNext p (.running s)
  | done {f : Final} (h : EndsSafely f) : SafeNext p (.done f)

lemma SafeNext.closed {p : Program} {s : State} (h : SafeNext p (.running s)) : Closed s.heap := by
  cases h with
  | running hh hframes => exact hh

lemma SafeNext.frame {p : Program} {s : State} (h : SafeNext p (.running s)) :
    SafeFrame p s.heap s.frame := by
  cases h with
  | running hh hframes => exact hframes _ List.mem_cons_self

lemma SafeNext.fault {p : Program} {cause : Fault.Cause} {function : Text} {offset steps : Nat}
    {h : Heap} (hkind : cause.kind ≠ .invalidOpcode) :
    SafeNext p (.done ⟨.fault ⟨cause, function, offset⟩, h, steps⟩) := by
  refine .done ⟨nofun, ?_⟩
  rintro fault heq
  cases heq
  exact hkind

section Run

variable {p : Program} (hp : SoundProgram p) (maxFrames : Int) {h : Heap} (hh : Closed h)
  {callers : List Frame} (hcallers : ∀ f ∈ callers, SafeFrame p h f)

include hh hcallers

lemma leave_safe {d : Datum} (hd : Within h d) (depth steps : Nat) (polls : Option Nat) :
    SafeNext p (State.leave d callers depth h steps polls) := by
  cases callers with
  | nil => exact .done ⟨nofun, nofun⟩
  | cons f callers =>
    obtain ⟨hf, hrest⟩ := List.forall_mem_cons.mp hcallers
    refine .running hh (List.forall_mem_cons.mpr ⟨?_, hrest⟩)
    exact ⟨hf.routine, hf.boundary, hf.slots, hf.slots_within,
      List.forall_mem_cons.mpr ⟨hd, hf.stack_within⟩⟩

include hp

lemma enter_safe {k : Nat} (hk : k < p.functions.length) {arguments : List Datum}
    (harguments : ∀ d ∈ arguments, Within h d) (depth steps : Nat) (polls : Option Nat) :
    SafeNext p (State.enter p.image maxFrames k arguments callers depth h steps polls) := by
  have hr : p.image.routines[k]? = some p.functions[k] := by simp [Program.image, hk]
  simp only [State.enter, hr]
  split_ifs with hdepth harity
  · exact .fault nofun
  · exact .fault nofun
  · have hmem := List.getElem_mem hk
    refine .running hh (List.forall_mem_cons.mpr ⟨⟨hmem, ?_, ?_, ?_, nofun⟩, hcallers⟩)
    · exact boundary_zero (hp.routines _ hmem).walks
    · simp only [State.slotsOf, List.size_toArray, List.length_append, List.length_replicate]
      omega
    · intro d hd
      simp only [State.slotsOf, List.mem_toArray, List.mem_append, List.mem_replicate] at hd
      rcases hd with hd | ⟨-, rfl⟩
      · exact harguments d hd
      · trivial

end Run

/-- Whatever the next instruction reads is there: its bytes, its constant, slot or function. If an
operand is missing, the instruction faults instead of reading it. -/
structure SafeAccess (p : Program) (s : State) (i : Instruction) : Prop where
  walked : i ∈ s.frame.routine.bytes.walk.1
  code : i.offset + i.length ≤ s.frame.routine.bytes.size
  constant : i.op.usesConstant → i.operand < p.image.constants.size
  slot : i.op = .loadLocal ∨ i.op = .storeLocal → i.operand < s.frame.slots.size
  function : i.op = .call → i.operand < p.image.routines.size
  operands : s.frame.stack.length < neededOperands i → s.frame.execute p.image s.heap i =
    .fault (.underflow i.op (neededOperands i) s.frame.stack.length) s.heap

/-- The next instruction stores a field in an object that has no table. -/
def StoresNowhere (s : State) : Prop :=
  ∃ i, s.upcoming = some (.ok i) ∧ MissesTable s.heap s.frame i

lemma not_storesNowhere {s : State} (htables : HasTables s.heap) : ¬StoresNowhere s := by
  rintro ⟨i, -, hmisses⟩
  exact not_missesTable htables s.frame i hmisses

lemma upcoming_of_decodeAt {s : State} {i : Instruction} (hip : s.frame.ip = i.offset)
    (hread : s.frame.routine.bytes.decodeAt i.offset = .ok i) : s.upcoming = some (.ok i) := by
  have hlt := end_le_of_decodeAt hread
  have hpos := instruction_length_pos i
  unfold State.upcoming
  simp only [hip]
  rw [if_neg (by omega), hread]

lemma upcoming_at_end {s : State} (hend : s.frame.ip = s.frame.routine.bytes.size) :
    s.upcoming = none :=
  if_pos (.inr (Int.le_of_eq hend.symm))

section Steps

variable {p : Program} (hp : SoundProgram p) {s : State}

include hp

/-- A safe frame has ended, or reads an instruction. -/
lemma reads_of_safe (hf : SafeFrame p s.heap s.frame) :
    s.frame.ip = s.frame.routine.bytes.size ∨
      ∃ i : Instruction, s.frame.ip = i.offset ∧
        s.frame.routine.bytes.decodeAt i.offset = .ok i ∧ SafeAccess p s i := by
  have hr := hp.routines _ hf.routine
  rcases hf.boundary with hend | ⟨i, hi, hip⟩
  · exact .inl hend
  have hread := decodeAt_of_mem_walk hr.walks hi
  have hsound := hr.instructions i hi
  refine .inr ⟨i, hip.symm, hread, hi, end_le_of_decodeAt hread, ?_, ?_, ?_, execute_underflow⟩
  · simpa [Program.image] using hsound.constant
  · rw [hf.slots]
    exact hsound.slot
  · simpa [Program.image] using hsound.function

/-- The step of a safe state that does not miss a table leads to a safe one. -/
lemma step_safe (maxFrames : Int) (h : SafeNext p (.running s)) (htable : ¬StoresNowhere s) :
    SafeNext p (s.step p.image maxFrames) := by
  obtain ⟨hh, hframes⟩ : Closed s.heap ∧ ∀ f ∈ s.frame :: s.callers, SafeFrame p s.heap f := by
    cases h with
    | running hh hframes => exact ⟨hh, hframes⟩
  obtain ⟨hf, hcallers⟩ := List.forall_mem_cons.mp hframes
  rcases reads_of_safe hp hf with hend | ⟨i, hip, hread, haccess⟩
  · rw [step_at_end p.image maxFrames (Int.le_of_eq hend.symm)]
    exact leave_safe hh hcallers (show Within s.heap .null from trivial) _ _ _
  rw [step_of_decodeAt p.image maxFrames hip hread]
  cases State.poll? (s.steps + 1) s.polls with
  | none => exact .done ⟨nofun, nofun⟩
  | some polls =>
    have hsafe : SafeAction p s.heap (s.frame.execute p.image s.heap i) :=
      execute_safe hp hh hf haccess.walked fun hmisses =>
        htable ⟨i, upcoming_of_decodeAt hip hread, hmisses⟩
    generalize s.frame.execute p.image s.heap i = action at hsafe
    cases hsafe with
    | next hg hh' hf' =>
      exact .running hh' (List.forall_mem_cons.mpr ⟨hf', fun f hf => (hcallers f hf).mono hg⟩)
    | call hk harguments hf' =>
      exact enter_safe hp maxFrames hh (List.forall_mem_cons.mpr ⟨hf', hcallers⟩) hk harguments _ _ _
    | leave hd => exact leave_safe hh hcallers hd _ _ _
    | fault hkind => exact .fault hkind

/-- A store that misses its table ends the run, unless the run is told to stop just there. -/
lemma step_storesNowhere (maxFrames : Int) (h : SafeNext p (.running s))
    (hmisses : StoresNowhere s) :
    ∃ f, s.step p.image maxFrames = .done f ∧ (f.outcome = .crash ∨ f.outcome = .cancelled) := by
  obtain ⟨i, hi, hmisses⟩ := hmisses
  rcases reads_of_safe hp h.frame with hend | ⟨j, hip, hread, haccess⟩
  · rw [upcoming_at_end hend] at hi
    cases hi
  · rw [upcoming_of_decodeAt hip hread] at hi
    cases hi
    have hcrash : s.frame.execute p.image s.heap i = .crash s.heap :=
      execute_missesTable hp h.frame haccess.walked hmisses
    rw [step_of_decodeAt p.image maxFrames hip hread, hcrash]
    cases State.poll? (s.steps + 1) s.polls with
    | none => exact ⟨_, rfl, .inr rfl⟩
    | some polls => exact ⟨_, rfl, .inl rfl⟩

/-- The machine makes no object without a table. -/
lemma hasTables_step {maxFrames : Int} (h : SafeNext p (.running s)) (htables : HasTables s.heap)
    {s' : State} (hstep : s.step p.image maxFrames = .running s') : HasTables s'.heap := by
  have hheap {d : Datum} {callers : List Frame} {depth steps : Nat} {polls : Option Nat}
      (hleave : State.leave d callers depth s.heap steps polls = .running s') :
      HasTables s'.heap := by
    obtain ⟨f, rest, -, rfl⟩ := leave_eq_running hleave
    exact htables
  rcases reads_of_safe hp h.frame with hend | ⟨i, hip, hread, haccess⟩
  · rw [step_at_end p.image maxFrames (Int.le_of_eq hend.symm)] at hstep
    exact hheap hstep
  rw [step_of_decodeAt p.image maxFrames hip hread] at hstep
  cases hpoll : State.poll? (s.steps + 1) s.polls with
  | none =>
    rw [hpoll] at hstep
    cases hstep
  | some polls =>
    have hsafe : SafeAction p s.heap (s.frame.execute p.image s.heap i) :=
      execute_safe hp h.closed h.frame haccess.walked (not_missesTable htables s.frame i)
    rw [hpoll] at hstep
    generalize s.frame.execute p.image s.heap i = action at hsafe hstep
    cases hsafe with
    | next hg =>
      cases hstep
      exact hg.tables htables
    | call =>
      obtain ⟨r, -, -, rfl⟩ := enter_eq_running hstep
      exact htables
    | leave => exact hheap hstep
    | fault => cases hstep

lemma upcoming_safe (h : SafeNext p (.running s)) :
    s.upcoming = none ∨ ∃ i, s.upcoming = some (.ok i) ∧ SafeAccess p s i := by
  rcases reads_of_safe hp h.frame with hend | ⟨i, hip, hread, haccess⟩
  · exact .inl (upcoming_at_end hend)
  · exact .inr ⟨i, upcoming_of_decodeAt hip hread, haccess⟩

end Steps

lemma start_safe {p : Program} (hp : SoundProgram p) (settings : Machine.Settings) (steps : Nat)
    (entry : Text) {heap : Heap} (hheap : Closed heap) {arguments : List Datum}
    (harguments : ∀ d ∈ arguments, Within heap d) :
    SafeNext p (Machine.start ⟨p.image, steps⟩ settings entry heap arguments) := by
  unfold Machine.start
  cases hk : p.image.routines.findIdx? fun r => r.name = entry with
  | none => exact .fault nofun
  | some k =>
    have hlt : k < p.functions.length := by
      obtain ⟨hlt, -⟩ := Array.findIdx?_eq_some_iff_getElem.mp hk
      simpa [Program.image] using hlt
    exact enter_safe hp settings.maxFrames hheap (List.forall_mem_nil _) hlt harguments _ _ _

section Runs

variable {p : Program} (hp : SoundProgram p) {maxFrames : Int} {c : State.Next} (hc : SafeNext p c)

include hp hc

/-- A run that has not ended is safe, for a store that misses a table would have ended it. -/
lemma safe_of_reaches {s : State} (h : (process p.image maxFrames).Reaches c (.running s)) :
    SafeNext p (.running s) := by
  refine h.state_invariant (P := fun s => SafeNext p (.running s)) (fun s hs => hs ▸ hc) ?_
  intro s s' _ hsafe hstep
  by_cases hmisses : StoresNowhere s
  · obtain ⟨f, hdone, -⟩ := step_storesNowhere hp maxFrames hsafe hmisses
    cases hstep.symm.trans hdone
  · rw [← hstep]
    exact step_safe hp maxFrames hsafe hmisses

lemma hasTables_of_reaches (hstart : ∀ s, c = .running s → HasTables s.heap) {s : State}
    (h : (process p.image maxFrames).Reaches c (.running s)) : HasTables s.heap :=
  h.state_invariant hstart fun _ _ hs htables hstep =>
    hasTables_step hp (safe_of_reaches hp hc hs) htables hstep

/-- A run ends safely, or with a crash where a store misses its table. -/
lemma outcome_safe {n : Nat} {f : Final}
    (h : outcome? ((advance p.image maxFrames)^[n] c) = some f) :
    EndsSafely f ∨ f.outcome = .crash ∧
      ∃ s, (process p.image maxFrames).Reaches c (.running s) ∧ StoresNowhere s := by
  induction n generalizing c with
  | zero =>
    cases hc with
    | running => cases h
    | done hends =>
      cases h
      exact .inl hends
  | succ n ih =>
    rw [Function.iterate_succ_apply] at h
    cases c with
    | done g => exact ih hc h
    | running s =>
      by_cases hmisses : StoresNowhere s
      · obtain ⟨g, hstep, hends⟩ := step_storesNowhere hp maxFrames hc hmisses
        rw [advance, hstep, Function.iterate_fixed rfl] at h
        cases h
        rcases hends with hcrash | hcancelled
        · exact .inr ⟨hcrash, s, .refl _ _, hmisses⟩
        · exact .inl ⟨by simp [hcancelled], by simp [hcancelled]⟩
      · refine (ih (step_safe hp maxFrames hc hmisses) h).imp_right ?_
        rintro ⟨hcrash, t, hreach, hmisses⟩
        exact ⟨hcrash, t, .head hreach, hmisses⟩

end Runs

/-- A run that starts with no object that misses a table never comes to miss one. -/
lemma not_storesNowhere_of_reaches {p : Program} (hp : SoundProgram p) {settings : Machine.Settings}
    {steps : Nat} {entry : Text} {heap : Heap} {arguments : List Datum}
    (hstart : SafeNext p (Machine.start ⟨p.image, steps⟩ settings entry heap arguments))
    (htables : HasTables heap) {s : State} (hs : (process p.image settings.maxFrames).Reaches
      (Machine.start ⟨p.image, steps⟩ settings entry heap arguments) (.running s)) :
    ¬StoresNowhere s := by
  refine not_storesNowhere (hasTables_of_reaches hp hstart (fun s hs => ?_) hs)
  obtain ⟨-, hsame, -, -⟩ := start_running hs
  rwa [hsame]

/-- Watching does not change how a run ends in which every instruction can be read. -/
lemma finish_of_finishWatched {ν : Type} {watch : Routine → Instruction → List Datum → Heap → ν}
    {image : Image} {maxFrames : Int} {limit : Nat} {c : State.Next}
    (hreads : ∀ s, (process image maxFrames).Reaches c (.running s) →
      s.upcoming = none ∨ ∃ i, s.upcoming = some (.ok i))
    {notes notes' : List ν} {f : Final}
    (h : Machine.finishWatched watch image maxFrames limit notes c = some (f, notes')) :
    Machine.finish image maxFrames limit c = some f := by
  induction limit generalizing c notes with
  | zero =>
    cases c with
    | done g =>
      cases h
      rfl
    | running s => cases h
  | succ limit ih =>
    cases c with
    | done g =>
      cases h
      rfl
    | running s =>
      rw [Machine.finishWatched] at h
      rw [Machine.finish]
      have hlater := fun t ht => hreads t (.head ht)
      rcases hreads s (.refl _ _) with hnone | ⟨i, hi⟩
      · simp only [hnone] at h
        exact ih hlater h
      · simp only [hi] at h
        exact ih hlater h

/-- Verification makes execution safe. In every state of a run of a verified program, all frames stand
at the start of an instruction or at the end of their code, and the next instruction reads nothing
that is not there. If every object that the run starts with has a table of fields, then no run,
watched or not, ends with a crash or an instruction that cannot be read. -/
theorem verified_runs_safely {p : Program} (hverify : p.verify = .ok ())
    (settings : Machine.Settings) (steps : Nat) (entry : Text) (heap : Heap) (hheap : Closed heap)
    (arguments : List Datum) (harguments : ∀ d ∈ arguments, Within heap d) :
    let machine : Machine := ⟨p.image, steps⟩
    (∀ s, (process p.image settings.maxFrames).Reaches
        (machine.start settings entry heap arguments) (.running s) →
      (∀ f ∈ s.frame :: s.callers, f.routine ∈ p.functions ∧ Boundary f.routine.bytes f.ip) ∧
        (s.upcoming = none ∨ ∃ i, s.upcoming = some (.ok i) ∧ SafeAccess p s i)) ∧
      (HasTables heap →
        (∀ limit final, machine.run settings limit entry heap arguments = some final →
          EndsSafely final) ∧
        ∀ (ν : Type) (watch : Routine → Instruction → List Datum → Heap → ν) limit final notes,
          machine.runWatched watch settings limit entry heap arguments = some (final, notes) →
          EndsSafely final) := by
  intro machine
  have hp := (verify_eq_ok_iff p).mp hverify
  have hstart := start_safe hp settings steps entry hheap harguments
  have hsafe {s : State} (hs : (process p.image settings.maxFrames).Reaches
      (machine.start settings entry heap arguments) (.running s)) : SafeNext p (.running s) :=
    safe_of_reaches hp hstart hs
  refine ⟨fun s hs => ?_, fun htables => ?_⟩
  · refine ⟨?_, upcoming_safe hp (hsafe hs)⟩
    cases hsafe hs with
    | running hh hframes => exact fun f hf => ⟨(hframes f hf).routine, (hframes f hf).boundary⟩
  have hends {limit : Nat} {final : Final} (hrun : Machine.finish p.image settings.maxFrames limit
      (machine.start settings entry heap arguments) = some final) : EndsSafely final := by
    rw [finish_eq] at hrun
    rcases outcome_safe hp hstart hrun with hends | ⟨-, s, hs, hmisses⟩
    · exact hends
    · exact absurd hmisses (not_storesNowhere_of_reaches hp hstart htables hs)
  refine ⟨fun limit final hrun => hends hrun, ?_⟩
  intro ν watch limit final notes hrun
  obtain ⟨result, hresult, heq⟩ := Option.map_eq_some_iff.mp hrun
  cases heq
  refine hends (finish_of_finishWatched (fun s hs => ?_) hresult)
  exact (upcoming_safe hp (hsafe hs)).imp_right fun ⟨i, hi, _⟩ => ⟨i, hi⟩

/-- Follows a field of its argument again and again, as long as it holds an object. -/
def follower : Program where
  functions := [
    { name := "main"
      code := some #[32, 0, 185, 0, 0, 33, 0, 128, 255, 246]
      params := 1 }]
  constants := [.str "next"]

/-- Two objects, of which the first points to the second. -/
def chain : Heap where
  objects := #[
    { className := "node", fields := some [("next", .object 1)] },
    { className := "node" }]

theorem follower_runs_safely :
    follower.verify = .ok () ∧ Closed chain ∧ Within chain (.object 0) ∧ HasTables chain ∧
      ∃ final, Machine.run ⟨follower.image, 0⟩ {} 20 "main" chain [.object 0] = some final ∧
        final.outcome = .fault ⟨.notObject "next" "null", "main", 2⟩ ∧ EndsSafely final := by
  have hverify : follower.verify = .ok () := by cbv
  have hclosed : Closed chain := by decide
  have hwithin : Within chain (.object 0) := by decide
  have htables : HasTables chain := by decide
  have hrun : Machine.run ⟨follower.image, 0⟩ {} 20 "main" chain [.object 0] =
      some ⟨.fault ⟨.notObject "next" "null", "main", 2⟩, chain, 10⟩ := by cbv
  refine ⟨hverify, hclosed, hwithin, htables, _, hrun, rfl, ?_⟩
  exact ((verified_runs_safely hverify {} 0 "main" chain hclosed [.object 0]
    (by simpa using hwithin)).2 htables).1 20 _ hrun

end StackCode.Proofs
