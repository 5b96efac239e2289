import StackCode.Proofs.ExecutionSafety
import StackCode.Proofs.Fallible

/-!
# What arrays and objects contain

The parts of an array are its elements, those of an object the contents of its fields. Printing a
datum goes through its parts and theirs, so it comes to an end exactly if nothing that it leads to
contains itself. New arrays and objects have no parts. A store gives one of them a part, and closes
a loop exactly if that part leads to where it is stored.
-/

namespace StackCode.Proofs

/-- What an array or object consists of. -/
def parts (h : Heap) : Datum → List Datum
  | .scalar _ => []
  | .array a => (h.arrays.getD a #[]).toList
  | .object a => (h.objects.getD a { className := [] }).entries.map Prod.snd

@[simp]
lemma entries_new (className : Text) : Object.entries { className } = [] := rfl

def HasPart (h : Heap) (x y : Datum) : Prop := y ∈ parts h x

/-- The first datum is the second one, or contains it. -/
def LeadsTo (h : Heap) : Datum → Datum → Prop := Relation.ReflTransGen (HasPart h)

/-- The first datum contains the second one, directly or through other arrays and objects. -/
def Contains (h : Heap) : Datum → Datum → Prop := Relation.TransGen (HasPart h)

/-- Nothing in the heap contains itself. -/
def Acyclic (h : Heap) : Prop := ∀ x, ¬Contains h x x

/-- Nothing that the datum leads to contains itself. -/
def AcyclicBelow (h : Heap) (d : Datum) : Prop := ∀ x, LeadsTo h d x → ¬Contains h x x

lemma AcyclicBelow.part {h : Heap} {x y : Datum} (hx : AcyclicBelow h x) (hxy : HasPart h x y) :
    AcyclicBelow h y :=
  fun z hz => hx z (.head hxy hz)

/-! ### Printing -/

lemma isSome_mapM_iff {α β : Type} {f : α → Option β} {xs : List α} :
    (xs.mapM f).isSome ↔ ∀ x ∈ xs, (f x).isSome := by
  induction xs with
  | nil => simp
  | cons x xs ih =>
    rw [List.forall_mem_cons, ← ih, List.mapM_cons]
    cases f x <;> cases xs.mapM f <;> simp

lemma textWithin_scalar (h : Heap) (depth : Nat) (v : Value) :
    h.textWithin depth (.scalar v) = some v.text := by
  cases depth <;> rfl

lemma textWithin_array (h : Heap) (depth a : Nat) :
    h.textWithin (depth + 1) (.array a) =
      ((h.arrays.getD a #[]).toList.mapM (h.textWithin depth)).map
        fun ts => "[" ++ Text.join ", " ts ++ "]" := by
  rw [Heap.textWithin]
  exact bind_pure_comp ..

lemma textWithin_object (h : Heap) (depth a : Nat) :
    h.textWithin (depth + 1) (.object a) =
      (((h.objects.getD a { className := [] }).entries.mergeSort fun f g =>
          !Text.before g.1 f.1).mapM
        fun f : Text × Datum => (h.textWithin depth f.2).map fun t => f.1 ++ ": " ++ t).map
          fun ts => (h.objects.getD a { className := [] }).className ++ "\x7b" ++
            Text.join ", " ts ++ "\x7d" := by
  rw [Heap.textWithin]
  refine (bind_pure_comp ..).trans ?_
  congr 2
  funext f
  exact bind_pure_comp ..

/-- One level of depth is what it takes to print an array or object whose parts can be printed. -/
lemma isSome_textWithin_succ (h : Heap) (depth : Nat) (d : Datum) :
    (h.textWithin (depth + 1) d).isSome ↔ ∀ e ∈ parts h d, (h.textWithin depth e).isSome := by
  cases d with
  | scalar v => simp [textWithin_scalar, parts]
  | array a => rw [textWithin_array, Option.isSome_map, isSome_mapM_iff, parts]
  | object a =>
    rw [textWithin_object, Option.isSome_map, isSome_mapM_iff, parts]
    simp only [List.mem_mergeSort, Option.isSome_map, List.forall_mem_map]

/-- What a printed datum has as a part is printed with less depth. -/
lemma textWithin_part {h : Heap} {depth : Nat} {x y : Datum} (hx : (h.textWithin depth x).isSome)
    (hxy : HasPart h x y) : ∃ less < depth, (h.textWithin less y).isSome := by
  cases depth with
  | succ depth => exact ⟨depth, Nat.lt_succ_self _, (isSome_textWithin_succ h depth x).mp hx y hxy⟩
  | zero =>
    cases x with
    | scalar v => cases hxy
    | array a => cases hx
    | object a => cases hx

lemma textWithin_leadsTo {h : Heap} {depth : Nat} {x y : Datum}
    (hx : (h.textWithin depth x).isSome) (hxy : LeadsTo h x y) :
    ∃ less ≤ depth, (h.textWithin less y).isSome := by
  induction hxy with
  | refl => exact ⟨depth, Nat.le_refl _, hx⟩
  | tail _ hpart ih =>
    obtain ⟨less, hless, hy⟩ := ih
    obtain ⟨least, hleast, hz⟩ := textWithin_part hy hpart
    exact ⟨least, by omega, hz⟩

/-- What contains itself would have to be printed with ever less depth. -/
lemma not_contains_self {h : Heap} {depth : Nat} {x : Datum} (hx : (h.textWithin depth x).isSome) :
    ¬Contains h x x := by
  induction depth using Nat.strongRecOn with
  | ind depth ih =>
    intro hself
    obtain ⟨y, hpart, hback⟩ := Relation.TransGen.head'_iff.mp hself
    obtain ⟨less, hless, hy⟩ := textWithin_part hx hpart
    obtain ⟨least, hleast, hx'⟩ := textWithin_leadsTo hy hback
    exact ih least (by omega) hx' hself

lemma acyclicBelow_of_textWithin {h : Heap} {depth : Nat} {d : Datum}
    (hd : (h.textWithin depth d).isSome) : AcyclicBelow h d := by
  intro x hx
  obtain ⟨less, -, hprinted⟩ := textWithin_leadsTo hd hx
  exact not_contains_self hprinted

lemma within_part {h : Heap} (hh : Closed h) {x y : Datum} (hxy : HasPart h x y) : Within h y := by
  cases x with
  | scalar v => cases hxy
  | array a =>
    by_cases ha : a < h.arrays.size
    · have hy : y ∈ h.arrays[a] := by simpa [HasPart, parts, ha] using hxy
      exact hh.arrays _ (Array.getElem_mem ha) y hy
    · simp [HasPart, parts, ha] at hxy
  | object a =>
    by_cases ha : a < h.objects.size
    · obtain ⟨name, hy⟩ : ∃ name, (name, y) ∈ h.objects[a].entries := by
        simpa [HasPart, parts, ha] using hxy
      exact hh.objects _ (Array.getElem_mem ha) _ hy
    · simp [HasPart, parts, ha] at hxy

/-- The arrays and objects of the heap. -/
def containers (h : Heap) : Finset Datum :=
  (Finset.range h.arrays.size).image .array ∪ (Finset.range h.objects.size).image .object

lemma mem_containers {h : Heap} {d : Datum} :
    d ∈ containers h ↔ Within h d ∧ ∀ v, d ≠ .scalar v := by
  cases d <;> simp [containers, Within]

lemma card_containers_le (h : Heap) : (containers h).card ≤ h.arrays.size + h.objects.size := by
  have harrays := Finset.card_image_le (s := Finset.range h.arrays.size) (f := Datum.array)
  have hobjects := Finset.card_image_le (s := Finset.range h.objects.size) (f := Datum.object)
  rw [Finset.card_range] at harrays hobjects
  exact (Finset.card_union_le ..).trans (Nat.add_le_add harrays hobjects)

open Classical in
/-- The arrays and objects that a datum leads to. -/
noncomputable def below (h : Heap) (d : Datum) : Finset Datum := (containers h).filter (LeadsTo h d)

open Classical in
lemma mem_below {h : Heap} {x y : Datum} : y ∈ below h x ↔ y ∈ containers h ∧ LeadsTo h x y :=
  Finset.mem_filter

/-- Without loops the parts of an array or object lead to less than itself. -/
lemma card_below_lt {h : Heap} {x y : Datum} (hx : x ∈ containers h) (hacyclic : AcyclicBelow h x)
    (hxy : HasPart h x y) : (below h y).card < (below h x).card := by
  apply Finset.card_lt_card
  refine (Finset.ssubset_iff_of_subset ?_).mpr ⟨x, mem_below.mpr ⟨hx, .refl⟩, ?_⟩
  · intro z hz
    obtain ⟨hmem, hlead⟩ := mem_below.mp hz
    exact mem_below.mpr ⟨hmem, .head hxy hlead⟩
  · intro hback
    exact hacyclic x .refl (.head' hxy (mem_below.mp hback).2)

/-- A datum above no loop is nested at most as deep as there are arrays and objects below it. -/
lemma isSome_textWithin {h : Heap} (hh : Closed h) {depth : Nat} {d : Datum} (hd : Within h d)
    (hacyclic : AcyclicBelow h d) (hdepth : (below h d).card ≤ depth) :
    (h.textWithin depth d).isSome := by
  have hmem (hcontainer : ∀ v, d ≠ .scalar v) : d ∈ containers h :=
    mem_containers.mpr ⟨hd, hcontainer⟩
  induction depth generalizing d with
  | zero =>
    cases d with
    | scalar v => rfl
    | _ =>
      have hpos := Finset.card_pos.mpr ⟨_, mem_below.mpr ⟨hmem nofun, .refl⟩⟩
      omega
  | succ depth ih =>
    refine (isSome_textWithin_succ h depth d).mpr fun e he => ?_
    have hcontainer : ∀ v, d ≠ .scalar v := by
      rintro v rfl
      cases he
    have hless := card_below_lt (hmem hcontainer) hacyclic he
    have he' := within_part hh he
    exact ih he' (hacyclic.part he) (by omega) fun hc => mem_containers.mpr ⟨he', hc⟩

/-- A datum has a text exactly if nothing below it contains itself. -/
lemma isSome_text_iff {h : Heap} (hh : Closed h) {d : Datum} (hd : Within h d) :
    (h.text? d).isSome ↔ AcyclicBelow h d := by
  refine ⟨acyclicBelow_of_textWithin, fun hacyclic => ?_⟩
  refine isSome_textWithin hh hd hacyclic ?_
  exact (Finset.card_le_card fun x hx => (mem_below.mp hx).1).trans (card_containers_le h)

lemma mapM_eq_some_of_imp {α β : Type} {f g : α → Option β} {xs : List α} {ys : List β}
    (hfg : ∀ x y, f x = some y → g x = some y) (h : xs.mapM f = some ys) : xs.mapM g = some ys := by
  induction xs generalizing ys with
  | nil => exact h
  | cons x xs ih =>
    rw [List.mapM_cons] at h ⊢
    cases hx : f x with
    | none => simp [hx] at h
    | some y =>
      cases hxs : xs.mapM f with
      | none => simp [hx, hxs] at h
      | some zs => simpa [hx, hxs, hfg x y hx, ih hxs] using h

/-- More depth does not change a text. -/
lemma textWithin_succ {h : Heap} {depth : Nat} {d : Datum} {t : Text}
    (ht : h.textWithin depth d = some t) : h.textWithin (depth + 1) d = some t := by
  induction depth generalizing d t with
  | zero =>
    cases d with
    | scalar v => exact ht
    | array a => cases ht
    | object a => cases ht
  | succ depth ih =>
    cases d with
    | scalar v => exact ht
    | array a =>
      rw [textWithin_array] at ht ⊢
      obtain ⟨ts, hts, rfl⟩ := Option.map_eq_some_iff.mp ht
      rw [mapM_eq_some_of_imp (fun _ _ => ih) hts]
      rfl
    | object a =>
      rw [textWithin_object] at ht ⊢
      obtain ⟨ts, hts, rfl⟩ := Option.map_eq_some_iff.mp ht
      have hfields (f : Text × Datum) (t : Text)
          (hf : (h.textWithin depth f.2).map (fun t => f.1 ++ ": " ++ t) = some t) :
          (h.textWithin (depth + 1) f.2).map (fun t => f.1 ++ ": " ++ t) = some t := by
        obtain ⟨t', ht', rfl⟩ := Option.map_eq_some_iff.mp hf
        rw [ih ht']
        rfl
      rw [mapM_eq_some_of_imp hfields hts]
      rfl

lemma textWithin_mono {h : Heap} {m n : Nat} (hmn : m ≤ n) {d : Datum} {t : Text}
    (ht : h.textWithin m d = some t) : h.textWithin n d = some t := by
  induction hmn with
  | refl => exact ht
  | step _ ih => exact textWithin_succ ih

/-- The text of a datum is what printing it gives at any depth that is enough. -/
lemma text_eq_some_iff {h : Heap} (hh : Closed h) {d : Datum} (hd : Within h d) (t : Text) :
    h.text? d = some t ↔ ∃ depth, h.textWithin depth d = some t := by
  refine ⟨fun ht => ⟨_, ht⟩, ?_⟩
  rintro ⟨depth, ht⟩
  have hacyclic : AcyclicBelow h d := acyclicBelow_of_textWithin (by rw [ht]; rfl)
  obtain ⟨t', ht'⟩ := Option.isSome_iff_exists.mp ((isSome_text_iff hh hd).mpr hacyclic)
  let most := max depth (h.arrays.size + h.objects.size)
  have hdeep : h.textWithin most d = some t := textWithin_mono (Nat.le_max_left ..) ht
  have hdeep' : h.textWithin most d = some t' := textWithin_mono (Nat.le_max_right ..) ht'
  rw [ht', ← hdeep', hdeep]

/-! ### Stores -/

/-- A datum was stored in an array or object, possibly in place of another part. -/
structure Stored (h h' : Heap) (d target : Datum) : Prop where
  elsewhere : ∀ x, x ≠ target → parts h' x = parts h x
  replaced : ∀ y, HasPart h' target y → HasPart h target y ∨ y = d
  stored : HasPart h' target d

/-- A new way from one datum to another goes through what was stored. -/
lemma Stored.contains {h h' : Heap} {d target : Datum} (hs : Stored h h' d target) {x y : Datum}
    (hxy : Contains h' x y) : Contains h x y ∨ LeadsTo h x target ∧ LeadsTo h d y := by
  have hpart {x y : Datum} (hxy : HasPart h' x y) : HasPart h x y ∨ x = target ∧ y = d := by
    by_cases hx : x = target
    · subst hx
      exact (hs.replaced y hxy).imp_right fun hy => ⟨rfl, hy⟩
    · rw [HasPart, hs.elsewhere x hx] at hxy
      exact .inl hxy
  induction hxy with
  | single hxy =>
    rcases hpart hxy with hxy | ⟨rfl, rfl⟩
    · exact .inl (.single hxy)
    · exact .inr ⟨.refl, .refl⟩
  | tail _ hyz ih =>
    rcases hpart hyz with hyz | ⟨rfl, rfl⟩
    · exact ih.imp (fun hxy => hxy.tail hyz) fun ⟨hx, hy⟩ => ⟨hx, hy.tail hyz⟩
    · rcases ih with hxy | ⟨hx, -⟩
      · exact .inr ⟨hxy.to_reflTransGen, .refl⟩
      · exact .inr ⟨hx, .refl⟩

/-- A way to the target does not need what the target had as its parts. -/
lemma Stored.leadsTo {h h' : Heap} {d target : Datum} (hs : Stored h h' d target) {x : Datum}
    (hx : LeadsTo h x target) : LeadsTo h' x target := by
  induction hx using Relation.ReflTransGen.head_induction_on with
  | refl => exact .refl
  | @head x y hxy _ ih =>
    by_cases hx : x = target
    · subst hx
      exact .refl
    · rw [HasPart, ← hs.elsewhere x hx] at hxy
      exact .head hxy ih

/-- A store closes a loop exactly if what is stored leads to where it is stored. -/
lemma Stored.acyclic_iff {h h' : Heap} {d target : Datum} (hs : Stored h h' d target)
    (hh : Acyclic h) : Acyclic h' ↔ ¬LeadsTo h d target := by
  constructor
  · intro hh' hd
    exact hh' target (.head' hs.stored (hs.leadsTo hd))
  · intro hd x hself
    rcases hs.contains hself with hself | ⟨hx, hx'⟩
    · exact hh x hself
    · exact hd (hx'.trans hx)

lemma acyclic_congr {h h' : Heap} (hparts : ∀ x, parts h' x = parts h x) :
    Acyclic h' ↔ Acyclic h := by
  have hpart : HasPart h' = HasPart h := by
    funext x y
    rw [HasPart, HasPart, hparts]
  rw [Acyclic, Acyclic, Contains, Contains, hpart]

lemma parts_addArray (h : Heap) (x : Datum) : parts (h.addArray #[]).1 x = parts h x := by
  cases x with
  | array a =>
    by_cases ha : a = h.arrays.size
    · subst ha
      simp [parts, Heap.addArray]
    · simp [parts, Heap.addArray, Array.getElem?_push, ha]
  | _ => rfl

lemma parts_addObject (h : Heap) (className : Text) (x : Datum) :
    parts (h.addObject { className }).1 x = parts h x := by
  cases x with
  | object a =>
    by_cases ha : a = h.objects.size
    · subst ha
      simp [parts, Heap.addObject]
    · simp [parts, Heap.addObject, Array.getElem?_push, ha]
  | _ => rfl

lemma mem_putElement_self (k : Nat) (d : Datum) (elems : Array Datum) :
    d ∈ Frame.putElement k d elems := by
  unfold Frame.putElement
  split_ifs with hk
  · rw [Array.setIfInBounds_def, dif_pos hk]
    exact Array.mem_set ..
  · exact Array.mem_push_self

lemma stored_element {h : Heap} {a : Nat} (ha : a < h.arrays.size) (k : Nat) (d : Datum) :
    Stored h ⟨h.arrays.modify a (Frame.putElement k d), h.objects⟩ d (.array a) := by
  have hnew : parts ⟨h.arrays.modify a (Frame.putElement k d), h.objects⟩ (.array a) =
      (Frame.putElement k d h.arrays[a]).toList := by
    simp [parts, ha, Array.getElem_modify]
  have hold : parts h (.array a) = h.arrays[a].toList := by simp [parts, ha]
  refine ⟨fun x hx => ?_, fun y hy => ?_, ?_⟩
  · cases x with
    | array b =>
      have hne : a ≠ b := fun he => hx (by rw [he])
      simp [parts, Array.getElem?_modify, hne]
    | _ => rfl
  · rw [HasPart, hnew, Array.mem_toList_iff] at hy
    rw [HasPart, hold, Array.mem_toList_iff]
    exact mem_putElement hy
  · rw [HasPart, hnew, Array.mem_toList_iff]
    exact mem_putElement_self k d _

lemma mem_write_self (name : Text) (d : Datum) (fields : List (Text × Datum)) :
    (name, d) ∈ Object.write name d fields := by
  induction fields with
  | nil => exact List.mem_singleton_self _
  | cons f fields ih =>
    obtain ⟨n, old⟩ := f
    rw [Object.write]
    split_ifs
    · exact List.mem_cons_self
    · exact List.mem_cons_of_mem _ ih

lemma entries_set {o : Object} (h : o.hasTable) (name : Text) (d : Datum) :
    (o.set name d).entries = Object.write name d o.entries := by
  obtain ⟨className, _ | fields⟩ := o
  · cases h
  · rfl

lemma stored_field {h : Heap} {a : Nat} (htable : h.objects[a]?.any Object.hasTable) (name : Text)
    (d : Datum) : Stored h ⟨h.arrays, h.objects.modify a (·.set name d)⟩ d (.object a) := by
  obtain ⟨o, ho, htable⟩ := (Option.any_eq_true _ _).mp htable
  obtain ⟨ha, rfl⟩ := Array.getElem?_eq_some_iff.mp ho
  have hnew : parts ⟨h.arrays, h.objects.modify a (·.set name d)⟩ (.object a) =
      (Object.write name d h.objects[a].entries).map Prod.snd := by
    simp [parts, ha, Array.getElem_modify, entries_set htable]
  have hold : parts h (.object a) = h.objects[a].entries.map Prod.snd := by simp [parts, ha]
  refine ⟨fun x hx => ?_, fun y hy => ?_, ?_⟩
  · cases x with
    | object b =>
      have hne : a ≠ b := fun he => hx (by rw [he])
      simp [parts, Array.getElem?_modify, hne]
    | _ => rfl
  · rw [HasPart, hnew] at hy
    rw [HasPart, hold]
    obtain ⟨f, hf, rfl⟩ := List.mem_map.mp hy
    exact (mem_write hf).imp_left List.mem_map_of_mem
  · rw [HasPart, hnew]
    exact List.mem_map_of_mem (mem_write_self name d _)

/-! ### Instructions -/

/-- The instruction is a store, and its operands are the datum and the array or object. -/
def StoresIn (f : Frame) (i : Instruction) (d target : Datum) : Prop :=
  (i.op = .storeArray ∧ ∃ index rest, f.stack = d :: index :: target :: rest) ∨
    (i.op = .storeField ∧ ∃ rest, f.stack = d :: target :: rest)

/-- What an instruction does to the parts of arrays and objects. -/
structure Alters (f : Frame) (i : Instruction) (h h' : Heap) : Prop where
  stores : ∀ d target, StoresIn f i d target → Stored h h' d target
  others : (∀ d target, ¬StoresIn f i d target) → ∀ x, parts h' x = parts h x

lemma alters_of_parts {f : Frame} {i : Instruction} {h h' : Heap}
    (hop : i.op ≠ .storeArray ∧ i.op ≠ .storeField) (hparts : ∀ x, parts h' x = parts h x) :
    Alters f i h h' := by
  refine ⟨?_, fun _ => hparts⟩
  rintro d target (⟨hstore, -⟩ | ⟨hstore, -⟩)
  · exact absurd hstore hop.1
  · exact absurd hstore hop.2

lemma arrayIndex_address {array index : Datum} {a k : Nat}
    (h : Frame.arrayIndex array index = .ok (a, k)) : array = .array a := by
  unfold Frame.arrayIndex at h
  split at h
  · split at h
    · split_ifs at h
      cases h
      rfl
    · cases h
  · cases h

/-- A store finds its place only in an array of the heap. -/
lemma storePlace_ok {h : Heap} {array index : Datum} {a k : Nat}
    (hplace : Frame.storePlace h array index = .ok (some (a, k))) :
    array = .array a ∧ a < h.arrays.size := by
  unfold Frame.storePlace at hplace
  obtain ⟨⟨b, j⟩, hindex, hfound⟩ := bind_eq_ok_iff.mp hplace
  have harray := arrayIndex_address hindex
  simp only at hfound
  split at hfound
  · cases hfound
  · rename_i elems helems
    split_ifs at hfound
    cases hfound
    obtain ⟨ha, -⟩ := Array.getElem?_eq_some_iff.mp helems
    exact ⟨harray, ha⟩

/-- The heap with which a run goes on after an instruction. -/
def heapAfter? : Frame.Action → Option Heap
  | .next _ h | .call _ _ _ h | .leave _ h => some h
  | .fault _ _ | .crash _ => none

lemma execute_alters {image : Image} {h h' : Heap} {f : Frame} {i : Instruction}
    (hafter : heapAfter? (f.execute image h i) = some h') : Alters f i h h' := by
  obtain ⟨r, ip, slots, stack⟩ := f
  obtain ⟨op, offset, operand, argc, jump, target⟩ := i
  cases op with
  | newArray =>
    cases hafter
    exact alters_of_parts (by simp) (parts_addArray h)
  | newObject =>
    simp only [Frame.execute] at hafter
    split at hafter
    · cases hafter
      exact alters_of_parts (by simp) (parts_addObject h _)
    · cases hafter
  | storeArray =>
    obtain _ | ⟨d, _ | ⟨index, _ | ⟨array, rest⟩⟩⟩ := stack
    · cases hafter
    · cases hafter
    · cases hafter
    · simp only [Frame.execute] at hafter
      split at hafter
      · rename_i a k hplace
        cases hafter
        obtain ⟨rfl, ha⟩ := storePlace_ok hplace
        refine ⟨?_, fun hnone => absurd (.inl ⟨rfl, _, _, rfl⟩) (hnone d (.array a))⟩
        rintro _ _ (⟨-, _, _, heq⟩ | ⟨hop, -⟩)
        · cases heq
          exact stored_element ha k d
        · cases hop
      · cases hafter
      · cases hafter
  | storeField =>
    obtain _ | ⟨d, _ | ⟨object, rest⟩⟩ := stack
    · cases hafter
    · cases hafter
    · simp only [Frame.execute] at hafter
      split at hafter
      · cases hafter
      · split at hafter
        · split_ifs at hafter with ha
          · cases hafter
            refine ⟨?_, fun hnone => absurd (.inr ⟨rfl, _, rfl⟩) (hnone d _)⟩
            rintro _ _ (⟨hop, -⟩ | ⟨-, _, heq⟩)
            · cases hop
            · cases heq
              exact stored_field ha _ d
          · cases hafter
        · cases hafter
  | _ =>
    -- No other instruction writes to the heap.
    refine alters_of_parts (by simp) fun x => ?_
    simp only [Frame.execute] at hafter
    repeat' split at hafter
    all_goals cases hafter <;> rfl

end StackCode.Proofs
