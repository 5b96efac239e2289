import StackCode.Cbor.Decode
import StackCode.Proofs.NumberBytes

/-!
# Reading back CBOR

What the writers write is read back as the item that it stands for, if that keeps the limits on
nesting and on the number of elements, and is refused otherwise.
-/

namespace StackCode.Proofs

open Cbor Text

/-! ### Heads -/

/-- The short argument in the shortest head. -/
def headInfo (n : Nat) : Nat :=
  if n < 24 then n
  else if n < 256 then 24 else if n < 65536 then 25 else if n < 4294967296 then 26 else 27

lemma headInfo_lt (n : Nat) : headInfo n < 28 := by
  unfold headInfo
  split_ifs <;> omega

lemma toNat_lead {major info : Nat} (hmajor : major < 8) (hinfo : info < 32) :
    (major * 32 + info).toUInt8.toNat = major * 32 + info := by
  rw [Nat.toUInt8, UInt8.toNat_ofNat']
  omega

lemma head_eq_cons {major : Nat} (hmajor : major < 8) (n : Nat) :
    ∃ b t, head major n = b :: t ∧ b.toNat = major * 32 + headInfo n := by
  have hinfo := headInfo_lt n
  have hlead := toNat_lead hmajor (show headInfo n < 32 by omega)
  unfold head headInfo at *
  dsimp only
  split_ifs at hlead ⊢ <;> exact ⟨_, _, rfl, hlead⟩

lemma take_head {major n : Nat} (hmajor : major < 7) (hn : n < 2 ^ 64) (rest : Text) :
    Head.take (head major n ++ rest) = some (⟨major, headInfo n, n⟩, rest) := by
  have hwide : ∀ width, takeExact? width (bigEndianBytes width n ++ rest) =
      some (bigEndianBytes width n, rest) :=
    fun width => takeExact?_eq_some_iff.mpr ⟨rfl, length_bigEndianBytes width n⟩
  unfold head headInfo
  dsimp only
  split_ifs with hsmall hbyte hword hlong
  · have hdiv : (major * 32 + n) % 256 / 32 = major := by omega
    have hmod : (major * 32 + n) % 32 = n := by omega
    simp [Head.take, hdiv, hmod, hsmall]
  · have hdiv : (major * 32 + 24) % 256 / 32 = major := by omega
    have hseven : major ≠ 7 := by omega
    simp [Head.take, hwide 1, bigEndian_bigEndianBytes (show n < 256 ^ 1 by omega), hdiv, hseven]
  · have hdiv : (major * 32 + 25) % 256 / 32 = major := by omega
    simp [Head.take, hwide 2, bigEndian_bigEndianBytes (show n < 256 ^ 2 by omega), hdiv]
  · have hdiv : (major * 32 + 26) % 256 / 32 = major := by omega
    simp [Head.take, hwide 4, bigEndian_bigEndianBytes (show n < 256 ^ 4 by omega), hdiv]
  · have hdiv : (major * 32 + 27) % 256 / 32 = major := by omega
    simp [Head.take, hwide 8, bigEndian_bigEndianBytes (show n < 256 ^ 8 by omega), hdiv]

lemma takeTags_head {major n : Nat} (hmajor : major < 6) (fuel : Nat) (rest : Text) :
    takeTags fuel [] (head major n ++ rest) = some ([], head major n ++ rest) := by
  have hinfo := headInfo_lt n
  obtain ⟨b, t, ht, hb⟩ := head_eq_cons (show major < 8 by omega) n
  have hlead : b.toNat / 32 ≠ 6 := by omega
  rw [ht, List.cons_append]
  unfold takeTags
  simp [hlead]

lemma not_isIndefinite (major n : Nat) : Head.isIndefinite ⟨major, headInfo n, n⟩ = false := by
  have hinfo := headInfo_lt n
  simp only [Head.isIndefinite, decide_eq_false_iff_not]
  omega

/-! ### Items -/

section Items

variable (fuel levels : Nat) {n : Nat} (hn : n < 2 ^ 64) (rest : Text)

include hn

lemma takeItem_uint : takeItem (fuel + 1) levels (head 0 n ++ rest) = some (.uint n, rest) := by
  simp [takeItem, takeTags_head, take_head _ hn]

lemma takeItem_nint : takeItem (fuel + 1) levels (head 1 n ++ rest) = some (.nint n, rest) := by
  simp [takeItem, takeTags_head, take_head _ hn]

lemma takeItem_bytes : takeItem (fuel + 1) levels (head 2 n ++ rest) =
    (takeExact? n rest).map fun (t, rest) => (.bytes t, rest) := by
  simp [takeItem, takeTags_head, take_head _ hn, not_isIndefinite]
  cases takeExact? n rest <;> simp

lemma takeItem_text : takeItem (fuel + 1) levels (head 3 n ++ rest) =
    (takeExact? n rest).map fun (t, rest) => (.text [t], rest) := by
  simp [takeItem, takeTags_head, take_head _ hn, not_isIndefinite]
  cases takeExact? n rest <;> simp

lemma takeItem_array : takeItem (fuel + 1) levels (head 4 n ++ rest) =
    if levels = 0 ∨ maxElements < n then none
    else
      match takeMany (takeItem fuel (levels - 1)) n [] rest with
      | some (is, t) => if maxElements < is.length then none else some (.array is, t)
      | none => none := by
  cases helements : takeMany (takeItem fuel (levels - 1)) n [] rest <;>
    simp [takeItem, takeTags_head, take_head _ hn, not_isIndefinite, takeElements, helements]

lemma takeItem_map : takeItem (fuel + 1) levels (head 5 n ++ rest) =
    if levels = 0 ∨ maxElements < n then none
    else
      match takeMany (takeItem fuel (levels - 1)) (2 * n) [] rest with
      | some (is, t) =>
        if is.length % 2 = 1 ∨ 2 * maxElements < is.length then none
        else some (.map (pairUp is), t)
      | none => none := by
  cases helements : takeMany (takeItem fuel (levels - 1)) (2 * n) [] rest <;>
    simp [takeItem, takeTags_head, take_head _ hn, not_isIndefinite, takeElements, helements]

end Items

/-! ### What is written -/

/-- An item that keeps the limits of reading, with so many levels of nesting left. -/
def withinLimits : (levels : Nat) → Item → Bool
  | 0, .array _ | 0, .map _ => false
  | levels + 1, .array is => is.length ≤ maxElements && is.all (withinLimits levels)
  | levels + 1, .map es =>
    es.length ≤ maxElements && es.all fun e => withinLimits levels e.1 && withinLimits levels e.2
  | _, _ => true

lemma withinLimits_array (levels : Nat) (is : List Item) :
    withinLimits (levels + 1) (.array is) =
      (decide (is.length ≤ maxElements) && is.all (withinLimits levels)) := rfl

/-- A text that is read back as the item, or refused if that is beyond the limits. -/
structure Written (t : Text) (i : Item) : Prop where
  nonempty : 0 < t.length
  reads : t.length < 2 ^ 64 → ∀ fuel levels rest, levels < fuel →
    takeItem fuel levels (t ++ rest) = if withinLimits levels i then some (i, rest) else none

lemma length_head_pos (major n : Nat) : 0 < (head major n).length := by
  unfold head
  dsimp only
  split_ifs <;> simp

/-- What is written after a head that can be read on its own. -/
lemma written_of_head {major n : Nat} {t : Text} {i : Item}
    (h : (head major n ++ t).length < 2 ^ 64 → ∀ fuel levels rest, levels ≤ fuel →
      takeItem (fuel + 1) levels (head major n ++ (t ++ rest)) =
        if withinLimits levels i then some (i, rest) else none) :
    Written (head major n ++ t) i := by
  constructor
  · rw [List.length_append]
    have hpos := length_head_pos major n
    omega
  · intro hlength fuel levels rest hfuel
    cases fuel with
    | zero => omega
    | succ fuel =>
      rw [List.append_assoc]
      exact h hlength fuel levels rest (by omega)

lemma written_ofNat {n : Nat} (hn : n < 2 ^ 64) : Written (Cbor.ofNat n) (.uint n) := by
  rw [Cbor.ofNat, ← List.append_nil (head 0 n)]
  apply written_of_head
  intro _ fuel levels rest _
  rw [List.nil_append, takeItem_uint fuel levels hn]
  simp [withinLimits]

/-- A whole number as an item. -/
def integerItem (n : Int64) : Item :=
  if n.toInt < 0 then .nint (-1 - n.toInt).toNat else .uint n.toInt.toNat

lemma written_ofInt64 (n : Int64) : Written (ofInt64 n) (integerItem n) := by
  have hlow := n.le_toInt
  have hhigh := n.toInt_lt
  unfold ofInt64 integerItem
  split_ifs with hneg
  · rw [← List.append_nil (head 1 _)]
    apply written_of_head
    intro _ fuel levels rest _
    rw [List.nil_append, takeItem_nint fuel levels (by omega)]
    simp [withinLimits]
  · exact written_ofNat (by omega)

lemma written_ofBytes (t : Text) : Written (ofBytes t) (.bytes t) := by
  apply written_of_head
  intro hlength fuel levels rest _
  rw [List.length_append] at hlength
  rw [takeItem_bytes fuel levels (by omega), takeExact?_append]
  simp [withinLimits]

lemma written_ofText (t : Text) : Written (ofText t) (.text [t]) := by
  apply written_of_head
  intro hlength fuel levels rest _
  rw [List.length_append] at hlength
  rw [takeItem_text fuel levels (by omega), takeExact?_append]
  simp [withinLimits]

/-- A simple value with a head of one byte. -/
lemma written_simple {n : Nat} (hn : n < 24) : Written [(7 * 32 + n).toUInt8] (.simple n) := by
  constructor
  · simp
  · intro _ fuel levels rest hfuel
    have hlead : (7 * 32 + n).toUInt8.toNat = 7 * 32 + n := toNat_lead (by omega) (by omega)
    have hdiv : (7 * 32 + n) / 32 = 7 := by omega
    have hmod : (7 * 32 + n) % 32 = n := by omega
    cases fuel with
    | zero => omega
    | succ fuel =>
      have htags : ∀ fuel, takeTags fuel [] ((7 * 32 + n).toUInt8 :: rest) =
          some ([], (7 * 32 + n).toUInt8 :: rest) := by
        intro fuel
        unfold takeTags
        rw [hlead, hdiv]
        rfl
      have hhead : Head.take ((7 * 32 + n).toUInt8 :: rest) = some (⟨7, n, n⟩, rest) := by
        simp only [Head.take, hlead, hdiv, hmod, hn, if_true]
      have hfloat : ¬25 ≤ n := by omega
      simp only [List.cons_append, List.nil_append, takeItem, htags, hhead]
      simp [withinLimits, hfloat]

lemma written_ofBool (b : Bool) : Written (ofBool b) (.simple (if b then 21 else 20)) := by
  cases b with
  | false => exact written_simple (n := 20) (by omega)
  | true => exact written_simple (n := 21) (by omega)

lemma written_null : Written null (.simple 22) := written_simple (n := 22) (by omega)

/-- Items one after the other are all read, or one of them is refused. -/
lemma takeMany_written {ts : List Text} {is : List Item} (h : List.Forall₂ Written ts is)
    (hlength : ts.flatten.length < 2 ^ 64) {fuel levels : Nat} (hfuel : levels < fuel)
    (acc : List Item) (rest : Text) :
    takeMany (takeItem fuel levels) ts.length acc (ts.flatten ++ rest) =
      if is.all (withinLimits levels) then some (acc.reverse ++ is, rest) else none := by
  induction h generalizing acc with
  | nil => simp [takeMany]
  | @cons t i ts is hti _ ih =>
    rw [List.flatten_cons, List.length_append] at hlength
    rw [List.flatten_cons, List.append_assoc, List.length_cons, takeMany,
      hti.reads (by omega) fuel levels _ hfuel]
    by_cases hi : withinLimits levels i
    · rw [if_pos hi]
      simp only [ih (by omega), List.all_cons, hi, Bool.true_and, List.reverse_cons,
        List.append_assoc, List.cons_append, List.nil_append]
    · rw [if_neg hi]
      simp [hi]

lemma length_le_of_written {ts : List Text} {is : List Item} (h : List.Forall₂ Written ts is) :
    ts.length ≤ ts.flatten.length := by
  induction h with
  | nil => simp
  | cons hti _ ih =>
    have hpos := hti.nonempty
    rw [List.length_cons, List.flatten_cons, List.length_append]
    omega

lemma written_ofList {ts : List Text} {is : List Item} (h : List.Forall₂ Written ts is) :
    Written (ofList ts) (.array is) := by
  have hle := length_le_of_written h
  have hcount := h.length_eq
  apply written_of_head
  intro hlength fuel levels rest hfuel
  rw [List.length_append] at hlength
  rw [takeItem_array fuel levels (by omega)]
  cases levels with
  | zero => simp [withinLimits]
  | succ levels =>
    by_cases hmany : maxElements < ts.length
    · have hrefused : ¬is.length ≤ maxElements := by omega
      rw [if_pos (.inr hmany)]
      simp [withinLimits, hrefused]
    · have hallowed : is.length ≤ maxElements := by omega
      rw [if_neg (by simpa using hmany), Nat.add_sub_cancel,
        takeMany_written h (by omega) (by omega)]
      by_cases hall : is.all (withinLimits levels)
      · simp [withinLimits, hall, hallowed]
      · simp [withinLimits, hall]

/-- A map whose keys and values are given as they are written. -/
lemma written_map {kvs : List (Text × Text)} {es : List (Item × Item)}
    (h : List.Forall₂ (fun kv e => Written kv.1 e.1 ∧ Written kv.2 e.2) kvs es) :
    Written (head 5 kvs.length ++ kvs.flatMap fun kv => kv.1 ++ kv.2) (.map es) := by
  have hcount := h.length_eq
  -- a map is read as a list of twice as many items, which are paired up afterwards
  have hflat : kvs.flatMap (fun kv => kv.1 ++ kv.2) =
      (kvs.flatMap fun kv => [kv.1, kv.2]).flatten := by
    clear h hcount
    induction kvs with
    | nil => rfl
    | cons kv kvs ih => simp [ih]
  have hparts : List.Forall₂ Written (kvs.flatMap fun kv => [kv.1, kv.2])
      (es.flatMap fun e => [e.1, e.2]) := by
    clear hcount hflat
    induction h with
    | nil => exact .nil
    | cons hke _ ih => exact .cons hke.1 (.cons hke.2 ih)
  have htwice : (kvs.flatMap fun kv => [kv.1, kv.2]).length = 2 * kvs.length := by
    simp [List.length_flatMap, mul_comm]
  have hpairs : pairUp (es.flatMap fun e => [e.1, e.2]) = es := by
    clear h hcount hparts
    induction es with
    | nil => rfl
    | cons e es ih => simp [pairUp, ih]
  have hle := length_le_of_written hparts
  have htwice' := hparts.length_eq
  rw [hflat]
  apply written_of_head
  intro hlength fuel levels rest hfuel
  rw [List.length_append] at hlength
  rw [takeItem_map fuel levels (by omega)]
  cases levels with
  | zero => simp [withinLimits]
  | succ levels =>
    by_cases hmany : maxElements < kvs.length
    · have hrefused : ¬es.length ≤ maxElements := by omega
      rw [if_pos (.inr hmany)]
      simp [withinLimits, hrefused]
    · have hallowed : es.length ≤ maxElements := by omega
      rw [if_neg (by simpa using hmany), Nat.add_sub_cancel, ← htwice,
        takeMany_written hparts (by omega) (by omega)]
      have hlimits : (es.flatMap fun e => [e.1, e.2]).all (withinLimits levels) =
          es.all fun e => withinLimits levels e.1 && withinLimits levels e.2 := by
        simp [List.all_flatMap]
      rw [hlimits]
      by_cases hall : es.all fun e => withinLimits levels e.1 && withinLimits levels e.2
      · rw [if_pos hall]
        simp only [List.reverse_nil, List.nil_append, ← htwice', htwice, hpairs]
        rw [if_neg (by omega)]
        simp [withinLimits, hallowed, hall]
      · rw [if_neg hall]
        simp [withinLimits, hall]

/-! ### Records -/

/-- A map with keys of one type, each written by the same rule. -/
lemma written_keyed {κ : Type} (writeKey : κ → Text) (keyItem : κ → Item)
    {fields : List (κ × Text)} {items : List (κ × Item)}
    (hkeys : ∀ f ∈ fields, Written (writeKey f.1) (keyItem f.1))
    (h : List.Forall₂ (fun kt ki => kt.1 = ki.1 ∧ Written kt.2 ki.2) fields items) :
    Written (head 5 fields.length ++ fields.flatMap fun f => writeKey f.1 ++ f.2)
      (.map (items.map fun f => (keyItem f.1, f.2))) := by
  have hparts : List.Forall₂ (fun kv e => Written kv.1 e.1 ∧ Written kv.2 e.2)
      (fields.map fun f => (writeKey f.1, f.2)) (items.map fun f => (keyItem f.1, f.2)) := by
    induction h with
    | nil => exact .nil
    | cons hkv _ ih =>
      obtain ⟨hkey, hrest⟩ := List.forall_mem_cons.mp hkeys
      refine .cons ⟨?_, hkv.2⟩ (ih hrest)
      dsimp only
      rw [← hkv.1]
      exact hkey
  have hwritten := written_map hparts
  rw [List.length_map, List.flatMap_map] at hwritten
  exact hwritten

/-- The entries of a map with text keys. -/
def namedEntries (fields : List (Text × Item)) : List (Item × Item) :=
  fields.map fun (k, v) => (.text [k], v)

lemma written_ofFields {fields : List (Text × Text)} {items : List (Text × Item)}
    (h : List.Forall₂ (fun kt ki => kt.1 = ki.1 ∧ Written kt.2 ki.2) fields items) :
    Written (ofFields fields) (.map (namedEntries items)) :=
  written_keyed ofText (fun k => .text [k]) (fun f _ => written_ofText f.1) h

/-- The entries of a map with numbers for keys. -/
def numberedEntries (fields : List (Nat × Item)) : List (Item × Item) :=
  fields.map fun (k, v) => (.uint k, v)

/-- The whole text of an item is read back as that item. -/
lemma read_written {t : Text} {i : Item} (h : Written t i) (hlength : t.length < 2 ^ 64) :
    Cbor.read t = if withinLimits maxLevels i then some i else none := by
  have hread := h.reads hlength (maxLevels + 1) maxLevels [] (by omega)
  rw [List.append_nil] at hread
  unfold Cbor.read
  rw [hread]
  split_ifs <;> rfl

/-- A record whose entries name different fields exactly has those fields. -/
lemma toRecord?_of_keys {fields : List Key} {entries : List (Item × Item)}
    {record : List (Key × Item)}
    (h : List.Forall₂ (fun e f => entryKey? e.1 = some (some f.1) ∧
      matchField fields f.1 = some f.1 ∧ e.2 = f.2) entries record)
    (hnodup : (record.map Prod.fst).Nodup) :
    toRecord? fields (.map entries) = some record := by
  suffices hgen : ∀ found : List (Key × Item), (∀ f ∈ record, ∀ g ∈ found, g.1 ≠ f.1) →
      entries.foldlM (collectEntry fields) found = some (record.reverse ++ found) by
    simp [toRecord?, untag, collect, hgen [] (by simp)]
  induction h with
  | nil => simp
  | @cons e f entries record hef _ ih =>
    intro found hfresh
    rw [List.map_cons, List.nodup_cons] at hnodup
    have hnew : (found.any fun g => g.1 = f.1) = false := by
      simpa using fun k i hki => hfresh f (by simp) (k, i) hki
    have hstep : collectEntry fields found e = some (f :: found) := by
      simp only [collectEntry, hef.1, hef.2.1, hnew, hef.2.2]
      rfl
    rw [List.foldlM_cons, hstep]
    have hrest := ih hnodup.2 (f :: found) (by
      intro f' hf' g hg
      rcases List.mem_cons.mp hg with rfl | hg
      · exact fun heq => hnodup.1 (heq ▸ List.mem_map_of_mem hf')
      · exact hfresh f' (by simp [hf']) g hg)
    simpa using hrest

/-- A field of a record; an empty one may be left out. -/
structure Field where
  name : Text
  item : Item
  isLeftOut : Bool := false

/-- The fields that are written. -/
def Field.entries (f : Field) : List (Text × Item) := if f.isLeftOut then [] else [(f.name, f.item)]

/-- A record as an item. -/
def recordItem (fields : List Field) : Item := .map (namedEntries (fields.flatMap Field.entries))

/-- A record as it is read. -/
def recordOf (fields : List Field) : List (Key × Item) :=
  (fields.flatMap Field.entries).map fun (k, i) => (.name k, i)

lemma entries_names (fields : List Field) :
    ((fields.flatMap Field.entries).map Prod.fst).Sublist (fields.map Field.name) := by
  induction fields with
  | nil => exact .slnil
  | cons f fields ih =>
    rw [List.flatMap_cons, List.map_append, List.map_cons, Field.entries]
    split_ifs
    · exact ih.cons f.name
    · exact ih.cons_cons f.name

lemma toRecord?_recordItem {keys : List Key} {fields : List Field}
    (hkeys : ∀ k ∈ fields.map Field.name, k.isUtf8 ∧ matchField keys (.name k) = some (.name k))
    (hnodup : (fields.map Field.name).Nodup) :
    toRecord? keys (recordItem fields) = some (recordOf fields) := by
  apply toRecord?_of_keys
  · unfold namedEntries recordOf
    rw [List.forall₂_map_left_iff, List.forall₂_map_right_iff, List.forall₂_same]
    rintro ⟨k, i⟩ hmem
    have hk := hkeys k ((entries_names fields).subset (List.mem_map_of_mem hmem))
    exact ⟨by simp [entryKey?, hk.1], hk.2, rfl⟩
  · have hnames : (recordOf fields).map Prod.fst =
        ((fields.flatMap Field.entries).map Prod.fst).map Key.name := by
      simp [recordOf, Function.comp_def]
    rw [hnames]
    exact (hnodup.sublist (entries_names fields)).map fun _ _ => Key.name.inj

lemma field?_recordOf {α : Type} {fields : List Field} (hnodup : (fields.map Field.name).Nodup)
    {f : Field} (hf : f ∈ fields) (empty : α) (g : Item → Option α) :
    field? (recordOf fields) (.name f.name) empty g =
      if f.isLeftOut then some empty else g f.item := by
  induction fields with
  | nil => cases hf
  | cons f' fields ih =>
    rw [List.map_cons, List.nodup_cons] at hnodup
    have hcons : recordOf (f' :: fields) =
        (if f'.isLeftOut then [] else [(.name f'.name, f'.item)]) ++ recordOf fields := by
      unfold recordOf
      rw [List.flatMap_cons, List.map_append, Field.entries]
      split_ifs <;> rfl
    rw [hcons]
    rcases List.mem_cons.mp hf with rfl | hf
    · have habsent : (recordOf fields).find? (fun entry => entry.1 = .name f.name) = none := by
        rw [List.find?_eq_none]
        rintro ⟨k, i⟩ hmem hk
        obtain ⟨⟨k', i'⟩, hentry, heq⟩ := List.mem_map.mp hmem
        cases heq
        have hname : k' = f.name := by simpa using hk
        exact hnodup.1 (hname ▸ (entries_names fields).subset (List.mem_map_of_mem hentry))
      split_ifs with hout
      · simp [field?, habsent]
      · simp [field?]
    · have hne : f'.name ≠ f.name := by
        rintro heq
        exact hnodup.1 (heq ▸ List.mem_map_of_mem hf)
      rw [← ih hnodup.2 hf]
      split_ifs with hout
      · rfl
      · simp [field?, hne]

lemma withinLimits_record {fields : List Field} (hcount : fields.length ≤ maxElements)
    (levels : Nat) :
    withinLimits (levels + 1) (recordItem fields) =
      fields.all fun f => f.isLeftOut || withinLimits levels f.item := by
  have htext : ∀ t, withinLimits levels (.text [t]) = true := by
    intro t
    cases levels <;> rfl
  have hlength : (namedEntries (fields.flatMap Field.entries)).length ≤ maxElements := by
    have hle := (entries_names fields).length_le
    simp only [List.length_map] at hle
    rw [namedEntries, List.length_map]
    omega
  unfold recordItem
  rw [withinLimits, decide_eq_true hlength, Bool.true_and, namedEntries, List.all_map,
    List.all_flatMap]
  congr 1
  funext f
  unfold Field.entries
  cases f.isLeftOut <;> simp [htext]

end StackCode.Proofs
