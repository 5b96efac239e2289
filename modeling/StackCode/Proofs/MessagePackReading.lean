import StackCode.Program.MessagePack
import StackCode.Proofs.NumberBytes

/-!
# Reading back MessagePack

What the writers write is read back as the item that it stands for, whatever follows it, if its
lengths and counts fit the widest header.
-/

namespace StackCode.Proofs

open MessagePack Text

/-! ### Items -/

/-- A text that is read back as the item, with fuel for every byte of it. -/
structure Packed (t : Text) (i : Item) : Prop where
  nonempty : 0 < t.length
  reads : ∀ fuel rest, t.length ≤ fuel → takeItem fuel (t ++ rest) = some (i, rest)

/-- What is written after its first byte. -/
lemma packed_of_lead {b : UInt8} {t : Text} {i : Item}
    (h : ∀ fuel rest, t.length ≤ fuel → takeItem (fuel + 1) (b :: (t ++ rest)) = some (i, rest)) :
    Packed (b :: t) i := by
  constructor
  · simp
  · intro fuel rest hfuel
    rw [List.length_cons] at hfuel
    cases fuel with
    | zero => omega
    | succ fuel => exact h fuel rest (by omega)

lemma takeNumber_append {width n : Nat} (h : n < 256 ^ width) (rest : Text) :
    takeNumber width (bigEndianBytes width n ++ rest) = some (n, rest) := by
  have htake := takeExact?_append (bigEndianBytes width n) rest
  rw [length_bigEndianBytes] at htake
  simp only [takeNumber, htake, Option.map_some, bigEndian_bigEndianBytes h]

lemma packed_nil : Packed MessagePack.nil .nil := by
  apply packed_of_lead
  intro fuel rest _
  rfl

lemma packed_ofBool (b : Bool) : Packed (ofBool b) (.bool b) := by
  apply packed_of_lead
  intro fuel rest _
  cases b <;> rfl

/-- A number whose first byte says its width. -/
lemma packed_number {b : UInt8} {width n : Nat} {isSigned : Bool}
    (hlead : Lead.ofByte? b = some (.number width isSigned)) (hn : n < 256 ^ width) :
    Packed (b :: bigEndianBytes width n)
      (.int (if isSigned then signed width n else n)) := by
  apply packed_of_lead
  intro fuel rest _
  rw [takeItem]
  simp only [hlead, takeNumber_append hn, Option.map_some]

lemma packed_ofUInt8 (n : UInt8) : Packed (ofUInt8 n) (.int n.toNat) := by
  have hpacked := packed_number (b := 0xCC) (n := n.toNat) rfl n.toNat_lt
  have hbytes : bigEndianBytes 1 n.toNat = [n] := by
    simp [bigEndianBytes, littleEndianBytes]
  rwa [hbytes, if_neg (by decide)] at hpacked

lemma packed_ofUInt16 (n : UInt16) : Packed (ofUInt16 n) (.int n.toNat) := by
  have hpacked := packed_number (b := 0xCD) (n := n.toNat) rfl n.toNat_lt
  rwa [if_neg (by decide)] at hpacked

lemma packed_ofUInt64 (n : UInt64) : Packed (ofUInt64 n) (.int n.toNat) := by
  have hpacked := packed_number (b := 0xCF) (n := n.toNat) rfl n.toNat_lt
  rwa [if_neg (by decide)] at hpacked

lemma signed_eight (n : Int64) : signed 8 n.toUInt64.toNat = n.toInt := by
  have htoInt : n.toInt = _ := n.toBitVec.toInt_eq_toNat_cond
  rw [htoInt]
  show (if n.toBitVec.toNat < 256 ^ 8 / 2 then (n.toBitVec.toNat : Int)
    else n.toBitVec.toNat - (256 ^ 8 : Nat)) = _
  split_ifs <;> omega

lemma packed_ofInt64 (n : Int64) : Packed (ofInt64 n) (.int n.toInt) := by
  have hpacked := packed_number (b := 0xD3) (n := n.toUInt64.toNat) rfl n.toUInt64.toNat_lt
  rwa [if_pos rfl, signed_eight] at hpacked

/-! ### Strings, lists and records -/

lemma toNat_lead_add {base n : Nat} (h : base + n < 256) : (base + n).toUInt8.toNat = base + n := by
  rw [Nat.toUInt8, UInt8.toNat_ofNat']
  omega

lemma lead_strFixed {n : Nat} (h : n < 32) :
    Lead.ofByte? (0xA0 + n).toUInt8 = some (.strFixed n) := by
  unfold Lead.ofByte?
  simp only [toNat_lead_add (show 0xA0 + n < 256 by omega)]
  rw [if_neg (by omega), if_neg (by omega), if_neg (by omega), if_pos (by omega),
    Nat.add_sub_cancel_left]

lemma lead_arrayFixed {n : Nat} (h : n < 16) :
    Lead.ofByte? (0x90 + n).toUInt8 = some (.arrayFixed n) := by
  unfold Lead.ofByte?
  simp only [toNat_lead_add (show 0x90 + n < 256 by omega)]
  rw [if_neg (by omega), if_neg (by omega), if_pos (by omega), Nat.add_sub_cancel_left]

lemma lead_mapFixed {n : Nat} (h : n < 16) :
    Lead.ofByte? (0x80 + n).toUInt8 = some (.mapFixed n) := by
  unfold Lead.ofByte?
  simp only [toNat_lead_add (show 0x80 + n < 256 by omega)]
  rw [if_neg (by omega), if_pos (by omega), Nat.add_sub_cancel_left]

lemma takeStr_append (t rest : Text) : takeStr t.length (t ++ rest) = some (.str t, rest) := by
  rw [takeStr, takeExact?_append, Option.map_some]

/-- A string whose first byte says the width of its length. -/
lemma packed_str {b : UInt8} {width : Nat} {t : Text} (hlead : Lead.ofByte? b = some (.strOf width))
    (ht : t.length < 256 ^ width) :
    Packed (b :: (bigEndianBytes width t.length ++ t)) (.str t) := by
  apply packed_of_lead
  intro fuel rest _
  rw [takeItem, List.append_assoc]
  simp only [hlead, takeNumber_append ht, Option.bind_some, takeStr_append]

lemma packed_ofText {t : Text} (ht : t.length < 2 ^ 32) : Packed (ofText t) (.str t) := by
  unfold ofText
  dsimp only
  split_ifs with hfixed hbyte hword
  · rw [List.singleton_append]
    apply packed_of_lead
    intro fuel rest _
    rw [takeItem]
    simp only [lead_strFixed hfixed, takeStr_append]
  · exact packed_str rfl (by omega)
  · exact packed_str rfl (by omega)
  · exact packed_str rfl (by omega)

lemma packed_ofBytes {t : Text} (ht : t.length < 2 ^ 32) : Packed (ofBytes t) (.str t) := by
  unfold ofBytes
  dsimp only
  split_ifs with hbyte hword
  · exact packed_str rfl (by omega)
  · exact packed_str rfl (by omega)
  · exact packed_str rfl (by omega)

lemma takeMany_packed {ts : List Text} {is : List Item} (h : List.Forall₂ Packed ts is) {fuel : Nat}
    (hfuel : ts.flatten.length ≤ fuel) (acc : List Item) (rest : Text) :
    takeMany (takeItem fuel) ts.length acc (ts.flatten ++ rest) = some (acc.reverse ++ is, rest) := by
  induction h generalizing acc with
  | nil => simp [takeMany]
  | @cons t i ts is hti _ ih =>
    rw [List.flatten_cons, List.length_append] at hfuel
    rw [List.flatten_cons, List.append_assoc, List.length_cons, takeMany,
      hti.reads fuel _ (by omega)]
    simp [ih (by omega)]

/-- A list whose first byte says the width of its count. -/
lemma packed_array {b : UInt8} {width : Nat} {ts : List Text} {is : List Item}
    (hlead : Lead.ofByte? b = some (.arrayOf width)) (h : List.Forall₂ Packed ts is)
    (hcount : ts.length < 256 ^ width) :
    Packed (b :: (bigEndianBytes width ts.length ++ ts.flatten)) (.array is) := by
  apply packed_of_lead
  intro fuel rest hfuel
  rw [List.length_append] at hfuel
  rw [takeItem, List.append_assoc]
  simp only [hlead, takeNumber_append hcount, Option.bind_some,
    takeMany_packed h (show ts.flatten.length ≤ fuel by omega), Option.map_some]
  rfl

lemma packed_ofList {ts : List Text} {is : List Item} (h : List.Forall₂ Packed ts is)
    (hcount : ts.length < 2 ^ 32) : Packed (ofList ts) (.array is) := by
  unfold ofList
  dsimp only
  split_ifs with hfixed hword
  · rw [List.singleton_append]
    apply packed_of_lead
    intro fuel rest hfuel
    rw [takeItem]
    simp only [lead_arrayFixed hfixed, takeMany_packed h hfuel, Option.map_some]
    rfl
  · exact packed_array rfl h (by omega)
  · exact packed_array rfl h (by omega)

/-- The entries of a record, each under its name. -/
def packedEntries (fields : List (Text × Item)) : List (Item × Item) :=
  fields.map fun field => (.str field.1, field.2)

/-- A record as it is written: its names, and its values as they are written. -/
def PackedFields (fields : List (Text × Text)) (items : List (Text × Item)) : Prop :=
  List.Forall₂ (fun kt ki => kt.1 = ki.1 ∧ kt.1.length < 2 ^ 32 ∧ Packed kt.2 ki.2) fields items

lemma takeEntries_packed {fields : List (Text × Text)} {items : List (Text × Item)}
    (h : PackedFields fields items) {fuel : Nat}
    (hfuel : (fields.flatMap fun kt => ofText kt.1 ++ kt.2).length ≤ fuel)
    (acc : List (Item × Item)) (rest : Text) :
    takeMany (takeEntry (takeItem fuel)) fields.length acc
      ((fields.flatMap fun kt => ofText kt.1 ++ kt.2) ++ rest) =
        some (acc.reverse ++ packedEntries items, rest) := by
  induction h generalizing acc with
  | nil => simp [takeMany, packedEntries]
  | @cons kt ki fields items hkv _ ih =>
    obtain ⟨hname, hshort, hvalue⟩ := hkv
    rw [List.flatMap_cons, List.length_append, List.length_append] at hfuel
    have hkey := (packed_ofText hshort).reads fuel (kt.2 ++
      ((fields.flatMap fun kt => ofText kt.1 ++ kt.2) ++ rest)) (by omega)
    have hentry : takeEntry (takeItem fuel) (ofText kt.1 ++ (kt.2 ++
        ((fields.flatMap fun kt => ofText kt.1 ++ kt.2) ++ rest))) =
        some ((.str ki.1, ki.2), (fields.flatMap fun kt => ofText kt.1 ++ kt.2) ++ rest) := by
      rw [takeEntry, hkey]
      simp only [hvalue.reads fuel _ (show kt.2.length ≤ fuel by omega), hname]
    rw [List.flatMap_cons, List.append_assoc, List.append_assoc, List.length_cons, takeMany, hentry]
    simp [ih (by omega), packedEntries]

lemma packed_ofFields {fields : List (Text × Text)} {items : List (Text × Item)}
    (h : PackedFields fields items) (hcount : fields.length < 16) :
    Packed (ofFields fields) (.map (packedEntries items)) := by
  apply packed_of_lead
  intro fuel rest hfuel
  rw [takeItem]
  simp only [lead_mapFixed hcount, takeEntries_packed h hfuel, Option.map_some]
  rfl

lemma read_packed {t : Text} {i : Item} (h : Packed t i) : MessagePack.read t = some i := by
  have hread := h.reads t.length [] le_rfl
  rw [List.append_nil] at hread
  rw [MessagePack.read, hread, Option.map_some]

end StackCode.Proofs
