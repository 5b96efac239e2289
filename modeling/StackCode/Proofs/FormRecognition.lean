import StackCode.Proofs.BinaryReading
import StackCode.Proofs.StoredForms

/-!
# Telling the stored forms apart

Every form that is accepted starts with a byte that no other accepted form starts with: the binary
form with that of its mark, CBOR with a map or a tag, MessagePack with a map or an array. So bytes
are accepted in at most one form, and the order in which the forms are tried does not matter.
-/

namespace StackCode.Proofs

open Program

/-- The program that bytes hold in the given form. -/
def decodeAs (data : Text) : Format → Option Program
  | .binary => (Binary.decode data).toOption
  | .cbor => (CborForm.decode data).toOption
  | .msgpack => (MessagePackForm.decode data).toOption

/-! ### Envelopes -/

/-- An envelope that is opened has the mark, and its version is not newer. -/
lemma open_eq_ok {e : Envelope} {p : Program} (h : e.open = .ok p) :
    e.magic = magic ∧ e.version ≤ version := by
  unfold Envelope.open at h
  split_ifs at h with hmagic hversion
  exact ⟨not_not.mp hmagic, UInt16.not_lt.mp hversion⟩

/-- What is accepted was read as an item, which makes an envelope that can be opened. -/
lemma envelope_of_decode {ι ε : Type} {read : Option ι} {toEnvelope? : ι → Option Envelope}
    {malformed : ε} {wrap : Envelope.OpenError → ε} {p : Program}
    (h : (match read.bind toEnvelope? with
      | none => .error malformed
      | some e => e.open.mapError wrap) = Except.ok p) :
    ∃ item e, read = some item ∧ toEnvelope? item = some e ∧ e.open = .ok p := by
  cases hread : read.bind toEnvelope? with
  | none =>
    rw [hread] at h
    cases h
  | some e =>
    rw [hread] at h
    obtain ⟨item, hitem, henvelope⟩ := Option.bind_eq_some_iff.mp hread
    exact ⟨item, e, hitem, henvelope, eq_ok_of_mapError h⟩

/-! ### First bytes of CBOR -/

/-- The first byte of a head: the high bits are its major type, and of the low bits four values are
not in use, one of them only for numbers and tags. -/
lemma head_of_take {b : UInt8} {t rest : Text} {h : Cbor.Head}
    (htake : Cbor.Head.take (b :: t) = some (h, rest)) :
    h.major = b.toNat / 32 ∧ (b.toNat % 32 < 28 ∨ b.toNat / 32 ≤ 5) := by
  have hwide : ∀ {n : Nat} {h : Cbor.Head} {rest : Text}, ((Text.takeExact? n t).map fun cut =>
      ((⟨b.toNat / 32, b.toNat % 32, Text.bigEndian cut.1⟩ : Cbor.Head), cut.2)) = some (h, rest) →
      h.major = b.toNat / 32 := by
    intro n h rest hmap
    obtain ⟨cut, -, heq⟩ := Option.map_eq_some_iff.mp hmap
    cases heq
    rfl
  unfold Cbor.Head.take at htake
  dsimp only at htake
  by_cases hsmall : b.toNat % 32 < 24
  · rw [if_pos hsmall] at htake
    cases htake
    exact ⟨rfl, .inl (by omega)⟩
  · rw [if_neg hsmall] at htake
    split at htake
    · obtain ⟨⟨h', rest'⟩, hmap, heq⟩ := Option.bind_eq_some_iff.mp htake
      dsimp only at heq
      split_ifs at heq
      cases heq
      exact ⟨hwide hmap, .inl (by omega)⟩
    · exact ⟨hwide htake, .inl (by omega)⟩
    · exact ⟨hwide htake, .inl (by omega)⟩
    · exact ⟨hwide htake, .inl (by omega)⟩
    · split_ifs at htake with hmajor
      cases htake
      exact ⟨rfl, .inr hmajor.2⟩
    · cases htake

lemma takeTags_cases {fuel : Nat} {acc tags : List Nat} {b : UInt8} {t rest : Text}
    (h : Cbor.takeTags fuel acc (b :: t) = some (tags, rest)) :
    (tags = acc.reverse ∧ rest = b :: t) ∨ (b.toNat / 32 = 6 ∧ b.toNat % 32 < 28) := by
  unfold Cbor.takeTags at h
  split_ifs at h with htag
  · right
    refine ⟨htag, ?_⟩
    cases fuel with
    | zero => cases h
    | succ fuel =>
      cases htake : Cbor.Head.take (b :: t) with
      | none =>
        simp only [htake] at h
        cases h
      | some hr =>
        have hlow := (head_of_take htake).2
        omega
  · cases h
    exact .inl ⟨rfl, rfl⟩

/-- An item without tags that is a map has the major type of maps. -/
lemma major_of_map {fuel levels : Nat} {t t' rest : Text} {hd : Cbor.Head} {item : Cbor.Item}
    {entries : List (Cbor.Item × Cbor.Item)} (htags : Cbor.takeTags t.length [] t = some ([], t))
    (hhead : Cbor.Head.take t = some (hd, t'))
    (h : Cbor.takeItem (fuel + 1) levels t = some (item, rest))
    (hmap : Cbor.untag item = some (.map entries)) : hd.major = 5 := by
  unfold Cbor.takeItem at h
  simp only [htags, hhead, List.length_nil, Nat.zero_sub, Nat.not_lt_zero, if_false, Nat.sub_zero,
    List.foldr_nil] at h
  split at h
  · cases h
    simp [Cbor.untag] at hmap
  · cases h
    simp [Cbor.untag] at hmap
  · obtain ⟨pieces, -, heq⟩ := Option.map_eq_some_iff.mp h
    split_ifs at heq
    cases heq
    simp [Cbor.untag] at hmap
  · obtain ⟨pieces, -, heq⟩ := Option.map_eq_some_iff.mp h
    split_ifs at heq <;> cases heq <;> simp [Cbor.untag] at hmap
  · split_ifs at h
    split at h
    · split_ifs at h
      cases h
      simp [Cbor.untag] at hmap
    · cases h
  · assumption
  · split_ifs at h <;> cases h <;> simp [Cbor.untag] at hmap
  · cases h

/-- A map of CBOR starts with its own major type, or with that of a tag. -/
lemma cbor_lead_of_map {fuel levels : Nat} {t rest : Text} {item : Cbor.Item}
    {entries : List (Cbor.Item × Cbor.Item)} (h : Cbor.takeItem fuel levels t = some (item, rest))
    (hmap : Cbor.untag item = some (.map entries)) :
    ∃ b t', t = b :: t' ∧ 0xA0 ≤ b.toNat ∧ b.toNat < 0xDC := by
  cases fuel with
  | zero => cases h
  | succ fuel =>
    cases t with
    | nil => cases h
    | cons b t =>
      refine ⟨b, t, rfl, ?_⟩
      cases htags : Cbor.takeTags (b :: t).length [] (b :: t) with
      | none =>
        rw [Cbor.takeItem, htags] at h
        cases h
      | some tagged =>
        obtain ⟨tags, t'⟩ := tagged
        rcases takeTags_cases htags with ⟨rfl, rfl⟩ | hlead
        · cases hhead : Cbor.Head.take (b :: t) with
          | none =>
            rw [Cbor.takeItem, htags] at h
            simp [hhead] at h
          | some headed =>
            have hmajor := (head_of_take hhead).1
            rw [major_of_map htags hhead h hmap] at hmajor
            omega
        · omega

/-- What is read as an envelope is a record with these fields. -/
lemma cbor_toEnvelope?_eq_some {item : Cbor.Item} {e : Envelope}
    (h : CborForm.toEnvelope? item = some e) :
    ∃ record n, Cbor.toRecord? CborForm.envelopeFields item = some record ∧
      Cbor.field? record (CborForm.key "magic") [] Cbor.toText? = some e.magic ∧
      Cbor.field? record (CborForm.key "version") 0 (Cbor.toNat? 65536) = some n ∧
      e.version = n.toUInt16 := by
  simp only [CborForm.toEnvelope?, Option.bind_eq_bind, Option.bind_eq_some_iff] at h
  obtain ⟨record, hrecord, magic, hmagic, n, hversion, _, -, _, -, _, -, heq⟩ := h
  cases heq
  exact ⟨record, n, hrecord, hmagic, hversion, rfl⟩

lemma toRecord?_eq_some {fields : List Cbor.Key} {item : Cbor.Item}
    {record : List (Cbor.Key × Cbor.Item)} (h : Cbor.toRecord? fields item = some record) :
    record = [] ∨ ∃ entries, Cbor.untag item = some (.map entries) ∧
      Cbor.collect fields entries = some record := by
  unfold Cbor.toRecord? at h
  split at h
  · rename_i entries huntag
    exact .inr ⟨entries, huntag, h⟩
  · split_ifs at h
    cases h
    exact .inl rfl
  · cases h

/-- An envelope in CBOR that has a mark is a map. -/
lemma map_of_cbor_envelope {item : Cbor.Item} {e : Envelope}
    (h : CborForm.toEnvelope? item = some e) (hmagic : e.magic = magic) :
    ∃ entries, Cbor.untag item = some (.map entries) := by
  obtain ⟨record, n, hrecord, hfield, -, -⟩ := cbor_toEnvelope?_eq_some h
  rcases toRecord?_eq_some hrecord with rfl | ⟨entries, hentries, -⟩
  · rw [hmagic] at hfield
    exact absurd hfield (by decide)
  · exact ⟨entries, hentries⟩

lemma cbor_lead {data : Text} {p : Program} (h : CborForm.decode data = .ok p) :
    ∃ b t, data = b :: t ∧ 0xA0 ≤ b.toNat ∧ b.toNat < 0xDC := by
  obtain ⟨item, e, hread, henvelope, hopen⟩ := envelope_of_decode h
  obtain ⟨entries, hentries⟩ := map_of_cbor_envelope henvelope (open_eq_ok hopen).1
  unfold Cbor.read at hread
  split at hread
  · rename_i i htake
    cases hread
    exact cbor_lead_of_map htake hentries
  · cases hread

/-! ### First bytes of MessagePack -/

/-- Maps and arrays. -/
def isContainer : MessagePack.Item → Bool
  | .map _ | .array _ => true
  | _ => false

/-- What announces a map or an array. -/
def opensContainer : MessagePack.Lead → Bool
  | .item i => isContainer i
  | .mapOf _ | .mapFixed _ | .arrayOf _ | .arrayFixed _ => true
  | _ => false

lemma range_of_opensContainer {b : UInt8} {lead : MessagePack.Lead}
    (h : MessagePack.Lead.ofByte? b = some lead) (hopens : opensContainer lead = true) :
    (0x80 ≤ b.toNat ∧ b.toNat < 0xA0) ∨ (0xDC ≤ b.toNat ∧ b.toNat < 0xE0) := by
  have hbytes : ∀ n < 256, (MessagePack.Lead.ofByte? n.toUInt8).any opensContainer = true →
      (0x80 ≤ n ∧ n < 0xA0) ∨ (0xDC ≤ n ∧ n < 0xE0) := by decide +kernel
  apply hbytes b.toNat b.toNat_lt
  rw [Nat.toUInt8, UInt8.ofNat_toNat, h]
  exact hopens

lemma not_container_of_map {α : Type} {x : Option α} {f : α → MessagePack.Item × Text}
    {item : MessagePack.Item} {rest : Text} (hf : ∀ a, isContainer (f a).1 = false)
    (h : x.map f = some (item, rest)) : isContainer item = false := by
  obtain ⟨a, -, heq⟩ := Option.map_eq_some_iff.mp h
  rw [← hf a, heq]

/-- A map or an array starts with what announces one. -/
lemma opensContainer_of_takeItem {fuel : Nat} {b : UInt8} {t rest : Text} {item : MessagePack.Item}
    (h : MessagePack.takeItem fuel (b :: t) = some (item, rest)) (hitem : isContainer item = true) :
    ∃ lead, MessagePack.Lead.ofByte? b = some lead ∧ opensContainer lead = true := by
  cases fuel with
  | zero => cases h
  | succ fuel =>
    rw [MessagePack.takeItem] at h
    cases hlead : MessagePack.Lead.ofByte? b with
    | none =>
      rw [hlead] at h
      cases h
    | some lead =>
      refine ⟨lead, rfl, ?_⟩
      rw [← hitem]
      rw [hlead] at h
      cases lead with
      | item i =>
        cases h
        rfl
      | mapOf width => exact hitem.symm
      | mapFixed n => exact hitem.symm
      | arrayOf width => exact hitem.symm
      | arrayFixed n => exact hitem.symm
      | number width isSigned => exact (not_container_of_map (fun _ => rfl) h).symm
      | strFixed n => exact (not_container_of_map (fun _ => rfl) h).symm
      | floatOf width => exact (not_container_of_map (fun _ => rfl) h).symm
      | extFixed n => exact (not_container_of_map (fun _ => rfl) h).symm
      | strOf width =>
        obtain ⟨cut, -, hstr⟩ := Option.bind_eq_some_iff.mp h
        exact (not_container_of_map (fun _ => rfl) hstr).symm
      | extOf width =>
        obtain ⟨cut, -, hext⟩ := Option.bind_eq_some_iff.mp h
        exact (not_container_of_map (fun _ => rfl) hext).symm

/-- An envelope in MessagePack that has a mark is a map or an array. -/
lemma isContainer_of_envelope {item : MessagePack.Item} {e : Envelope}
    (h : MessagePackForm.toEnvelope? item = some e) (hmagic : e.magic = magic) :
    isContainer item = true := by
  cases item with
  | map entries => rfl
  | array items => rfl
  | nil =>
    cases h
    exact absurd hmagic (by decide)
  | bool b => cases h
  | int n => cases h
  | float => cases h
  | str t => cases h
  | ext => cases h

lemma msgpack_lead {data : Text} {p : Program} (h : MessagePackForm.decode data = .ok p) :
    ∃ b t, data = b :: t ∧
      ((0x80 ≤ b.toNat ∧ b.toNat < 0xA0) ∨ (0xDC ≤ b.toNat ∧ b.toNat < 0xE0)) := by
  obtain ⟨item, e, hread, henvelope, hopen⟩ := envelope_of_decode h
  have hcontainer := isContainer_of_envelope henvelope (open_eq_ok hopen).1
  obtain ⟨taken, htake, hitem⟩ := Option.map_eq_some_iff.mp hread
  cases data with
  | nil => cases htake
  | cons b t =>
    rw [show taken = (item, taken.2) from Prod.ext hitem rfl] at htake
    obtain ⟨lead, hlead, hopens⟩ := opensContainer_of_takeItem htake hcontainer
    exact ⟨b, t, rfl, range_of_opensContainer hlead hopens⟩

/-! ### At most one form -/

lemma isBinary_of_decode {data : Text} {p : Program} (h : Binary.decode data = .ok p) :
    Binary.isBinary data = true := by
  obtain ⟨v, functions, constants, symbols, -, -, -, -, rfl⟩ := decode_eq_ok_iff.mp h
  rw [Binary.isBinary, List.isPrefixOf_iff_prefix]
  simp only [List.append_assoc]
  exact List.prefix_append _ _

/-- The only form that can start with the byte. -/
def leadForm (b : UInt8) : Format :=
  if b.toNat < 0x80 then .binary
  else if 0xA0 ≤ b.toNat ∧ b.toNat < 0xDC then .cbor
  else .msgpack

lemma toOption_eq_some_iff {ε α : Type} {x : Except ε α} {a : α} :
    x.toOption = some a ↔ x = .ok a := by
  cases x <;> simp [Except.toOption]

lemma leadForm_of_decodeAs {data : Text} {f : Format} {p : Program}
    (h : decodeAs data f = some p) : ∃ b t, data = b :: t ∧ f = leadForm b := by
  cases f with
  | binary =>
    have hbinary := isBinary_of_decode (toOption_eq_some_iff.mp h)
    rw [Binary.isBinary, List.isPrefixOf_iff_prefix] at hbinary
    obtain ⟨rest, rfl⟩ := hbinary
    exact ⟨_, _, rfl, rfl⟩
  | cbor =>
    obtain ⟨b, t, rfl, hlow, hhigh⟩ := cbor_lead (toOption_eq_some_iff.mp h)
    refine ⟨b, t, rfl, ?_⟩
    rw [leadForm, if_neg (by omega), if_pos ⟨hlow, hhigh⟩]
  | msgpack =>
    obtain ⟨b, t, rfl, hrange⟩ := msgpack_lead (toOption_eq_some_iff.mp h)
    refine ⟨b, t, rfl, ?_⟩
    rw [leadForm, if_neg (by omega), if_neg (by omega)]

lemma format_unique {data : Text} {f g : Format} {p q : Program} (hf : decodeAs data f = some p)
    (hg : decodeAs data g = some q) : f = g := by
  obtain ⟨b, t, rfl, rfl⟩ := leadForm_of_decodeAs hf
  obtain ⟨c, u, hdata, rfl⟩ := leadForm_of_decodeAs hg
  cases hdata
  rfl

/-- Loading accepts what one of the forms accepts. -/
lemma load_eq_ok_iff {data : Text} {p : Program} {f : Format} :
    Program.load data = .ok (p, f) ↔ decodeAs data f = some p := by
  constructor
  · intro h
    unfold Program.load at h
    split_ifs at h
    · split at h
      · rename_i hdecode
        cases h
        exact toOption_eq_some_iff.mpr hdecode
      · cases h
    · split at h
      · rename_i hdecode
        cases h
        exact toOption_eq_some_iff.mpr hdecode
      · split at h
        · rename_i hdecode
          cases h
          exact toOption_eq_some_iff.mpr hdecode
        · cases h
  · intro h
    have hbinary : f ≠ .binary → Binary.isBinary data = false := by
      intro hne
      obtain ⟨b, t, rfl, rfl⟩ := leadForm_of_decodeAs h
      apply not_isBinary_of_lead
      by_contra hlow
      exact hne (if_pos (by omega))
    have hdecode := h
    cases f with
    | binary =>
      rw [decodeAs, toOption_eq_some_iff] at hdecode
      rw [Program.load, if_pos (isBinary_of_decode hdecode), hdecode]
    | cbor =>
      rw [decodeAs, toOption_eq_some_iff] at hdecode
      rw [Program.load, hbinary (by simp), hdecode]
      rfl
    | msgpack =>
      rw [decodeAs, toOption_eq_some_iff] at hdecode
      rw [Program.load, hbinary (by simp), hdecode]
      cases hcbor : CborForm.decode data with
      | error e => rfl
      | ok q => cases format_unique h (f := .msgpack) (g := .cbor) (toOption_eq_some_iff.mpr hcbor)

/-- The program in the first form of a list that accepts the bytes, with that form. -/
def firstAccepted (data : Text) (order : List Format) : Option (Program × Format) :=
  order.findSome? fun f => (decodeAs data f).map fun p => (p, f)

lemma firstAccepted_eq {data : Text} {order : List Format} (horder : ∀ f, f ∈ order) :
    firstAccepted data order = (Program.load data).toOption := by
  cases hfirst : firstAccepted data order with
  | some x =>
    obtain ⟨f, -, hf⟩ := List.exists_of_findSome?_eq_some hfirst
    obtain ⟨p, hp, rfl⟩ := Option.map_eq_some_iff.mp hf
    rw [load_eq_ok_iff.mpr hp]
    rfl
  | none =>
    cases hload : Program.load data with
    | error e => rfl
    | ok x =>
      have hnone := List.findSome?_eq_none_iff.mp hfirst x.2 (horder x.2)
      rw [load_eq_ok_iff.mp hload] at hnone
      cases hnone

/-- Bytes are accepted in at most one form. Loading accepts them exactly if one of the forms does,
with its program, and so does trying the forms in any order. -/
theorem stored_forms_disjoint (data : Text) :
    (∀ f g p q, decodeAs data f = some p → decodeAs data g = some q → f = g) ∧
      (∀ p f, Program.load data = .ok (p, f) ↔ decodeAs data f = some p) ∧
      ∀ order, (∀ f, f ∈ order) → firstAccepted data order = (Program.load data).toOption :=
  ⟨fun _ _ _ _ => format_unique, fun _ _ => load_eq_ok_iff, fun _ => firstAccepted_eq⟩

/-- A map after a tag, with a name in capitals, and an array in place of a record. -/
theorem looseForms_told_apart :
    let tagged : Text := [0xD9, 0xD9, 0xF7, 0xA2, 0x65, 0x6D, 0x61, 0x67, 0x69, 0x63, 0x64, 0x56,
      0x45, 0x4C, 0x41, 0x67, 0x56, 0x45, 0x52, 0x53, 0x49, 0x4F, 0x4E, 0x01]
    let array : Text := [0x95, 0xA4, 0x56, 0x45, 0x4C, 0x41, 0x01, 0xC0, 0x90, 0x91, 0xA1, 0x66]
    decodeAs tagged .cbor = some {} ∧ decodeAs array .msgpack = some { symbols := ["f"] } ∧
      (∀ f p, decodeAs tagged f = some p → f = .cbor) ∧
      Program.load array = .ok ({ symbols := ["f"] }, .msgpack) ∧
      firstAccepted tagged [.msgpack, .binary, .cbor] = some ({}, .cbor) := by
  intro tagged array
  have htagged : decodeAs tagged .cbor = some {} := by decide +kernel
  have harray : decodeAs array .msgpack = some { symbols := ["f"] } := by decide +kernel
  obtain ⟨hunique, hload, horder⟩ := stored_forms_disjoint tagged
  refine ⟨htagged, harray, fun f p hf => hunique f .cbor p {} hf htagged,
    ((stored_forms_disjoint array).2.1 _ _).mpr harray, ?_⟩
  rw [horder _ (by intro f; cases f <;> simp), (hload _ _).mpr htagged]
  rfl

end StackCode.Proofs
