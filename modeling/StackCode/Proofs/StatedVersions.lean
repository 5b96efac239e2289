import StackCode.Proofs.FormRecognition

/-!
# Versions in the stored forms

A stored form states its version as a number, and a form of a newer version is refused. The binary
form and CBOR are refused for every newer version. MessagePack cuts the number to the width of its
field before it is looked at, so that there only the lowest bits count.
-/

namespace StackCode.Proofs

open Program

/-! ### What a form states -/

/-- The integer that an item of CBOR stands for, also one that is written as bytes after a tag. -/
def cborInteger? : Cbor.Item → Option Int
  | .uint n => some n
  | .nint n => some (-1 - n)
  | .simple n => if 20 ≤ n ∧ n ≤ 23 then none else some n
  | .tag 2 (.bytes b) => some (Text.bigEndian b)
  | .tag 3 (.bytes b) => some (-1 - Text.bigEndian b)
  | .tag _ c => cborInteger? c
  | _ => none

/-- The entries of a map, also after tags. -/
def cborEntries : Cbor.Item → List (Cbor.Item × Cbor.Item)
  | .map entries => entries
  | .tag _ c => cborEntries c
  | _ => []

/-- The name of a field, in letters of either case. -/
def cborNames (name : Text) : Cbor.Item → Bool
  | .text pieces => Text.toLower pieces.flatten = name
  | _ => false

/-- The number under `version`. Of several entries the first one counts. -/
def cborVersion? (item : Cbor.Item) : Option Int :=
  ((cborEntries item).find? fun entry => cborNames "version" entry.1).bind fun entry =>
    cborInteger? entry.2

def msgpackInteger? : MessagePack.Item → Option Int
  | .int n => some n
  | _ => none

def msgpackNames (name : Text) : MessagePack.Item → Bool
  | .str t => t = name
  | _ => false

/-- The number under `version`, or in its place if the record is an array. Of several entries the
last one counts. -/
def msgpackVersion? : MessagePack.Item → Option Int
  | .map entries =>
    (entries.reverse.find? fun entry => msgpackNames "version" entry.1).bind fun entry =>
      msgpackInteger? entry.2
  | .array [_, v, _, _, _] => msgpackInteger? v
  | _ => none

/-- The version that bytes state in the given form. -/
def statedVersion? (data : Text) : Format → Option Int
  | .binary => some (Text.littleEndian ((data.drop 4).take 2))
  | .cbor => (Cbor.read data).bind cborVersion?
  | .msgpack => (MessagePack.read data).bind msgpackVersion?

/-! ### The binary form -/

lemma binary_version {data : Text} {p : Program} (h : Binary.decode data = .ok p) :
    Text.littleEndian ((data.drop 4).take 2) ≤ version.toNat := by
  obtain ⟨v, functions, constants, symbols, hv, -, -, -, rfl⟩ := decode_eq_ok_iff.mp h
  have hone : version.toNat = 1 := rfl
  have hmark : magic.length = 4 := rfl
  simp only [List.append_assoc]
  rw [List.drop_left' hmark, List.take_left' (length_littleEndianBytes 2 v),
    littleEndian_littleEndianBytes (by omega)]
  exact hv

/-! ### CBOR -/

lemma cborEntries_of_untag {item : Cbor.Item} {entries : List (Cbor.Item × Cbor.Item)}
    (h : Cbor.untag item = some (.map entries)) : cborEntries item = entries := by
  fun_induction Cbor.untag item with
  | case1 n c hfits => cases h
  | case2 n c hfits hbig => cases h
  | case3 n c hfits hbig ih => exact ih h
  | case4 c hnot =>
    cases h
    rfl

/-- Tags that are passed over do not change a number. -/
lemma cborInteger?_of_untag {item c : Cbor.Item} (h : Cbor.untag item = some c) :
    cborInteger? item = cborInteger? c := by
  fun_induction Cbor.untag item with
  | case1 n c hfits => cases h
  | case2 n c hfits hbig =>
    cases h
    rfl
  | case3 n c hfits hbig ih =>
    rw [← ih h]
    push Not at hbig
    rw [cborInteger?]
    · intro b hn
      exact absurd hn hbig.1
    · intro b hn
      exact absurd hn hbig.2
  | case4 c hnot =>
    cases h
    rfl

lemma toNat?_eq_some {limit n : Nat} {item : Cbor.Item} {v : Int}
    (h : Cbor.toNat? limit item = some n) (hv : cborInteger? item = some v) :
    v = n ∧ n < limit := by
  unfold Cbor.toNat? at h
  split at h
  · rename_i m huntag
    rw [cborInteger?_of_untag huntag] at hv
    split_ifs at h with hlimit
    cases h
    cases hv
    exact ⟨rfl, hlimit⟩
  · rename_i b huntag
    rw [cborInteger?_of_untag huntag] at hv
    split_ifs at h with hlimit
    cases h
    cases hv
    exact ⟨rfl, hlimit⟩
  · rename_i m huntag
    rw [cborInteger?_of_untag huntag, cborInteger?] at hv
    split_ifs at hv with hmeaning
    rw [if_neg (by omega), if_neg (by omega)] at h
    split_ifs at h with hlimit
    cases h
    cases hv
    exact ⟨rfl, hlimit⟩
  · cases h

/-- Among fields with names in lower case a name is looked up without regard to case. -/
lemma matchField_name {fields : List Cbor.Key}
    (hlower : ∀ f ∈ fields, Text.toLower f.text = f.text) (t : Text) :
    Cbor.matchField fields (.name t) = fields.find? fun f => f.text = Text.toLower t := by
  rw [Cbor.matchField]
  cases hfind : fields.find? fun f => f.text = t with
  | some f =>
    have hf := List.mem_of_find?_eq_some hfind
    have heq : f.text = t := by simpa using List.find?_some hfind
    have ht : Text.toLower t = t := by rw [← heq, hlower f hf]
    rw [ht, hfind]
    rfl
  | none =>
    rw [Option.none_or]
    apply List.find?_congr
    intro f hf
    rw [hlower f hf]
    by_cases heq : f.text = Text.toLower t
    · have hlength : f.text.length = t.length := by rw [heq, Text.toLower, List.length_map]
      simp [heq, ← hlength]
    · simp [heq]

lemma matchField_version {key : Cbor.Key} :
    Cbor.matchField CborForm.envelopeFields key = some (CborForm.key "version") ↔
      ∃ t, key = .name t ∧ Text.toLower t = "version" := by
  cases key with
  | number n => simp [Cbor.matchField, CborForm.envelopeFields, CborForm.key]
  | name t =>
    rw [matchField_name (by decide)]
    constructor
    · intro h
      have ht := List.find?_some h
      simp only [decide_eq_true_eq] at ht
      exact ⟨t, rfl, ht.symm⟩
    · rintro ⟨_, ⟨⟩, ht⟩
      rw [ht]
      decide

section Collect

variable {fields : List Cbor.Key} {f : Cbor.Key} {names : Cbor.Item → Bool}
  {found found' : List (Cbor.Key × Cbor.Item)}

/-- One more entry is found for a field if it names the field and none was found before. -/
lemma find?_collectEntry {entry : Cbor.Item × Cbor.Item}
    (hnames : ∀ i key, Cbor.entryKey? i = some key →
      (names i = true ↔ key.bind (Cbor.matchField fields) = some f))
    (h : Cbor.collectEntry fields found entry = some found') :
    found'.reverse.find? (fun x => x.1 = f) = (found.reverse.find? fun x => x.1 = f).or
      (if names entry.1 then some (f, entry.2) else none) := by
  unfold Cbor.collectEntry at h
  split at h
  · cases h
  · rename_i hkey
    cases h
    rw [if_neg (by simp [hnames _ _ hkey]), Option.or_none]
  · rename_i key hkey
    have hname := hnames _ _ hkey
    rw [Option.bind_some] at hname
    split at h
    · rename_i hnone
      cases h
      rw [if_neg (by simp [hname, hnone]), Option.or_none]
    · rename_i g hg
      rw [hg, Option.some.injEq] at hname
      split_ifs at h with hany
      · cases h
        split_ifs with hentry
        · -- an entry for the field was found before, and it stays
          obtain ⟨x, hx, hxg⟩ := List.any_eq_true.mp hany
          have hsome : (found.reverse.find? fun x => x.1 = f).isSome := by
            rw [List.find?_isSome]
            exact ⟨x, List.mem_reverse.mpr hx, hname.mp hentry ▸ hxg⟩
          rw [Option.or_of_isSome hsome]
        · rw [Option.or_none]
      · cases h
        rw [List.reverse_cons, List.find?_append]
        congr 1
        split_ifs with hentry
        · simp [hname.mp hentry]
        · have hne : g ≠ f := mt hname.mpr hentry
          simp [hne]

/-- Of all the entries that name a field the first one counts. -/
lemma find?_collectEntries {entries : List (Cbor.Item × Cbor.Item)}
    (hnames : ∀ i key, Cbor.entryKey? i = some key →
      (names i = true ↔ key.bind (Cbor.matchField fields) = some f))
    (h : entries.foldlM (Cbor.collectEntry fields) found = some found') :
    found'.reverse.find? (fun x => x.1 = f) = (found.reverse.find? fun x => x.1 = f).or
      ((entries.find? fun entry => names entry.1).map fun entry => (f, entry.2)) := by
  induction entries generalizing found with
  | nil =>
    cases h
    simp
  | cons entry entries ih =>
    rw [List.foldlM_cons] at h
    obtain ⟨next, hnext, hrest⟩ := Option.bind_eq_some_iff.mp h
    rw [ih hrest, find?_collectEntry hnames hnext, Option.or_assoc, List.find?_cons]
    by_cases hname : names entry.1 = true
    · simp [hname]
    · simp [hname]

end Collect

lemma cborNames_version (i : Cbor.Item) (key : Option Cbor.Key)
    (h : Cbor.entryKey? i = some key) : cborNames "version" i = true ↔
      key.bind (Cbor.matchField CborForm.envelopeFields) = some (CborForm.key "version") := by
  unfold Cbor.entryKey? at h
  split at h
  · split_ifs at h
    cases h
    simp [cborNames, matchField_version]
  · cases h
    simp [cborNames, matchField_version]
  · split_ifs at h
    cases h
    simp [cborNames]
  · cases h

/-- The number that is stated fits in the field, and it is the version of the envelope. -/
lemma cbor_version {item : Cbor.Item} {e : Envelope} {v : Int}
    (h : CborForm.toEnvelope? item = some e) (hmagic : e.magic = magic)
    (hv : cborVersion? item = some v) : v = e.version.toNat := by
  obtain ⟨entries, hentries⟩ := map_of_cbor_envelope h hmagic
  obtain ⟨record, n, hrecord, -, hfield, hversion⟩ := cbor_toEnvelope?_eq_some h
  rw [Cbor.toRecord?, hentries] at hrecord
  obtain ⟨found, hfold, rfl⟩ := Option.map_eq_some_iff.mp hrecord
  obtain ⟨entry, hentry, hinteger⟩ := Option.bind_eq_some_iff.mp hv
  rw [cborEntries_of_untag hentries] at hentry
  have hfind := find?_collectEntries cborNames_version hfold
  rw [hentry, List.reverse_nil, List.find?_nil, Option.none_or, Option.map_some] at hfind
  have hnat : Cbor.toNat? 65536 entry.2 = some n := by
    rw [← hfield]
    simp only [Cbor.field?, hfind]
  obtain ⟨rfl, hlimit⟩ := toNat?_eq_some hnat hinteger
  rw [hversion, Nat.toUInt16, UInt16.toNat_ofNat_of_lt' hlimit]

/-! ### MessagePack -/

open MessagePackForm (toText? toBits? toRecord? setEnvelope envelopeFields)

/-- A record in MessagePack after one more entry. -/
lemma toRecord?_map_snoc {α : Type} [Inhabited α] (fields : List Text)
    (set : Text → MessagePack.Item → α → Option α) (before : α)
    (entries : List (MessagePack.Item × MessagePack.Item))
    (entry : MessagePack.Item × MessagePack.Item) :
    toRecord? fields set before (.map (entries ++ [entry])) =
      (toRecord? fields set before (.map entries)).bind fun a =>
        (toText? entry.1).bind fun name =>
          if fields.contains name then set name entry.2 a else some a := by
  simp only [toRecord?, List.foldlM_append, List.foldlM_cons, List.foldlM_nil,
    Option.bind_eq_bind, Option.pure_def, Option.bind_fun_some]

lemma setEnvelope_version {i : MessagePack.Item} {e e' : Envelope} {v : Int}
    (h : setEnvelope "version" i e = some e') (hv : msgpackInteger? i = some v) :
    e'.version = (UInt64.ofInt v).toUInt16 := by
  cases i with
  | int n =>
    cases hv
    cases h
    rfl
  | nil => cases hv
  | bool b => cases hv
  | float => cases hv
  | str t => cases hv
  | array items => cases hv
  | map entries => cases hv
  | ext => cases hv

/-- Every other field leaves the version as it is. -/
lemma version_setEnvelope {name : Text} {i : MessagePack.Item} {e e' : Envelope}
    (h : setEnvelope name i e = some e') (hname : name ≠ "version") :
    e'.version = e.version := by
  have hset : ∀ {α : Type} {x : Option α} {change : α → Envelope},
      x.map change = some e' → (∀ a, (change a).version = e.version) →
      e'.version = e.version := by
    intro α x change hmap hchange
    obtain ⟨a, -, rfl⟩ := Option.map_eq_some_iff.mp hmap
    exact hchange a
  unfold setEnvelope at h
  split_ifs at h
  · exact hset h fun _ => rfl
  · exact hset h fun _ => rfl
  · exact hset h fun _ => rfl
  · split at h
    · cases h
      rfl
    · exact hset h fun _ => rfl

lemma toText?_of_names {name : Text} {i : MessagePack.Item} (h : msgpackNames name i = true) :
    toText? i = some name := by
  unfold msgpackNames at h
  split at h
  · rw [← of_decide_eq_true h]
    rfl
  · cases h

/-- Only a name that is written out is not empty. -/
lemma names_of_toText? {name : Text} {i : MessagePack.Item} (hne : name ≠ [])
    (h : toText? i = some name) : msgpackNames name i = true := by
  obtain ⟨t, ht, rfl⟩ := Option.map_eq_some_iff.mp h
  unfold MessagePackForm.toBytes? at ht
  split at ht
  · cases ht
    exact decide_eq_true rfl
  · cases ht
    exact absurd rfl hne
  · cases ht

/-- Of all the entries for the version the last one counts. -/
lemma map_version {entries : List (MessagePack.Item × MessagePack.Item)} {before e : Envelope}
    {v : Int} (h : toRecord? envelopeFields setEnvelope before (.map entries) = some e)
    (hv : msgpackVersion? (.map entries) = some v) : e.version = (UInt64.ofInt v).toUInt16 := by
  induction entries using List.reverseRecOn generalizing e with
  | nil => cases hv
  | append_singleton entries entry ih =>
    rw [toRecord?_map_snoc] at h
    obtain ⟨e', hbefore, hentry⟩ := Option.bind_eq_some_iff.mp h
    obtain ⟨name, hname, hset⟩ := Option.bind_eq_some_iff.mp hentry
    rw [msgpackVersion?, List.reverse_append, List.reverse_singleton, List.singleton_append,
      List.find?_cons] at hv
    cases hnames : msgpackNames "version" entry.1 with
    | true =>
      rw [hnames, Option.bind_some] at hv
      rw [toText?_of_names hnames, Option.some.injEq] at hname
      subst hname
      exact setEnvelope_version hset hv
    | false =>
      rw [hnames] at hv
      have hkept : e.version = e'.version := by
        split_ifs at hset
        · apply version_setEnvelope hset
          rintro rfl
          rw [names_of_toText? (by decide) hname] at hnames
          cases hnames
        · cases hset
          rfl
      rw [hkept]
      exact ih hbefore hv

lemma array_version {m i functions constants symbols : MessagePack.Item} {before e : Envelope}
    {v : Int} (h : toRecord? envelopeFields setEnvelope before
      (.array [m, i, functions, constants, symbols]) = some e)
    (hv : msgpackInteger? i = some v) : e.version = (UInt64.ofInt v).toUInt16 := by
  have hzip : envelopeFields.zip [m, i, functions, constants, symbols] =
      [(Text.ofString "magic", m), (Text.ofString "version", i),
        (Text.ofString "functions", functions), (Text.ofString "constants", constants),
        (Text.ofString "symbols", symbols)] := rfl
  rw [toRecord?, if_neg (by simp), if_pos (by rfl), hzip] at h
  simp only [List.foldlM_cons, List.foldlM_nil, Option.bind_eq_bind, Option.bind_eq_some_iff] at h
  obtain ⟨e₁, -, e₂, hversion, e₃, hfunctions, e₄, hconstants, e₅, hsymbols, hlast⟩ := h
  cases hlast
  rw [version_setEnvelope hsymbols (by decide), version_setEnvelope hconstants (by decide),
    version_setEnvelope hfunctions (by decide)]
  exact setEnvelope_version hversion hv

/-- The version of the envelope is the number that is stated, cut to the width of the field. -/
lemma msgpack_version {item : MessagePack.Item} {e : Envelope} {v : Int}
    (h : MessagePackForm.toEnvelope? item = some e) (hv : msgpackVersion? item = some v) :
    v % 65536 = e.version.toNat := by
  have hcut : e.version = (UInt64.ofInt v).toUInt16 := by
    unfold msgpackVersion? at hv
    split at hv
    · exact map_version h hv
    · exact array_version h hv
    · cases hv
  have hbits : ((UInt64.ofInt v).toNat : Int) = v % 2 ^ 64 := by
    rw [UInt64.ofInt, UInt64.toNat_ofNat']
    omega
  rw [hcut, UInt64.toNat_toUInt16, Int.natCast_emod, hbits]
  exact (Int.emod_emod_of_dvd v (by decide)).symm

/-! ### Every form -/

/-- A version that is accepted is not newer, of MessagePack as far as its lowest bits go: there a
newer one is accepted if it is wider than the field. -/
theorem accepted_version_known {data : Text} {f : Format} {p : Program} {v : Int}
    (h : decodeAs data f = some p) (hv : statedVersion? data f = some v) :
    v % 65536 ≤ version.toNat ∧ (f ≠ .msgpack → 0 ≤ v ∧ v ≤ version.toNat) ∧
      (v ≤ version.toNat ↔ v < 65536) := by
  have hone : version.toNat = 1 := rfl
  cases f with
  | binary =>
    cases hv
    have hle := binary_version (toOption_eq_some_iff.mp h)
    refine ⟨by omega, fun _ => ⟨by omega, by omega⟩, by omega⟩
  | cbor =>
    obtain ⟨item, e, hread, henvelope, hopen⟩ := envelope_of_decode (toOption_eq_some_iff.mp h)
    obtain ⟨hmagic, hle⟩ := open_eq_ok hopen
    rw [UInt16.le_iff_toNat_le] at hle
    rw [statedVersion?, hread, Option.bind_some] at hv
    have hstated := cbor_version henvelope hmagic hv
    refine ⟨by omega, fun _ => ⟨by omega, by omega⟩, by omega⟩
  | msgpack =>
    obtain ⟨item, e, hread, henvelope, hopen⟩ := envelope_of_decode (toOption_eq_some_iff.mp h)
    have hle := UInt16.le_iff_toNat_le.mp (open_eq_ok hopen).2
    rw [statedVersion?, hread, Option.bind_some] at hv
    have hstated := msgpack_version henvelope hv
    refine ⟨by omega, fun hne => absurd rfl hne, by omega⟩

/-- A large integer of CBOR, and a negative one of MessagePack. -/
theorem wideInteger_version_known :
    let tagged : Text := [0xA2, 0x65, 0x6D, 0x61, 0x67, 0x69, 0x63, 0x64, 0x56, 0x45, 0x4C, 0x41,
      0x67, 0x56, 0x65, 0x72, 0x73, 0x69, 0x6F, 0x6E, 0xC2, 0x41, 0x01]
    let packed : Text := [0x82, 0xA5, 0x6D, 0x61, 0x67, 0x69, 0x63, 0xA4, 0x56, 0x45, 0x4C, 0x41,
      0xA7, 0x76, 0x65, 0x72, 0x73, 0x69, 0x6F, 0x6E, 0xD3, 0xFF, 0xFF, 0xFF, 0xFF, 0xFF, 0xFF,
      0x00, 0x01]
    decodeAs tagged .cbor = some {} ∧ statedVersion? tagged .cbor = some 1 ∧
      (1 : Int) ≤ version.toNat ∧ decodeAs packed .msgpack = some {} ∧
      statedVersion? packed .msgpack = some (-65535) ∧ (-65535 : Int) % 65536 ≤ version.toNat := by
  intro tagged packed
  have htagged : decodeAs tagged .cbor = some {} := by decide +kernel
  have hpacked : decodeAs packed .msgpack = some {} := by decide +kernel
  have hone : statedVersion? tagged .cbor = some 1 := by decide +kernel
  have hnegative : statedVersion? packed .msgpack = some (-65535) := by decide +kernel
  exact ⟨htagged, hone, ((accepted_version_known htagged hone).2.1 (by decide)).2, hpacked,
    hnegative, (accepted_version_known hpacked hnegative).1⟩

/-- MessagePack of version 65537 is accepted. -/
theorem newer_version_accepted :
    let data : Text := [0x84, 0xA5, 0x6D, 0x61, 0x67, 0x69, 0x63, 0xA4, 0x56, 0x45, 0x4C, 0x41,
      0xA7, 0x76, 0x65, 0x72, 0x73, 0x69, 0x6F, 0x6E, 0xCE, 0x00, 0x01, 0x00, 0x01, 0xA9, 0x66,
      0x75, 0x6E, 0x63, 0x74, 0x69, 0x6F, 0x6E, 0x73, 0x91, 0x84, 0xA4, 0x6E, 0x61, 0x6D, 0x65,
      0xA1, 0x66, 0xA6, 0x6C, 0x6F, 0x63, 0x61, 0x6C, 0x73, 0xCD, 0x00, 0x00, 0xA6, 0x70, 0x61,
      0x72, 0x61, 0x6D, 0x73, 0xCD, 0x00, 0x00, 0xA4, 0x63, 0x6F, 0x64, 0x65, 0xC4, 0x01, 0xF0,
      0xA9, 0x63, 0x6F, 0x6E, 0x73, 0x74, 0x61, 0x6E, 0x74, 0x73, 0x90]
    decodeAs data .msgpack = some { functions := [⟨"f", some #[0xF0], 0, 0⟩] } ∧
      statedVersion? data .msgpack = some 65537 ∧ (version.toNat : Int) < 65537 := by
  decide +kernel

end StackCode.Proofs
