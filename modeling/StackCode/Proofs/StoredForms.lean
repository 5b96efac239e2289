import StackCode.Program.Format
import StackCode.Proofs.MessagePackRoundTrip
import StackCode.Proofs.Runes

/-!
# Loading the stored forms

Loading finds out by itself which self-describing form it is given. Neither form is mistaken for
the other: what starts a record in one of them starts something else in the other.
-/

namespace StackCode.Proofs

open Program

/-- The CBOR form of a program starts with a map of at most five fields. -/
lemma cbor_encode_eq (p : Program) :
    ∃ n t, n ≤ 5 ∧ CborForm.encode p = (0xA0 + n).toUInt8 :: t := by
  unfold CborForm.encode CborForm.ofEnvelope Cbor.ofFields CborForm.unlessEmpty
  split_ifs
  · exact ⟨4, _, by omega, rfl⟩
  · exact ⟨5, _, by omega, rfl⟩

/-- The MessagePack form of a program starts with a map of at most five fields. -/
lemma msgpack_encode_eq (p : Program) :
    ∃ n t, n ≤ 5 ∧ MessagePackForm.encode p = (0x80 + n).toUInt8 :: t := by
  unfold MessagePackForm.encode MessagePackForm.ofEnvelope MessagePack.ofFields
    MessagePackForm.unlessEmpty
  split_ifs
  · exact ⟨4, _, by omega, rfl⟩
  · exact ⟨5, _, by omega, rfl⟩

lemma not_isBinary_of_lead {b : UInt8} {t : Text} (hb : 0x80 ≤ b.toNat) :
    Binary.isBinary (b :: t) = false := by
  have hmagic : magic = [0x56, 0x45, 0x4C, 0x41] := by decide
  have hne : (0x56 : UInt8) ≠ b := by
    rintro rfl
    simp at hb
  simp [Binary.isBinary, hmagic, List.isPrefixOf, hne]

/-- A map of CBOR is a string of MessagePack, and a string holds no program. -/
lemma msgpack_refuses_cbor (p : Program) :
    MessagePackForm.decode (CborForm.encode p) = .error .malformed := by
  obtain ⟨n, t, hn, hencode⟩ := cbor_encode_eq p
  have hread : (MessagePack.read (CborForm.encode p)).bind MessagePackForm.toEnvelope? = none := by
    rw [hencode, MessagePack.read, List.length_cons, MessagePack.takeItem]
    simp only [lead_strFixed (show n < 32 by omega), MessagePack.takeStr]
    cases Text.takeExact? n t with
    | none => rfl
    | some cut => rfl
  rw [MessagePackForm.decode, hread]

lemma eq_array_of_takeItem {fuel levels n : Nat} (hn : n < 2 ^ 64) {t rest : Text} {i : Cbor.Item}
    (h : Cbor.takeItem (fuel + 1) levels (Cbor.head 4 n ++ t) = some (i, rest)) :
    ∃ is, i = .array is := by
  rw [takeItem_array fuel levels hn] at h
  split_ifs at h
  split at h
  · split_ifs at h
    cases h
    exact ⟨_, rfl⟩
  · cases h

/-- A map of MessagePack is an array of CBOR, and an array holds no program. -/
lemma cbor_refuses_msgpack (p : Program) :
    CborForm.decode (MessagePackForm.encode p) = .error .malformed := by
  obtain ⟨n, t, hn, hencode⟩ := msgpack_encode_eq p
  have hhead : (0x80 + n).toUInt8 :: t = Cbor.head 4 n ++ t := by
    rw [Cbor.head, if_pos (by omega)]
    rfl
  have hread : (Cbor.read (MessagePackForm.encode p)).bind CborForm.toEnvelope? = none := by
    rw [hencode, hhead, Cbor.read]
    split
    · rename_i i hitem
      obtain ⟨is, rfl⟩ := eq_array_of_takeItem (by omega) hitem
      rfl
    · rfl
  rw [CborForm.decode, hread]

/-- The names, symbols and string constants of a program are well-formed UTF-8. -/
structure Utf8Texts (p : Program) : Prop where
  names : ∀ f ∈ p.functions, f.name.toByteArray.IsValidUTF8
  symbols : ∀ s ∈ p.symbols, s.toByteArray.IsValidUTF8
  strings : ∀ s, Value.str s ∈ p.constants → s.toByteArray.IsValidUTF8

lemma textsAreUtf8_iff {p : Program} : textsAreUtf8 p ↔ Utf8Texts p := by
  have hconstants : (∀ v ∈ p.constants, (Tagged.ofValue v).str.isUtf8 = true) ↔
      ∀ s, Value.str s ∈ p.constants → s.isUtf8 = true := by
    constructor
    · intro h s hs
      exact h (.str s) hs
    · intro h v hv
      cases v with
      | str s => exact h s hv
      | _ => rfl
  unfold textsAreUtf8
  rw [Bool.and_eq_true, Bool.and_eq_true, List.all_eq_true, List.all_eq_true, List.all_eq_true,
    hconstants]
  constructor
  · rintro ⟨⟨hnames, hstrings⟩, hsymbols⟩
    exact ⟨fun f hf => isUtf8_iff_valid.mp (hnames f hf),
      fun s hs => isUtf8_iff_valid.mp (hsymbols s hs),
      fun s hs => isUtf8_iff_valid.mp (hstrings s hs)⟩
  · intro h
    exact ⟨⟨fun f hf => isUtf8_iff_valid.mpr (h.names f hf),
      fun s hs => isUtf8_iff_valid.mpr (h.strings s hs)⟩,
      fun s hs => isUtf8_iff_valid.mpr (h.symbols s hs)⟩

lemma load_cbor (p : Program) :
    Program.load (CborForm.encode p) =
      match CborForm.decode (CborForm.encode p) with
      | .ok q => .ok (q, .cbor)
      | .error _ => .error (.unrecognised ((CborForm.encode p).take 8)) := by
  obtain ⟨n, t, hn, hencode⟩ := cbor_encode_eq p
  have hbinary : Binary.isBinary (CborForm.encode p) = false := by
    rw [hencode]
    exact not_isBinary_of_lead (by rw [toNat_lead_add] <;> omega)
  simp only [Program.load, hbinary, msgpack_refuses_cbor]
  rfl

/-- The CBOR form of a program loads exactly if its texts are UTF-8, and then as that program. A
form that is not accepted as CBOR is not taken for MessagePack either. The length of the form is a
number of 64 bits. -/
theorem cbor_form_loads {p : Program} (hfunctions : p.functions.length ≤ 65536)
    (hconstants : p.constants.length ≤ 65536) (hsymbols : p.symbols.length ≤ 65536)
    (hsize : (CborForm.encode p).length < 2 ^ 64) :
    ∃ data, p.store .cbor = .ok data ∧
      ((∃ result, Program.load data = .ok result) ↔ Utf8Texts p) ∧
      (Utf8Texts p → Program.load data = .ok (p, .cbor)) := by
  have hlists : listsAreReadable p = true := by
    have hlimit : Cbor.maxElements = 131072 := rfl
    simp only [listsAreReadable, Bool.and_eq_true, decide_eq_true_eq]
    omega
  have hload : Program.load (CborForm.encode p) =
      if textsAreUtf8 p then .ok (p, .cbor)
      else .error (.unrecognised ((CborForm.encode p).take 8)) := by
    rw [load_cbor, cbor_decode_encode hsize, readable, hlists, Bool.true_and]
    split_ifs <;> rfl
  refine ⟨_, rfl, ?_⟩
  rw [hload, ← textsAreUtf8_iff]
  by_cases hutf8 : textsAreUtf8 p = true
  · simp [hutf8]
  · simp [hutf8]

/-- A program with a constant of every kind, a function with code, one with empty code and one
without any, and the given symbol. -/
def mixedProgram (symbol : Text) : Program where
  functions := [⟨"größe", some #[16, 0, 0, 240], 3, 300⟩, ⟨"leer", some #[], 0, 0⟩,
    ⟨"", none, 65535, 1⟩]
  constants := [.null, .bool true, .int (-25), .float ⟨0x7FF8000000000001⟩, .str "値", .str ""]
  symbols := [symbol]

/-- A symbol of two characters is read back, half a character is not. -/
theorem mixedProgram_loads :
    (∃ data, (mixedProgram "値é").store .cbor = .ok data ∧
      Program.load data = .ok (mixedProgram "値é", .cbor)) ∧
    ∃ data, (mixedProgram [0xC3]).store .cbor = .ok data ∧
      ¬∃ result, Program.load data = .ok result := by
  have hlength : (CborForm.encode (mixedProgram "値é")).length = 212 := by decide +kernel
  have hlength' : (CborForm.encode (mixedProgram [0xC3])).length = 208 := by decide +kernel
  have hutf8 : textsAreUtf8 (mixedProgram "値é") = true := by decide +kernel
  have hutf8' : textsAreUtf8 (mixedProgram [0xC3]) = false := by decide +kernel
  obtain ⟨data, hstore, -, hload⟩ := cbor_form_loads (p := mixedProgram "値é") (by decide)
    (by decide) (by decide) (by rw [hlength]; norm_num)
  obtain ⟨data', hstore', hload', -⟩ := cbor_form_loads (p := mixedProgram [0xC3]) (by decide)
    (by decide) (by decide) (by rw [hlength']; norm_num)
  refine ⟨⟨data, hstore, hload (textsAreUtf8_iff.mp hutf8)⟩, data', hstore', ?_⟩
  rw [hload', ← textsAreUtf8_iff, hutf8']
  simp

/-- The MessagePack form of a program loads as that program, whatever bytes its texts hold. It is
neither taken for the binary form nor accepted as CBOR. -/
theorem msgpack_form_loads {p : Program} (h : FitsMessagePack p) :
    ∃ data, p.store .msgpack = .ok data ∧ Program.load data = .ok (p, .msgpack) ∧
      Binary.isBinary data = false ∧ ∃ e, CborForm.decode data = .error e := by
  obtain ⟨n, t, hn, hencode⟩ := msgpack_encode_eq p
  have hbinary : Binary.isBinary (MessagePackForm.encode p) = false := by
    rw [hencode]
    exact not_isBinary_of_lead (by rw [toNat_lead_add] <;> omega)
  have hload : Program.load (MessagePackForm.encode p) = .ok (p, .msgpack) := by
    simp only [Program.load, hbinary, cbor_refuses_msgpack, msgpack_decode_encode h]
    rfl
  exact ⟨_, rfl, hload, hbinary, _, cbor_refuses_msgpack p⟩

theorem mixedProgram_loads_packed :
    FitsMessagePack (mixedProgram [0xFF, 0x00]) ∧
    ∃ data, (mixedProgram [0xFF, 0x00]).store .msgpack = .ok data ∧
      Program.load data = .ok (mixedProgram [0xFF, 0x00], .msgpack) := by
  have hfits : FitsMessagePack (mixedProgram [0xFF, 0x00]) := by
    refine ⟨by decide, by decide, by decide, ?_, ?_, ?_⟩
    · simp only [mixedProgram, List.mem_cons, List.not_mem_nil, or_false]
      rintro f (rfl | rfl | rfl)
      all_goals exact ⟨by decide, by decide⟩
    · simp only [mixedProgram, List.mem_cons, List.not_mem_nil, or_false]
      rintro s (h | h | h | h | h | h)
      all_goals cases h
      all_goals decide
    · simp [mixedProgram]
  obtain ⟨data, hstore, hload, -⟩ := msgpack_form_loads hfits
  exact ⟨hfits, data, hstore, hload⟩

end StackCode.Proofs
