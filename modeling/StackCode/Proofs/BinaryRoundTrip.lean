import StackCode.Proofs.BinaryReading

/-!
# Round trips of the binary form

Decoding gives back what was encoded, up to empty code. Encoding gives back what was decoded, up to
the version and the bytes of truth values.
-/

namespace StackCode.Proofs

open Text Program Program.Binary

/-! ### Decoding what was encoded -/

/-- A program whose counts and lengths fit the binary form. -/
structure FitsBinary (p : Program) : Prop where
  functions_le : p.functions.length ≤ 65535
  constants_le : p.constants.length ≤ 65535
  symbols_le : p.symbols.length ≤ 65535
  name_le : ∀ f ∈ p.functions, f.name.length ≤ 65535
  code_lt : ∀ f ∈ p.functions, f.bytes.size < 2 ^ 32
  string_lt : ∀ s, .str s ∈ p.constants → s.length < 2 ^ 32
  symbol_le : ∀ s ∈ p.symbols, s.length ≤ 65535

lemma exists_table_iff {α : Type} {form : α → Text → Prop} {xs : List α} :
    (∃ t, Table form xs t) ↔ xs.length ≤ 65535 ∧ ∀ x ∈ xs, ∃ t, form x t := by
  have hparts : (∃ parts, List.Forall₂ form xs parts) ↔ ∀ x ∈ xs, ∃ t, form x t := by
    induction xs with
    | nil => simp
    | cons x xs ih =>
      rw [List.forall_mem_cons, ← ih]
      constructor
      · rintro ⟨_, h⟩
        obtain ⟨t, parts, hx, hxs, rfl⟩ := List.forall₂_cons_left_iff.mp h
        exact ⟨⟨t, hx⟩, parts, hxs⟩
      · rintro ⟨⟨t, hx⟩, parts, hxs⟩
        exact ⟨t :: parts, .cons hx hxs⟩
  rw [← hparts]
  constructor
  · rintro ⟨t, hlen, parts, hforms, -⟩
    exact ⟨by omega, parts, hforms⟩
  · rintro ⟨hlen, parts, hforms⟩
    exact ⟨_, by omega, parts, hforms, rfl⟩

lemma exists_encodeConstant_iff {v : Value} :
    (∃ t, encodeConstant v = .ok t) ↔ ∀ s, v = .str s → s.length < 2 ^ 32 := by
  cases v with
  | str s =>
    simp only [encodeStr_eq_ok_iff, exists_and_left, exists_eq, and_true, Value.str.injEq,
      forall_eq']
    norm_num
  | _ => simp [encodeConstant]

lemma exists_encode_iff {p : Program} : (∃ data, encode p = .ok data) ↔ FitsBinary p := by
  have hsplit : (∃ data, encode p = .ok data) ↔
      (∃ t, Table (fun f t => encodeFunction f = .ok t) p.functions t) ∧
      (∃ t, Table (fun v t => encodeConstant v = .ok t) p.constants t) ∧
      ∃ t, Table SymbolForm p.symbols t := by
    constructor
    · rintro ⟨data, h⟩
      obtain ⟨fs, cs, ss, hf, hc, hs, -⟩ := encode_eq_ok_iff.mp h
      exact ⟨⟨fs, hf⟩, ⟨cs, hc⟩, ss, hs⟩
    · rintro ⟨⟨fs, hf⟩, ⟨cs, hc⟩, ss, hs⟩
      exact ⟨_, encode_eq_ok_iff.mpr ⟨fs, cs, ss, hf, hc, hs, rfl⟩⟩
  rw [hsplit]
  simp only [exists_table_iff, encodeFunction_eq_ok_iff, exists_encodeConstant_iff, SymbolForm,
    encodeSymbol_eq_ok_iff, exists_and_left, exists_eq, and_true]
  constructor
  · rintro ⟨⟨hf, hfs⟩, ⟨hc, hcs⟩, hs, hss⟩
    refine ⟨hf, hc, hs, ?_, ?_, ?_, ?_⟩
    · intro f hmem
      have hname := (hfs f hmem).1
      omega
    · intro f hmem
      have hcode := (hfs f hmem).2
      omega
    · intro s hmem
      exact hcs _ hmem s rfl
    · intro s hmem
      have hlen := hss s hmem
      omega
  · intro h
    refine ⟨⟨h.functions_le, ?_⟩, ⟨h.constants_le, ?_⟩, h.symbols_le, ?_⟩
    · intro f hmem
      have hname := h.name_le f hmem
      have hcode := h.code_lt f hmem
      omega
    · rintro _ hmem s rfl
      exact h.string_lt s hmem
    · intro s hmem
      have hlen := h.symbol_le s hmem
      omega

/-- The function with no code in place of empty code. -/
def dropEmptyCode (f : Routine) : Routine :=
  { f with code := if f.code = some #[] then none else f.code }

lemma bytes_dropEmptyCode (f : Routine) : (dropEmptyCode f).bytes = f.bytes := by
  unfold dropEmptyCode Routine.bytes
  by_cases hempty : f.code = some #[]
  · simp [hempty]
  · simp [hempty]

lemma functionForm_dropEmptyCode {f : Routine} {t : Text} (h : encodeFunction f = .ok t) :
    FunctionForm (dropEmptyCode f) t := by
  refine ⟨?_, ?_⟩
  · rw [encodeFunction_eq_ok_iff, bytes_dropEmptyCode]
    exact encodeFunction_eq_ok_iff.mp h
  · unfold dropEmptyCode
    by_cases hempty : f.code = some #[]
    · simp [hempty]
    · simp [hempty]

lemma constantForm_of_encode {v : Value} {t : Text} (h : encodeConstant v = .ok t) :
    ConstantForm v t := by
  cases v with
  | bool b =>
    cases h
    exact ⟨if b then 1 else 0, rfl, by cases b <;> rfl⟩
  | _ => exact h

/-- The binary form does not tell empty code from none. -/
lemma decode_of_encode {p : Program} {data : Text} (h : encode p = .ok data) :
    decode data = .ok { p with functions := p.functions.map dropEmptyCode } := by
  obtain ⟨fs, cs, ss, hf, hc, hs, rfl⟩ := encode_eq_ok_iff.mp h
  refine decode_eq_ok_iff.mpr ⟨_, fs, cs, ss, le_rfl, ?_, ?_, hs, rfl⟩
  · exact (hf.imp fun f t => functionForm_dropEmptyCode).map
  · exact hc.imp fun v t => constantForm_of_encode

/-- A program has a binary form exactly if its counts and lengths fit, and decoding that form gives
the program back, with no code in place of empty code. -/
theorem binary_decode_undoes_encode (p : Program) :
    ((∃ data, encode p = .ok data) ↔ FitsBinary p) ∧
      ∀ data, encode p = .ok data →
        decode data = .ok { p with functions := p.functions.map dropEmptyCode } :=
  ⟨exists_encode_iff, fun _ h => decode_of_encode h⟩

/-- A program with empty code, an odd NaN, a negative zero and texts that are not UTF-8. -/
def oddProgram : Program where
  functions := [⟨[0xFF], some #[], 1, 2⟩, ⟨[], none, 0, 0⟩, ⟨[102], some #[0xF0], 65535, 256⟩]
  constants := [.float ⟨0x7FF8000000000001⟩, .float ⟨0x8000000000000000⟩, .int (-2), .bool true,
    .str [0xC0, 0x80], .null]
  symbols := [[102], []]

theorem oddProgram_roundTrips : ∃ data, encode oddProgram = .ok data ∧ data.length = 87 ∧
    decode data = .ok { oddProgram with functions :=
      [⟨[0xFF], none, 1, 2⟩, ⟨[], none, 0, 0⟩, ⟨[102], some #[0xF0], 65535, 256⟩] } := by
  obtain ⟨data, hdata⟩ : ∃ data, encode oddProgram = .ok data := ⟨_, rfl⟩
  refine ⟨data, hdata, ?_, (binary_decode_undoes_encode oddProgram).2 data hdata⟩
  cases hdata
  rfl

/-! ### Encoding what was decoded -/

/-- The number of bytes of a function in the binary form. -/
def functionSize (f : Routine) : Nat := 10 + f.name.length + f.bytes.size

/-- The number of bytes of a constant in the binary form. -/
def constantSize : Value → Nat
  | .null => 1
  | .bool _ => 2
  | .int _ | .float _ => 9
  | .str s => 5 + s.length

/-- The offsets of the payloads of truth values among constants from an offset on. -/
def boolPayloadsFrom (offset : Nat) : List Value → List Nat
  | [] => []
  | .bool _ :: vs => (offset + 1) :: boolPayloadsFrom (offset + 2) vs
  | v :: vs => boolPayloadsFrom (offset + constantSize v) vs

/-- The offsets of the payloads of truth values in the binary form: the constants come after the mark,
the version, the count of functions, the functions and the count of constants. -/
def boolPayloads (p : Program) : List Nat :=
  boolPayloadsFrom (4 + 2 + 2 + (p.functions.map functionSize).sum + 2) p.constants

/-- What a byte at an offset becomes when the bytes at `payloads` are truth values. -/
def truthByte (payloads : List Nat) (i : Nat) (b : UInt8) : UInt8 :=
  if i ∈ payloads then if b = 0 then 0 else 1 else b

lemma boolPayloadsFrom_cons (offset : Nat) (v : Value) (vs : List Value) :
    boolPayloadsFrom offset (v :: vs) =
      (if v.kind = .bool then [offset + 1] else []) ++
        boolPayloadsFrom (offset + constantSize v) vs := by
  cases v <;> rfl

lemma mem_boolPayloadsFrom {offset i : Nat} {vs : List Value} (h : i ∈ boolPayloadsFrom offset vs) :
    offset < i ∧ i < offset + (vs.map constantSize).sum := by
  induction vs generalizing offset with
  | nil => cases h
  | cons v vs ih =>
    rw [boolPayloadsFrom_cons, List.mem_append] at h
    rw [List.map_cons, List.sum_cons]
    rcases h with hv | hvs
    · split_ifs at hv with hkind
      · obtain ⟨b, rfl⟩ : ∃ b, v = .bool b := by
          cases v <;> simp_all [Value.kind]
        have hi : i = offset + 1 := by simpa using hv
        have hsize : constantSize (.bool b) = 2 := rfl
        omega
      · cases hv
    · have hrest := ih hvs
      omega

lemma truthByte_of_not_mem {payloads : List Nat} {i : Nat} (h : i ∉ payloads) (b : UInt8) :
    truthByte payloads i b = b := if_neg h

lemma truthByte_congr {payloads payloads' : List Nat} {i : Nat}
    (h : i ∈ payloads ↔ i ∈ payloads') (b : UInt8) :
    truthByte payloads i b = truthByte payloads' i b := by
  unfold truthByte
  by_cases hi : i ∈ payloads
  · rw [if_pos hi, if_pos (h.mp hi)]
  · rw [if_neg hi, if_neg fun hi' => hi (h.mpr hi')]

lemma mapIdx_congr_lt {f g : Nat → UInt8 → UInt8} {t : Text}
    (h : ∀ i b, i < t.length → f i b = g i b) : t.mapIdx f = t.mapIdx g := by
  apply List.ext_getElem
  · simp
  · intro i hi _
    rw [List.getElem_mapIdx, List.getElem_mapIdx]
    exact h i _ (by simpa using hi)

lemma mapIdx_truthByte_eq_self {payloads : List Nat} {offset : Nat} {t : Text}
    (h : ∀ i, i < t.length → offset + i ∉ payloads) :
    t.mapIdx (fun i => truthByte payloads (offset + i)) = t := by
  rw [mapIdx_congr_lt (g := fun _ b => b) fun i b hi => truthByte_of_not_mem (h i hi) b]
  apply List.ext_getElem
  · simp
  · intro i _ _
    rw [List.getElem_mapIdx]

/-- A constant that is read is written with the same bytes, but for the payload of a truth value. -/
lemma encodeConstant_of_form {v : Value} {t : Text} (h : ConstantForm v t) (offset : Nat) :
    t.length = constantSize v ∧ encodeConstant v = .ok (t.mapIdx fun i =>
      truthByte (if v.kind = .bool then [offset + 1] else []) (offset + i)) := by
  cases v with
  | bool b =>
    obtain ⟨x, rfl, rfl⟩ := h
    refine ⟨rfl, ?_⟩
    by_cases hx : x = 0
    · subst hx
      simp [encodeConstant, Value.kind, truthByte]
    · simp [encodeConstant, Value.kind, truthByte, hx]
  | str s =>
    obtain ⟨hn, rfl⟩ := encodeStr_eq_ok_iff.mp h
    refine ⟨by simp [constantSize]; omega, ?_⟩
    rw [mapIdx_truthByte_eq_self (by simp [Value.kind])]
    exact h
  | null =>
    cases h
    exact ⟨rfl, rfl⟩
  | int n =>
    cases h
    refine ⟨by simp [constantSize], ?_⟩
    rw [mapIdx_truthByte_eq_self (by simp [Value.kind])]
    rfl
  | float x =>
    cases h
    refine ⟨by simp [constantSize], ?_⟩
    rw [mapIdx_truthByte_eq_self (by simp [Value.kind])]
    rfl

lemma encodeConstants_of_forms {vs : List Value} {parts : List Text}
    (h : List.Forall₂ ConstantForm vs parts) (offset : Nat) :
    parts.flatten.length = (vs.map constantSize).sum ∧
      ∃ parts', List.Forall₂ (fun v t => encodeConstant v = .ok t) vs parts' ∧
        parts'.flatten =
          parts.flatten.mapIdx fun i => truthByte (boolPayloadsFrom offset vs) (offset + i) := by
  induction h generalizing offset with
  | nil => exact ⟨rfl, [], .nil, rfl⟩
  | @cons v t vs parts hv _ ih =>
    obtain ⟨hsize, hencode⟩ := encodeConstant_of_form hv offset
    obtain ⟨hsizes, parts', hforms, hflat⟩ := ih (offset + constantSize v)
    refine ⟨by simp [hsize, hsizes], _ :: parts', .cons hencode hforms, ?_⟩
    rw [List.flatten_cons, List.flatten_cons, List.mapIdx_append, hflat]
    congr 1
    · apply mapIdx_congr_lt
      intro i b hi
      apply truthByte_congr
      rw [boolPayloadsFrom_cons, List.mem_append, iff_self_or]
      intro hmem
      have hlt := (mem_boolPayloadsFrom hmem).1
      omega
    · apply mapIdx_congr_lt
      intro i b _
      have hi : offset + (i + t.length) = offset + constantSize v + i := by omega
      rw [hi]
      apply truthByte_congr
      rw [boolPayloadsFrom_cons, List.mem_append, iff_or_self]
      intro hmem
      split_ifs at hmem with hkind
      · have htwo : constantSize v = 2 := by
          cases v <;> simp_all [Value.kind, constantSize]
        have hone : offset + constantSize v + i = offset + 1 := by simpa using hmem
        omega
      · cases hmem

lemma length_functions {fs : List Routine} {t : Text} (h : Table FunctionForm fs t) :
    t.length = 2 + (fs.map functionSize).sum := by
  obtain ⟨-, parts, hforms, rfl⟩ := h
  have hparts : parts.flatten.length = (fs.map functionSize).sum := by
    induction hforms with
    | nil => rfl
    | cons hf _ ih =>
      obtain ⟨-, -, rfl⟩ := encodeFunction_eq_ok_iff.mp hf.1
      simp only [List.flatten_cons, List.length_append, List.map_cons, List.sum_cons, ih,
        length_littleEndianBytes, functionSize, Array.length_toList]
      omega
  rw [List.length_append, length_littleEndianBytes, hparts]

/-- The tables of a program after the version: only the payloads of truth values are rewritten. -/
lemma rewritten_tables {p : Program} {fs : Text} {parts parts' : List Text} (ss : Text)
    (hf : Table FunctionForm p.functions fs)
    (hlength : parts.flatten.length = (p.constants.map constantSize).sum)
    (hflat : parts'.flatten = parts.flatten.mapIdx fun i => truthByte (boolPayloads p)
      (4 + 2 + 2 + (p.functions.map functionSize).sum + 2 + i)) :
    fs ++ (littleEndianBytes 2 p.constants.length ++ (parts'.flatten ++ ss)) =
      (fs ++ (littleEndianBytes 2 p.constants.length ++ (parts.flatten ++ ss))).mapIdx
        fun i => truthByte (boolPayloads p) (6 + i) := by
  have hfs := length_functions hf
  have hbefore : ∀ i, i ≤ 4 + 2 + 2 + (p.functions.map functionSize).sum + 2 →
      i ∉ boolPayloads p := by
    intro i hi hmem
    have hlt := (mem_boolPayloadsFrom hmem).1
    omega
  have hafter : ∀ i, 4 + 2 + 2 + (p.functions.map functionSize).sum + 2 + parts.flatten.length ≤ i →
      i ∉ boolPayloads p := by
    intro i hi hmem
    have hlt := (mem_boolPayloadsFrom hmem).2
    omega
  -- the functions, the count of the constants, the constants and the rest, one by one: only the
  -- constants hold a payload
  simp only [List.mapIdx_append, length_littleEndianBytes]
  congr 1
  · exact (mapIdx_truthByte_eq_self fun i hi => hbefore _ (by omega)).symm
  congr 1
  · have hshift : (fun i => truthByte (boolPayloads p) (6 + (i + fs.length))) =
        fun i => truthByte (boolPayloads p) (6 + fs.length + i) := by
      funext i
      congr 1
      omega
    rw [hshift]
    refine (mapIdx_truthByte_eq_self fun i hi => hbefore _ ?_).symm
    rw [length_littleEndianBytes] at hi
    omega
  congr 1
  · rw [hflat]
    congr 1
    funext i
    congr 1
    omega
  · have hshift : (fun i => truthByte (boolPayloads p) (6 + (i + parts.flatten.length + 2 + fs.length))) =
        fun i => truthByte (boolPayloads p) (8 + fs.length + parts.flatten.length + i) := by
      funext i
      congr 1
      omega
    rw [hshift]
    exact (mapIdx_truthByte_eq_self fun i hi => hafter _ (by omega)).symm

/-- Bytes that decode to a program are the binary form of that program, but for the two bytes of the
version and the payloads of truth values, where any byte but zero becomes one. -/
theorem binary_encode_undoes_decode {d : Text} {p : Program} (h : decode d = .ok p) :
    ∃ e, encode p = .ok e ∧ e.length = d.length ∧
      (e.drop 4).take 2 = littleEndianBytes 2 version.toNat ∧
      ∀ i, i ≠ 4 → i ≠ 5 → e[i]? = d[i]?.map (truthByte (boolPayloads p) i) := by
  obtain ⟨v, fs, _, ss, hv, hf, ⟨hcount, parts, hforms, rfl⟩, hs, rfl⟩ := decode_eq_ok_iff.mp h
  obtain ⟨hlength, parts', hforms', hflat⟩ := encodeConstants_of_forms hforms
    (4 + 2 + 2 + (p.functions.map functionSize).sum + 2)
  have htables := rewritten_tables ss hf hlength hflat
  have hfs : Table (fun f t => encodeFunction f = .ok t) p.functions fs :=
    hf.imp fun f t hform => hform.1
  have hmark : magic.length = 4 := rfl
  refine ⟨_, encode_eq_ok_iff.mpr ⟨fs, _, ss, hfs, ⟨hcount, parts', hforms', rfl⟩, hs, rfl⟩,
    ?_, ?_, ?_⟩
  · simp only [List.append_assoc, List.length_append, length_littleEndianBytes, hflat,
      List.length_mapIdx]
  · simp only [List.append_assoc]
    rw [← hmark, List.drop_left]
    exact List.take_left' (length_littleEndianBytes 2 _)
  · intro i h4 h5
    simp only [List.append_assoc]
    rw [htables]
    by_cases hi : i < 4
    · rw [List.getElem?_append_left (by omega), List.getElem?_append_left (by omega)]
      have hmem : i ∉ boolPayloads p := by
        intro hmem
        have hlt := (mem_boolPayloadsFrom hmem).1
        omega
      have hid : truthByte (boolPayloads p) i = id := by
        funext b
        exact truthByte_of_not_mem hmem b
      rw [hid, Option.map_id_fun, id]
    · have hsplit : i = 4 + (2 + (i - 6)) := by omega
      rw [List.getElem?_append_right (by omega), List.getElem?_append_right (by simp; omega),
        List.getElem?_append_right (by omega), List.getElem?_append_right (by simp; omega),
        List.getElem?_mapIdx]
      simp only [length_littleEndianBytes, hmark]
      have hback : 6 + (i - 4 - 2) = i := by omega
      rw [hback]

/-- A program of an older version that spells true as seven. -/
def looseBytes : Text := magic ++ [0, 0] ++ [0, 0] ++ [1, 0, 1, 7] ++ [0, 0]

theorem looseBytes_rewritten : decode looseBytes = .ok { constants := [.bool true] } ∧
    ∃ e, encode { constants := [.bool true] } = .ok e ∧ e.length = 14 ∧
      looseBytes[11]? = some 7 ∧ e[11]? = some 1 := by
  have h : decode looseBytes = .ok { constants := [.bool true] } := by decide
  obtain ⟨e, he, hlength, -, hbytes⟩ := binary_encode_undoes_decode h
  refine ⟨h, e, he, hlength, rfl, ?_⟩
  rw [hbytes 11 (by decide) (by decide)]
  rfl

end StackCode.Proofs
