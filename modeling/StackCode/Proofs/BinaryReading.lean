import StackCode.Program.Binary
import StackCode.Proofs.Fallible
import StackCode.Proofs.NumberBytes

/-!
# Reading the binary form

Every reader of the binary form is told by the bytes that it accepts. A program is read from a mark, a
version and three tables, one right after the other, and written in the same way.
-/

namespace StackCode.Proofs

open Text Program Program.Binary

/-! ### Reading bytes and numbers -/

/-- The bytes `t` stand between two inputs. -/
def Between (i : Input) (t : Text) (i' : Input) : Prop :=
  i.rest = t ++ i'.rest ∧ i'.position = i.position + t.length

lemma Between.nil {i i' : Input} : Between i [] i' ↔ i' = i := by
  constructor
  · rintro ⟨hrest, hpos⟩
    cases i
    cases i'
    simp_all
  · rintro rfl
    exact ⟨rfl, rfl⟩

lemma between_append {i i' : Input} {t u : Text} :
    Between i (t ++ u) i' ↔ ∃ j, Between i t j ∧ Between j u i' := by
  constructor
  · rintro ⟨hrest, hpos⟩
    refine ⟨⟨u ++ i'.rest, i.position + t.length⟩, ⟨?_, rfl⟩, rfl, ?_⟩
    · rw [hrest, List.append_assoc]
    · rw [hpos, List.length_append, Nat.add_assoc]
  · rintro ⟨j, ⟨hrest, hpos⟩, hrest', hpos'⟩
    refine ⟨?_, ?_⟩
    · rw [hrest, hrest', List.append_assoc]
    · rw [hpos', hpos, List.length_append, Nat.add_assoc]

lemma between_cons {i i' : Input} {b : UInt8} {t : Text} :
    Between i (b :: t) i' ↔ ∃ j, Between i [b] j ∧ Between j t i' :=
  between_append (t := [b])

lemma bytes_eq_ok_iff {n : Nat} {what t : Text} {i i' : Input} :
    bytes n what i = .ok (t, i') ↔ t.length = n ∧ Between i t i' := by
  unfold bytes Between
  cases hcut : takeExact? n i.rest with
  | none =>
    simp only [reduceCtorEq, false_iff]
    rintro ⟨hlen, hrest, -⟩
    rw [takeExact?_eq_some_iff.mpr ⟨hrest, hlen⟩] at hcut
    cases hcut
  | some cut =>
    obtain ⟨front, rest⟩ := cut
    obtain ⟨hrest, hlen⟩ := takeExact?_eq_some_iff.mp hcut
    simp only [Except.ok.injEq, Prod.mk.injEq]
    constructor
    · rintro ⟨rfl, rfl⟩
      exact ⟨hlen, hrest, by rw [hlen]⟩
    · rintro ⟨ht, hrest', hpos⟩
      obtain ⟨hfront, htail⟩ := List.append_inj (hrest.symm.trans hrest') (hlen.trans ht.symm)
      cases i'
      simp_all

lemma readNumber_eq_ok_iff {width n : Nat} {what : Text} {i i' : Input} :
    readNumber width what i = .ok (n, i') ↔
      n < 256 ^ width ∧ Between i (littleEndianBytes width n) i' := by
  unfold readNumber
  rw [bind_eq_ok_iff]
  constructor
  · rintro ⟨⟨front, j⟩, hfront, hdone⟩
    cases hdone
    obtain ⟨rfl, hbetween⟩ := bytes_eq_ok_iff.mp hfront
    exact ⟨littleEndian_lt front, by rwa [littleEndianBytes_littleEndian]⟩
  · rintro ⟨hn, hbetween⟩
    refine ⟨(littleEndianBytes width n, i'), bytes_eq_ok_iff.mpr ⟨by simp, hbetween⟩, ?_⟩
    simp only [littleEndian_littleEndianBytes hn]
    rfl

lemma number_eq_ok_iff {width n : Nat} {e : EncodeError} {t : Text} :
    number width n e = .ok t ↔ n < 256 ^ width ∧ t = littleEndianBytes width n := by
  unfold number
  have hpow : Nat.pow 256 width = 256 ^ width := rfl
  rw [hpow]
  split_ifs with hn
  · simp [hn, eq_comm]
  · simp [hn]

/-! ### The parts of a program -/

lemma encodeFunction_eq_ok_iff {f : Routine} {t : Text} :
    encodeFunction f = .ok t ↔ f.name.length < 256 ^ 2 ∧ f.bytes.size < 256 ^ 4 ∧
      t = littleEndianBytes 2 f.name.length ++ f.name ++ littleEndianBytes 2 f.locals.toNat ++
        littleEndianBytes 2 f.params.toNat ++ littleEndianBytes 4 f.bytes.size ++
        f.bytes.toList := by
  unfold encodeFunction
  simp only [bind_eq_ok_iff, number_eq_ok_iff]
  constructor
  · rintro ⟨_, ⟨hname, rfl⟩, _, ⟨hcode, rfl⟩, hdone⟩
    cases hdone
    exact ⟨hname, hcode, rfl⟩
  · rintro ⟨hname, hcode, rfl⟩
    exact ⟨_, ⟨hname, rfl⟩, _, ⟨hcode, rfl⟩, rfl⟩

lemma encodeSymbol_eq_ok_iff {s t : Text} :
    encodeSymbol s = .ok t ↔ s.length < 256 ^ 2 ∧ t = littleEndianBytes 2 s.length ++ s := by
  unfold encodeSymbol
  simp only [bind_eq_ok_iff, number_eq_ok_iff]
  constructor
  · rintro ⟨_, ⟨hlen, rfl⟩, hdone⟩
    cases hdone
    exact ⟨hlen, rfl⟩
  · rintro ⟨hlen, rfl⟩
    exact ⟨_, ⟨hlen, rfl⟩, rfl⟩

lemma encodeStr_eq_ok_iff {s t : Text} :
    encodeConstant (.str s) = .ok t ↔
      s.length < 256 ^ 4 ∧ t = 4 :: (littleEndianBytes 4 s.length ++ s) := by
  unfold encodeConstant
  simp only [bind_eq_ok_iff, number_eq_ok_iff]
  constructor
  · rintro ⟨_, ⟨hlen, rfl⟩, hdone⟩
    cases hdone
    exact ⟨hlen, rfl⟩
  · rintro ⟨hlen, rfl⟩
    exact ⟨_, ⟨hlen, rfl⟩, rfl⟩

/-- Bytes that are read as a function. -/
def FunctionForm (f : Routine) (t : Text) : Prop :=
  encodeFunction f = .ok t ∧ f.code ≠ some #[]

/-- Bytes that are read as a constant: any byte but zero stands for true. -/
def ConstantForm : Value → Text → Prop
  | .bool b, t => ∃ x : UInt8, t = [1, x] ∧ b = (x != 0)
  | v, t => encodeConstant v = .ok t

/-- Bytes that are read as a symbol. -/
def SymbolForm (s : Text) (t : Text) : Prop := encodeSymbol s = .ok t

lemma toList_getD_stored (code : Text) :
    ((if code.isEmpty then none else some code.toArray : Option Code).getD #[]).toList = code := by
  cases code <;> rfl

lemma readFunction_eq_ok_iff {f : Routine} {i i' : Input} :
    readFunction i = .ok (f, i') ↔ ∃ t, FunctionForm f t ∧ Between i t i' := by
  unfold readFunction FunctionForm
  simp only [bind_eq_ok_iff, Prod.exists, readNumber_eq_ok_iff, bytes_eq_ok_iff,
    encodeFunction_eq_ok_iff]
  constructor
  · rintro ⟨_, i₁, ⟨hname, h₁⟩, name, i₂, ⟨rfl, h₂⟩, locals, i₃, ⟨hlocals, h₃⟩, params, i₄,
      ⟨hparams, h₄⟩, _, i₅, ⟨hcode, h₅⟩, code, i₆, ⟨rfl, h₆⟩, hdone⟩
    cases hdone
    have hlist := toList_getD_stored code
    have hsize : ((if code.isEmpty then none else some code.toArray : Option Code).getD #[]).size =
        code.length := by rw [← Array.length_toList, hlist]
    have hlocals' : locals.toUInt16.toNat = locals := by
      rw [Nat.toUInt16, UInt16.toNat_ofNat']
      omega
    have hparams' : params.toUInt16.toNat = params := by
      rw [Nat.toUInt16, UInt16.toNat_ofNat']
      omega
    refine ⟨_, ⟨⟨hname, ?_, rfl⟩, ?_⟩, ?_⟩
    · simp only [Routine.bytes, hsize]
      exact hcode
    · cases code <;> simp
    · simp only [Routine.bytes, hsize, hlist, hlocals', hparams', between_append]
      exact ⟨i₅, ⟨i₄, ⟨i₃, ⟨i₂, ⟨i₁, h₁, h₂⟩, h₃⟩, h₄⟩, h₅⟩, h₆⟩
  · rintro ⟨_, ⟨⟨hname, hcode, rfl⟩, hsome⟩, hbetween⟩
    simp only [between_append] at hbetween
    obtain ⟨i₅, ⟨i₄, ⟨i₃, ⟨i₂, ⟨i₁, h₁, h₂⟩, h₃⟩, h₄⟩, h₅⟩, h₆⟩ := hbetween
    refine ⟨_, i₁, ⟨hname, h₁⟩, f.name, i₂, ⟨rfl, h₂⟩, _, i₃, ⟨f.locals.toNat_lt, h₃⟩, _, i₄,
      ⟨f.params.toNat_lt, h₄⟩, _, i₅, ⟨hcode, h₅⟩, f.bytes.toList, i', ⟨by simp, h₆⟩, ?_⟩
    obtain ⟨name, code, locals, params⟩ := f
    have hlocals : locals.toNat.toUInt16 = locals := UInt16.ofNat_toNat
    have hparams : params.toNat.toUInt16 = params := UInt16.ofNat_toNat
    cases code with
    | none => simp [Routine.bytes, hlocals, hparams, pure, Except.pure]
    | some code =>
      have hne : code ≠ #[] := fun he => hsome (by rw [he])
      simp [Routine.bytes, hlocals, hparams, hne, pure, Except.pure]

lemma readSymbol_eq_ok_iff {s : Text} {i i' : Input} :
    readSymbol i = .ok (s, i') ↔ ∃ t, SymbolForm s t ∧ Between i t i' := by
  unfold readSymbol SymbolForm
  simp only [bind_eq_ok_iff, Prod.exists, readNumber_eq_ok_iff, bytes_eq_ok_iff,
    encodeSymbol_eq_ok_iff]
  constructor
  · rintro ⟨_, i₁, ⟨hlen, h₁⟩, rfl, h₂⟩
    exact ⟨_, ⟨hlen, rfl⟩, between_append.mpr ⟨i₁, h₁, h₂⟩⟩
  · rintro ⟨_, ⟨hlen, rfl⟩, hbetween⟩
    obtain ⟨i₁, h₁, h₂⟩ := between_append.mp hbetween
    exact ⟨_, i₁, ⟨hlen, h₁⟩, rfl, h₂⟩

lemma readByte_eq_ok_iff {n : Nat} {what : Text} {i i' : Input} :
    readNumber 1 what i = .ok (n, i') ↔ ∃ b : UInt8, n = b.toNat ∧ Between i [b] i' := by
  rw [readNumber_eq_ok_iff]
  constructor
  · rintro ⟨hn, hbetween⟩
    refine ⟨n.toUInt8, ?_, hbetween⟩
    rw [Nat.toUInt8, UInt8.toNat_ofNat']
    omega
  · rintro ⟨b, rfl, hbetween⟩
    have hbytes : littleEndianBytes 1 b.toNat = [b] := by
      rw [littleEndianBytes, littleEndianBytes, Nat.toUInt8, UInt8.ofNat_toNat]
    exact ⟨b.toNat_lt, by rwa [hbytes]⟩

lemma ofTag?_eq_some_iff {b : UInt8} {k : Value.Kind} :
    Value.Kind.ofTag? b = some k ↔ b = k.tag := by
  constructor
  · intro h
    apply UInt8.toNat_inj.mp
    unfold Value.Kind.ofTag? at h
    split at h <;> cases h <;> assumption
  · rintro rfl
    cases k <;> rfl

lemma readConstant_eq_ok_iff {k : Nat} {v : Value} {i i' : Input} :
    readConstant k i = .ok (v, i') ↔ ∃ t, ConstantForm v t ∧ Between i t i' := by
  unfold readConstant
  simp only [bind_eq_ok_iff, Prod.exists, readByte_eq_ok_iff]
  constructor
  · rintro ⟨_, i₁, ⟨tag, rfl, h₁⟩, hrest⟩
    have htag : tag.toNat.toUInt8 = tag := UInt8.ofNat_toNat
    rw [htag] at hrest
    cases hkind : Value.Kind.ofTag? tag with
    | none => simp [hkind] at hrest
    | some kind =>
      rw [hkind] at hrest
      rw [ofTag?_eq_some_iff] at hkind
      subst hkind
      cases kind with
      | null =>
        cases hrest
        exact ⟨[0], rfl, h₁⟩
      | bool =>
        simp only [bind_eq_ok_iff, Prod.exists, readByte_eq_ok_iff] at hrest
        obtain ⟨_, i₂, ⟨x, rfl, h₂⟩, hdone⟩ := hrest
        cases hdone
        refine ⟨[1, x], ⟨x, rfl, ?_⟩, between_cons.mpr ⟨i₁, h₁, h₂⟩⟩
        rw [Bool.eq_iff_iff]
        simp [← UInt8.toNat_inj]
      | int =>
        simp only [bind_eq_ok_iff, Prod.exists, readNumber_eq_ok_iff] at hrest
        obtain ⟨n, i₂, ⟨hn, h₂⟩, hdone⟩ := hrest
        cases hdone
        have hback : n.toUInt64.toInt64.toUInt64.toNat = n := by
          rw [UInt64.toUInt64_toInt64, Nat.toUInt64, UInt64.toNat_ofNat']
          omega
        refine ⟨_, rfl, between_cons.mpr ⟨i₁, h₁, ?_⟩⟩
        rwa [hback]
      | float =>
        simp only [bind_eq_ok_iff, Prod.exists, readNumber_eq_ok_iff] at hrest
        obtain ⟨n, i₂, ⟨hn, h₂⟩, hdone⟩ := hrest
        cases hdone
        have hback : n.toUInt64.toNat = n := by
          rw [Nat.toUInt64, UInt64.toNat_ofNat']
          omega
        refine ⟨_, rfl, between_cons.mpr ⟨i₁, h₁, ?_⟩⟩
        rwa [hback]
      | str =>
        simp only [bind_eq_ok_iff, Prod.exists, readNumber_eq_ok_iff, bytes_eq_ok_iff] at hrest
        obtain ⟨_, i₂, ⟨hn, h₂⟩, s, i₃, ⟨rfl, h₃⟩, hdone⟩ := hrest
        cases hdone
        refine ⟨_, encodeStr_eq_ok_iff.mpr ⟨hn, rfl⟩, between_cons.mpr ⟨i₁, h₁, ?_⟩⟩
        exact between_append.mpr ⟨i₂, h₂, h₃⟩
  · rintro ⟨t, hform, hbetween⟩
    cases v with
    | null =>
      cases hform
      exact ⟨0, i', ⟨0, rfl, hbetween⟩, rfl⟩
    | bool b =>
      obtain ⟨x, rfl, rfl⟩ := hform
      obtain ⟨i₁, h₁, h₂⟩ := between_cons.mp hbetween
      refine ⟨1, i₁, ⟨1, rfl, h₁⟩, bind_eq_ok_iff.mpr ⟨(x.toNat, i'), ?_, ?_⟩⟩
      · exact readByte_eq_ok_iff.mpr ⟨x, rfl, h₂⟩
      · simp [pure, Except.pure, bne, ← UInt8.toNat_inj]
    | int n =>
      cases hform
      obtain ⟨i₁, h₁, h₂⟩ := between_cons.mp hbetween
      refine ⟨2, i₁, ⟨2, rfl, h₁⟩, bind_eq_ok_iff.mpr ⟨(n.toUInt64.toNat, i'), ?_, ?_⟩⟩
      · exact readNumber_eq_ok_iff.mpr ⟨n.toUInt64.toNat_lt, h₂⟩
      · simp [pure, Except.pure]
    | float x =>
      cases hform
      obtain ⟨i₁, h₁, h₂⟩ := between_cons.mp hbetween
      refine ⟨3, i₁, ⟨3, rfl, h₁⟩, bind_eq_ok_iff.mpr ⟨(x.bits.toNat, i'), ?_, ?_⟩⟩
      · exact readNumber_eq_ok_iff.mpr ⟨x.bits.toNat_lt, h₂⟩
      · simp [pure, Except.pure]
    | str s =>
      obtain ⟨hn, rfl⟩ := encodeStr_eq_ok_iff.mp hform
      obtain ⟨i₁, h₁, h₂⟩ := between_cons.mp hbetween
      obtain ⟨i₂, h₂, h₃⟩ := between_append.mp h₂
      refine ⟨4, i₁, ⟨4, rfl, h₁⟩, bind_eq_ok_iff.mpr ⟨(s.length, i₂), ?_, ?_⟩⟩
      · exact readNumber_eq_ok_iff.mpr ⟨hn, h₂⟩
      · exact bind_eq_ok_iff.mpr ⟨(s, i'), bytes_eq_ok_iff.mpr ⟨rfl, h₃⟩, rfl⟩

/-! ### Tables -/

/-- Bytes of a table: the number of elements, then the bytes of each. -/
def Table {α : Type} (form : α → Text → Prop) (xs : List α) (t : Text) : Prop :=
  xs.length < 256 ^ 2 ∧
    ∃ parts, List.Forall₂ form xs parts ∧ t = littleEndianBytes 2 xs.length ++ parts.flatten

lemma readMany_eq_ok_iff {α : Type} {step : Nat → Reader α} {form : α → Text → Prop}
    (hstep : ∀ {k a i i'}, step k i = .ok (a, i') ↔ ∃ t, form a t ∧ Between i t i')
    {k n : Nat} {acc as : List α} {i i' : Input} :
    readMany step k n acc i = .ok (as, i') ↔
      ∃ xs parts, as = acc.reverse ++ xs ∧ xs.length = n ∧ List.Forall₂ form xs parts ∧
        Between i parts.flatten i' := by
  induction n generalizing k acc i with
  | zero =>
    simp only [readMany, Except.ok.injEq, Prod.mk.injEq]
    constructor
    · rintro ⟨rfl, rfl⟩
      exact ⟨[], [], by simp, rfl, .nil, Between.nil.mpr rfl⟩
    · rintro ⟨xs, parts, rfl, hlen, hforms, hbetween⟩
      obtain rfl := List.length_eq_zero_iff.mp hlen
      obtain rfl := List.forall₂_nil_left_iff.mp hforms
      exact ⟨by simp, (Between.nil.mp hbetween).symm⟩
  | succ n ih =>
    rw [readMany]
    constructor
    · intro h
      cases ha : step k i with
      | error e => simp [ha] at h
      | ok result =>
        obtain ⟨a, j⟩ := result
        simp only [ha] at h
        obtain ⟨t, hform, hbetween⟩ := hstep.mp ha
        obtain ⟨xs, parts, rfl, rfl, hforms, hrest⟩ := ih.mp h
        refine ⟨a :: xs, t :: parts, by simp, rfl, .cons hform hforms, ?_⟩
        exact between_append.mpr ⟨j, hbetween, hrest⟩
    · rintro ⟨xs, parts, rfl, hlen, hforms, hbetween⟩
      obtain ⟨a, xs, rfl⟩ := List.exists_cons_of_length_eq_add_one hlen
      obtain ⟨t, parts, hform, htail, rfl⟩ := List.forall₂_cons_left_iff.mp hforms
      obtain ⟨j, hfirst, hrest⟩ := between_append.mp hbetween
      simp only [hstep.mpr ⟨t, hform, hfirst⟩]
      apply ih.mpr
      exact ⟨xs, parts, by simp, by simpa using hlen, htail, hrest⟩

lemma readList_eq_ok_iff {α : Type} {what : Text} {step : Nat → Reader α}
    {form : α → Text → Prop}
    (hstep : ∀ {k a i i'}, step k i = .ok (a, i') ↔ ∃ t, form a t ∧ Between i t i')
    {as : List α} {i i' : Input} :
    readList what step i = .ok (as, i') ↔ ∃ t, Table form as t ∧ Between i t i' := by
  unfold readList Table
  simp only [bind_eq_ok_iff, Prod.exists, readNumber_eq_ok_iff, readMany_eq_ok_iff hstep,
    List.reverse_nil, List.nil_append]
  constructor
  · rintro ⟨_, j, ⟨hn, hcount⟩, _, parts, rfl, rfl, hforms, hparts⟩
    exact ⟨_, ⟨hn, parts, hforms, rfl⟩, between_append.mpr ⟨j, hcount, hparts⟩⟩
  · rintro ⟨_, ⟨hn, parts, hforms, rfl⟩, hbetween⟩
    obtain ⟨j, hcount, hparts⟩ := between_append.mp hbetween
    exact ⟨_, j, ⟨hn, hcount⟩, as, parts, rfl, rfl, hforms, hparts⟩

lemma Table.imp {α : Type} {form form' : α → Text → Prop} {xs : List α} {t : Text}
    (h : Table form xs t) (hform : ∀ a u, form a u → form' a u) : Table form' xs t := by
  obtain ⟨hlen, parts, hforms, rfl⟩ := h
  exact ⟨hlen, parts, hforms.imp hform, rfl⟩

lemma Table.map {α β : Type} {form : β → Text → Prop} {f : α → β} {xs : List α} {t : Text}
    (h : Table (fun a => form (f a)) xs t) : Table form (xs.map f) t := by
  obtain ⟨hlen, parts, hforms, rfl⟩ := h
  refine ⟨by simpa using hlen, parts, ?_, by simp⟩
  rwa [List.forall₂_map_left_iff]

lemma Table.two_le {α : Type} {form : α → Text → Prop} {xs : List α} {t : Text}
    (h : Table form xs t) : 2 ≤ t.length := by
  obtain ⟨-, parts, -, rfl⟩ := h
  rw [List.length_append, length_littleEndianBytes]
  omega

/-! ### Whole programs -/

/-- Decoding accepts a mark, a version that is known, and three tables, with nothing between or after
them. -/
theorem decode_eq_ok_iff {data : Text} {p : Program} :
    decode data = .ok p ↔ ∃ v functions constants symbols, v ≤ version.toNat ∧
      Table FunctionForm p.functions functions ∧ Table ConstantForm p.constants constants ∧
      Table SymbolForm p.symbols symbols ∧
      data = magic ++ littleEndianBytes 2 v ++ functions ++ constants ++ symbols := by
  have hmark : magic.length = 4 := rfl
  unfold decode
  constructor
  · intro h
    split_ifs at h with hshort hmagic
    simp only [Bool.not_eq_true, Bool.not_eq_false', isBinary, List.isPrefixOf_iff_prefix] at hmagic
    obtain ⟨rest, rfl⟩ := hmagic
    obtain ⟨⟨v, i₀⟩, hv, h⟩ := bind_eq_ok_iff.mp h
    obtain ⟨-, h₀⟩ := readNumber_eq_ok_iff.mp hv
    simp only at h
    split_ifs at h with hnew
    obtain ⟨⟨functions, i₁⟩, hf, h⟩ := bind_eq_ok_iff.mp h
    obtain ⟨⟨constants, i₂⟩, hc, h⟩ := bind_eq_ok_iff.mp h
    obtain ⟨⟨symbols, i₃⟩, hs, h⟩ := bind_eq_ok_iff.mp h
    simp only at h
    split_ifs at h with hempty
    cases h
    obtain ⟨fs, hfs, h₁⟩ := (readList_eq_ok_iff readFunction_eq_ok_iff).mp hf
    obtain ⟨cs, hcs, h₂⟩ := (readList_eq_ok_iff readConstant_eq_ok_iff).mp hc
    obtain ⟨ss, hss, h₃⟩ := (readList_eq_ok_iff readSymbol_eq_ok_iff).mp hs
    refine ⟨v, fs, cs, ss, by omega, hfs, hcs, hss, ?_⟩
    have hrest : rest = littleEndianBytes 2 v ++ i₀.rest := by
      rw [← h₀.1, ← hmark, List.drop_left]
    have hend : i₃.rest = [] := by simpa using hempty
    rw [hrest, h₁.1, h₂.1, h₃.1, hend]
    simp only [List.append_assoc, List.append_nil]
  · rintro ⟨v, fs, cs, ss, hv, hfs, hcs, hss, rfl⟩
    have hlong := hfs.two_le
    have hbetween : Between ⟨littleEndianBytes 2 v ++ fs ++ cs ++ ss, 4⟩
        (littleEndianBytes 2 v ++ fs ++ cs ++ ss)
        ⟨[], 4 + (littleEndianBytes 2 v ++ fs ++ cs ++ ss).length⟩ := ⟨by simp, rfl⟩
    simp only [between_append] at hbetween
    obtain ⟨i₂, ⟨i₁, ⟨i₀, h₀, h₁⟩, h₂⟩, h₃⟩ := hbetween
    have hmagic : isBinary (magic ++ (littleEndianBytes 2 v ++ fs ++ cs ++ ss)) := by
      rw [isBinary, List.isPrefixOf_iff_prefix]
      exact List.prefix_append _ _
    have hdrop : (magic ++ (littleEndianBytes 2 v ++ fs ++ cs ++ ss)).drop 4 =
        littleEndianBytes 2 v ++ fs ++ cs ++ ss := by rw [← hmark, List.drop_left]
    have hone : version.toNat = 1 := rfl
    simp only [List.append_assoc] at hmagic hdrop h₀ ⊢
    rw [if_neg (by simp; omega), if_neg (by simp [hmagic]), hdrop]
    refine bind_eq_ok_iff.mpr ⟨(v, i₀), readNumber_eq_ok_iff.mpr ⟨by omega, h₀⟩, ?_⟩
    simp only [if_neg (Nat.not_lt.mpr hv)]
    refine bind_eq_ok_iff.mpr ⟨(p.functions, i₁),
      (readList_eq_ok_iff readFunction_eq_ok_iff).mpr ⟨fs, hfs, h₁⟩, ?_⟩
    refine bind_eq_ok_iff.mpr ⟨(p.constants, i₂),
      (readList_eq_ok_iff readConstant_eq_ok_iff).mpr ⟨cs, hcs, h₂⟩, ?_⟩
    exact bind_eq_ok_iff.mpr ⟨(p.symbols, _),
      (readList_eq_ok_iff readSymbol_eq_ok_iff).mpr ⟨ss, hss, h₃⟩, rfl⟩

lemma concatM_eq_ok_iff {α : Type} {f : α → Except EncodeError Text} {xs : List α} {t : Text} :
    concatM f xs = .ok t ↔
      ∃ parts, List.Forall₂ (fun x u => f x = .ok u) xs parts ∧ t = parts.flatten := by
  unfold concatM
  cases hparts : xs.mapM f with
  | error e =>
    simp only [Except.map, reduceCtorEq, false_iff]
    rintro ⟨parts, hforms, -⟩
    rw [mapM_eq_ok_iff.mpr hforms] at hparts
    cases hparts
  | ok parts =>
    have hforms := mapM_eq_ok_iff.mp hparts
    simp only [Except.map, Except.ok.injEq]
    constructor
    · rintro rfl
      exact ⟨parts, hforms, rfl⟩
    · rintro ⟨parts', hforms', rfl⟩
      rw [mapM_eq_ok_iff.mpr hforms'] at hparts
      cases hparts
      rfl

/-- Encoding writes the mark, the version and three tables. -/
theorem encode_eq_ok_iff {p : Program} {data : Text} :
    encode p = .ok data ↔ ∃ functions constants symbols,
      Table (fun f t => encodeFunction f = .ok t) p.functions functions ∧
      Table (fun v t => encodeConstant v = .ok t) p.constants constants ∧
      Table SymbolForm p.symbols symbols ∧
      data = magic ++ littleEndianBytes 2 version.toNat ++ functions ++ constants ++ symbols := by
  unfold encode Table
  simp only [bind_eq_ok_iff, number_eq_ok_iff, concatM_eq_ok_iff]
  constructor
  · rintro ⟨_, ⟨hf, rfl⟩, _, ⟨fs, hfs, rfl⟩, _, ⟨hc, rfl⟩, _, ⟨cs, hcs, rfl⟩, _, ⟨hs, rfl⟩, _,
      ⟨ss, hss, rfl⟩, hdone⟩
    cases hdone
    refine ⟨_, _, _, ⟨hf, fs, hfs, rfl⟩, ⟨hc, cs, hcs, rfl⟩, ⟨hs, ss, hss, rfl⟩, ?_⟩
    simp only [List.append_assoc]
  · rintro ⟨_, _, _, ⟨hf, fs, hfs, rfl⟩, ⟨hc, cs, hcs, rfl⟩, ⟨hs, ss, hss, rfl⟩, rfl⟩
    refine ⟨_, ⟨hf, rfl⟩, _, ⟨fs, hfs, rfl⟩, _, ⟨hc, rfl⟩, _, ⟨cs, hcs, rfl⟩, _, ⟨hs, rfl⟩, _,
      ⟨ss, hss, rfl⟩, ?_⟩
    simp only [List.append_assoc]
    rfl

end StackCode.Proofs
