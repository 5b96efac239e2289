import Mathlib
import StackCode.Proofs.DecimalText

/-!
# Floating-point numbers in text

The text of a number is read back as that number, bit for bit. Only a NaN with another payload than
the literal's is not told apart by its text.
-/

namespace StackCode.Proofs

open Text Binary64

/-! ### Bit patterns -/

lemma exponentBits_eq (x : Binary64) : x.exponentBits = x.bits.toNat / 2 ^ 52 % 2 ^ 11 := by
  have hmask : (0x7FF : UInt64).toNat = 2 ^ 11 - 1 := rfl
  have hshift : (52 : UInt64).toNat % 64 = 52 := rfl
  rw [exponentBits, UInt64.toNat_and, UInt64.toNat_shiftRight, hmask, hshift,
    Nat.and_two_pow_sub_one_eq_mod, Nat.shiftRight_eq_div_pow]

lemma fractionBits_eq (x : Binary64) : x.fractionBits = x.bits.toNat % 2 ^ 52 := by
  have hmask : (0xFFFFFFFFFFFFF : UInt64).toNat = 2 ^ 52 - 1 := rfl
  rw [fractionBits, UInt64.toNat_and, hmask, Nat.and_two_pow_sub_one_eq_mod]

lemma isNegative_eq (x : Binary64) : x.isNegative = decide (2 ^ 63 ≤ x.bits.toNat) := by
  have hlt := x.bits.toNat_lt
  have hshift : (63 : UInt64).toNat % 64 = 63 := rfl
  have hone : (1 : UInt64).toNat = 1 := rfl
  rw [isNegative, Bool.eq_iff_iff, beq_iff_eq, decide_eq_true_iff, ← UInt64.toNat_inj,
    UInt64.toNat_shiftRight, hshift, hone, Nat.shiftRight_eq_div_pow]
  omega

/-- The sign, exponent and fraction make up the bits of a number. -/
lemma bits_eq (x : Binary64) : x.bits.toNat =
    (if x.isNegative then 2 ^ 63 else 0) + x.exponentBits * 2 ^ 52 + x.fractionBits := by
  have hlt := x.bits.toNat_lt
  rw [isNegative_eq, exponentBits_eq, fractionBits_eq]
  simp only [decide_eq_true_iff]
  split_ifs with hneg <;> omega

lemma exponentBits_lt (x : Binary64) : x.exponentBits < 2 ^ 11 := by
  rw [exponentBits_eq]
  exact Nat.mod_lt _ (by norm_num)

lemma fractionBits_lt (x : Binary64) : x.fractionBits < 2 ^ 52 := by
  rw [fractionBits_eq]
  exact Nat.mod_lt _ (by norm_num)

lemma ext_toNat {x y : Binary64} (h : x.bits.toNat = y.bits.toNat) : x = y := by
  cases x
  cases y
  exact congrArg Binary64.mk (UInt64.toNat_inj.mp h)

/-- A sign bit on top of 63 bits. -/
lemma toNat_or_sign (negative : Bool) {size : Nat} (hlt : size < 2 ^ 63) :
    (size.toUInt64 ||| (if negative then 0x8000000000000000 else 0)).toNat =
      (if negative then 2 ^ 63 else 0) + size := by
  have hword : size.toUInt64.toNat = size := by
    rw [Nat.toUInt64, UInt64.toNat_ofNat']
    omega
  rw [UInt64.toNat_or, hword]
  cases negative with
  | false => simp
  | true =>
    have hor := Nat.two_pow_add_eq_or_of_lt hlt 1
    rw [mul_one] at hor
    rw [if_pos rfl, if_pos rfl, hor, Nat.or_comm]
    rfl

lemma bits_compose (negative : Bool) (m e : Nat) : (compose negative m e).bits =
    (if m < Nat.pow 2 52 then m else e * Nat.pow 2 52 + m).toUInt64 |||
      (if negative then 0x8000000000000000 else 0) := rfl

/-- A finite number is made up of its own sign, significand and exponent. -/
lemma compose_decompose (x : Binary64) :
    compose x.isNegative x.decompose.1 (x.decompose.2 + 1074).toNat = x := by
  have hexponent := exponentBits_lt x
  have hfraction := fractionBits_lt x
  have hpow : Nat.pow 2 52 = 2 ^ 52 := rfl
  apply ext_toNat
  rw [bits_eq x]
  by_cases hzero : x.exponentBits = 0
  · have hparts : x.decompose = (x.fractionBits, -1074) := by
      rw [decompose, if_pos (by simpa using hzero)]
    rw [hparts, bits_compose, if_pos (lt_of_lt_of_eq hfraction hpow.symm),
      toNat_or_sign _ (by omega), hzero]
    ring
  · have hparts : x.decompose = (x.fractionBits + 2 ^ 52, (x.exponentBits : Int) - 1075) := by
      rw [decompose, if_neg (by simpa using hzero), hpow]
    obtain ⟨k, hk⟩ : ∃ k, x.exponentBits = k + 1 := ⟨x.exponentBits - 1, by omega⟩
    have hplace : ((x.exponentBits : Int) - 1075 + 1074).toNat = k := by omega
    rw [hparts, bits_compose, hpow, if_neg (by omega), hplace, toNat_or_sign _ (by omega), hk]
    ring

/-- Significand and exponent of a finite number other than zero are in range. -/
lemma representable_decompose {x : Binary64} (hx : x.exponentBits ≠ 2047) (hzero : ¬x.isZero) :
    Representable x.decompose.1 x.decompose.2 := by
  have hexponent := exponentBits_lt x
  have hfraction := fractionBits_lt x
  have hpow : Nat.pow 2 52 = 2 ^ 52 := rfl
  have hbits : ¬(x.exponentBits = 0 ∧ x.fractionBits = 0) := by simpa [isZero] using hzero
  unfold decompose
  split_ifs with h
  · rw [beq_iff_eq] at h
    exact ⟨by dsimp only; omega, by dsimp only; omega, le_rfl, by norm_num, .inl rfl⟩
  · rw [beq_iff_eq] at h
    rw [hpow]
    exact ⟨by positivity, by dsimp only; omega, by dsimp only; omega, by dsimp only; omega,
      .inr (by dsimp only; omega)⟩

lemma not_isNaN_compose (negative : Bool) {m k : Nat} (hm : m < 2 ^ 53) (hk : k ≤ 2045) :
    (compose negative m k).isNaN = false := by
  have hpow : Nat.pow 2 52 = 2 ^ 52 := rfl
  have hsize : (if m < 2 ^ 52 then m else k * 2 ^ 52 + m) < 2047 * 2 ^ 52 := by split_ifs <;> omega
  have hbits : (compose negative m k).exponentBits ≠ 2047 := by
    rw [exponentBits_eq, bits_compose, hpow, toNat_or_sign _ (by omega)]
    generalize (if m < 2 ^ 52 then m else k * 2 ^ 52 + m) = size at hsize
    cases negative with
    | true =>
      rw [if_pos rfl]
      omega
    | false =>
      rw [if_neg (by simp)]
      omega
  simp [isNaN, hbits]

/-- Rounding a quotient never yields a NaN. -/
lemma not_isNaN_of_ofRatio? {negative : Bool} {num den : Nat} (hden : 0 < den) {x : Binary64}
    (h : ofRatio? negative num den = some x) : x.isNaN = false := by
  rcases Nat.eq_zero_or_pos num with rfl | hnum
  · rw [ofRatio?, if_pos rfl] at h
    cases h
    exact not_isNaN_compose negative (by norm_num) (by norm_num)
  · obtain ⟨e, hfits, heq⟩ := ofRatio?_of_fits negative hnum hden
    have hround := scaledRound_le hden hfits
    have hlow := hfits.low
    have hpow : Nat.pow 2 53 = 2 ^ 53 := rfl
    rw [heq, carried] at h
    split_ifs at h with hcarry hlarge hlarge
    · cases h
      exact not_isNaN_compose negative (by norm_num) (by omega)
    · cases h
      exact not_isNaN_compose negative (by omega) (by omega)

lemma not_isNaN_of_finite? {negative : Bool} {t : Text} {x : Binary64}
    (h : finite? negative t = some x) : x.isNaN = false := by
  have hscaled : ∀ {base value : Nat} {e : Int}, 0 < base →
      scaled? negative base value e = some x → x.isNaN = false := by
    intro base value e hbase hx
    unfold scaled? at hx
    dsimp only at hx
    split_ifs at hx
    · exact not_isNaN_of_ofRatio? one_pos hx
    · exact not_isNaN_of_ofRatio? (Nat.pow_pos hbase) hx
    · exact not_isNaN_of_ofRatio? one_pos hx
    · exact not_isNaN_of_ofRatio? (Nat.pow_pos hbase) hx
  unfold finite? at h
  extract_lets hex base mark at h
  split at h
  split_ifs at h
  all_goals
    extract_lets exponent at h
    clear_value exponent
    cases exponent with
    | none => cases h
    | some e => exact hscaled (by norm_num) h

/-- Of the NaNs, only one has a literal. -/
lemma eq_nan_of_literal? {t : Text} {x : Binary64} (h : literal? t = some x) (hx : x.isNaN) :
    x = nan := by
  unfold literal? at h
  split at h
  extract_lets name at h
  split_ifs at h with hinf hnan hseparator
  · cases h
    exact absurd hx (by rename_i negative _ _; cases negative <;> decide)
  · cases h
    rfl
  · rw [not_isNaN_of_finite? h] at hx
    cases hx

/-! ### The text of a number -/

/-- The text of a finite number spells the decimal that was chosen for it. -/
lemma shortest_text_spells {m : Nat} {q : Int} (hr : Representable m q) :
    SpellsDecimal (shortest m q).text ((shortest m q).digits * 10 ^ (shortest m q).exponent) := by
  have hrounds := shortest_roundsTo hr
  generalize shortest m q = d at *
  have hpositive := hrounds.pos hr
  have hlow := hr.low
  have hhigh := hr.high
  have hdigits : 0 < d.digits := by
    rcases Nat.eq_zero_or_pos d.digits with hzero | hpos
    · rw [hzero] at hpositive
      simp at hpositive
    · exact hpos
  apply decimal_text_spells hdigits
  obtain ⟨hfrom, hto⟩ := length_ofNat_bounds hdigits
  have hlength : 0 < (Text.ofNat d.digits).length := List.length_pos_iff.mpr (ofNat_ne_nil _)
  generalize (Text.ofNat d.digits).length = k at *
  -- the number lies between the powers of ten that its digits tell
  have hlower : (10 : ℚ) ^ ((k : Int) - 1 + d.exponent) ≤ d.digits * 10 ^ d.exponent := by
    rw [ten_zpow_add, show (k : Int) - 1 = ((k - 1 : Nat) : Int) by omega, zpow_natCast]
    exact mul_le_mul_of_nonneg_right (by exact_mod_cast hfrom) (by positivity)
  have hupper : (d.digits : ℚ) * 10 ^ d.exponent < 10 ^ ((k : Int) + d.exponent) := by
    rw [ten_zpow_add, zpow_natCast]
    exact mul_lt_mul_of_pos_right (by exact_mod_cast hto) (by positivity)
  have hnotLarge : (k : Int) - 1 + d.exponent < 1100 := by
    by_contra hlarge
    have hpow : (2 : ℚ) ^ (1100 : Int) ≤ 10 ^ ((k : Int) - 1 + d.exponent) :=
      calc (2 : ℚ) ^ (1100 : Int) ≤ 2 ^ ((k : Int) - 1 + d.exponent) :=
            zpow_le_zpow_right₀ (by norm_num) (by omega)
        _ ≤ 10 ^ ((k : Int) - 1 + d.exponent) :=
            zpow_le_zpow_left₀ (by omega) (by norm_num) (by norm_num)
    have := two_zpow_lt_iff.mp ((hpow.trans hlower).trans_lt (hrounds.lt_pow hr))
    omega
  have hnotSmall : -1100 < (k : Int) + d.exponent := by
    by_contra hsmall
    have hpow : (10 : ℚ) ^ ((k : Int) + d.exponent) ≤ 2 ^ (3 * ((k : Int) + d.exponent)) :=
      ten_zpow_le_two (by omega)
    have := two_zpow_lt_iff.mp ((hrounds.half_le hr).trans_lt (hupper.trans_le hpow))
    omega
  omega

lemma signText_eq (negative : Bool) :
    (if negative then Text.ofString "-" else Text.ofString "") = signText negative := by
  cases negative <;> rfl

/-- The text of a number is the sign and digits of a finite number, or a name. -/
lemma float_text_eq {x : Binary64} (hx : x.exponentBits ≠ 2047) :
    x.text = signText x.isNegative ++
      (if x.isZero then [byte '0'] else (shortest x.decompose.1 x.decompose.2).text) := by
  have hnan : x.isNaN = false := by simp [isNaN, hx]
  have hinf : x.isInfinite = false := by simp [isInfinite, hx]
  unfold Binary64.text
  rw [hnan, hinf]
  simp only [Bool.false_eq_true, if_false, signText_eq]
  by_cases hzero : x.isZero
  · rw [if_pos hzero, if_pos hzero]
    rfl
  · rw [if_neg hzero, if_neg hzero]

lemma finite_text_spells {x : Binary64} (hx : x.exponentBits ≠ 2047) :
    ∃ t v, x.text = signText x.isNegative ++ t ∧ SpellsDecimal t v ∧
      ((x.isZero ∧ v = 0) ∨
        Representable x.decompose.1 x.decompose.2 ∧ RoundsTo x.decompose.1 x.decompose.2 v) := by
  rw [float_text_eq hx]
  by_cases hzero : x.isZero
  · rw [if_pos hzero]
    refine ⟨_, 0, rfl, ⟨[byte '0'], [], [], 0, allDigits_zeros 1, fun _ h => (by cases h),
      List.cons_ne_nil _ _, .none, rfl, ?_⟩, .inl ⟨hzero, rfl⟩⟩
    have hvalue : digitsValue ([byte '0'] ++ []) = 0 := by decide
    rw [hvalue]
    simp
  · rw [if_neg hzero]
    have hr := representable_decompose hx hzero
    exact ⟨_, _, rfl, shortest_text_spells hr, .inr ⟨hr, shortest_roundsTo hr⟩⟩

lemma literal?_finite {x : Binary64} (hx : x.exponentBits ≠ 2047) : literal? x.text = some x := by
  obtain ⟨t, v, htext, ⟨whole, part, rest, e, hwhole, hpart, hne, hrest, rfl, rfl⟩, hv⟩ :=
    finite_text_spells hx
  rw [htext, literal?_pointed _ hwhole hpart hne hrest]
  rcases hv with ⟨hzero, hv⟩ | ⟨hr, hrounds⟩
  · have hbits : x.exponentBits = 0 ∧ x.fractionBits = 0 := by simpa [isZero] using hzero
    have hdecompose : x.decompose = (0, -1074) := by simp [decompose, hbits]
    have hvalue : digitsValue (whole ++ part) = 0 := by
      rcases mul_eq_zero.mp hv with hv | hv
      · exact_mod_cast hv
      · exact absurd hv (zpow_ne_zero _ (by norm_num))
    have hcompose := compose_decompose x
    rw [hdecompose] at hcompose
    rw [hvalue, scaled?, if_pos (.inl rfl), ofRatio?, if_pos rfl]
    exact congrArg some hcompose
  · rw [scaled?_of_roundsTo _ hr hrounds, compose_decompose x]

/-- The text of a number is read back as that number; of the NaNs, only the literal's one is. -/
lemma literal?_text {x : Binary64} (hx : x.isNaN → x = nan) : literal? x.text = some x := by
  by_cases hspecial : x.exponentBits = 2047
  · by_cases hnan : x.isNaN
    · rw [hx hnan]
      decide
    · have hfraction : x.fractionBits = 0 := by simpa [isNaN, hspecial] using hnan
      have hinf : x.isInfinite := by simp [isInfinite, hspecial, hfraction]
      have hvalue : x = infinity x.isNegative := by
        apply ext_toNat
        rw [bits_eq, hspecial, hfraction]
        cases x.isNegative <;> rfl
      have htext : x.text = if x.isNegative then Text.ofString "-Inf" else Text.ofString "+Inf" := by
        rw [Binary64.text, if_neg hnan, if_pos hinf]
      rw [htext]
      conv_rhs => rw [hvalue]
      cases x.isNegative <;> decide
  · exact literal?_finite hspecial

/-- The text of a number consists of numerals, unless it is a name. -/
lemma float_text_cases (x : Binary64) :
    x.text ∈ [Text.ofString "NaN", Text.ofString "+Inf", Text.ofString "-Inf"] ∨
      x.text ≠ [] ∧ ∀ b ∈ x.text, isNumeral b := by
  by_cases hspecial : x.exponentBits = 2047
  · left
    by_cases hnan : x.isNaN
    · rw [Binary64.text, if_pos hnan]
      simp
    · have hinf : x.isInfinite := by simpa [isInfinite, isNaN, hspecial] using hnan
      rw [Binary64.text, if_neg hnan, if_pos hinf]
      split_ifs <;> simp
  · right
    obtain ⟨t, v, htext, ⟨whole, part, rest, e, hwhole, hpart, hne, hrest, rfl, rfl⟩, -⟩ :=
      finite_text_spells hspecial
    rw [htext]
    constructor
    · unfold pointed
      split_ifs <;> simp [hne]
    · intro b hb
      rcases List.mem_append.mp hb with hb | hb
      · cases hneg : x.isNegative with
        | true =>
          rw [hneg] at hb
          rw [List.mem_singleton.mp hb]
          rfl
        | false =>
          rw [hneg] at hb
          cases hb
      · rcases List.mem_append.mp hb with hb | hb
        · exact isNumeral_pointed hwhole hpart b hb
        · exact hrest.isNumeral b hb

end StackCode.Proofs
