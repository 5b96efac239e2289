import Mathlib
import StackCode.Number.Binary64

/-!
# Rounding to the nearest binary number

A quotient is rounded to the number `m * 2 ^ q` whenever it lies nearer to it than to its
neighbours, or half way and `m` is even. The size of the quotient alone picks the exponent, so the
only case in which that exponent is not `q` is just below a power of two, where rounding carries.
-/

namespace StackCode.Proofs

open Binary64

/-! ### Powers as quotients of natural numbers -/

/-- A multiple of a power, with the power in the numerator or the denominator. -/
lemma ratio_eq_zpow {b : Nat} (hb : 0 < b) (n : Nat) (e : Int) :
    ((n * Nat.pow b e.toNat : Nat) : ℚ) / (Nat.pow b (-e).toNat : Nat) = n * (b : ℚ) ^ e := by
  have hb0 : (b : ℚ) ≠ 0 := by exact_mod_cast hb.ne'
  have hpow : ∀ k, Nat.pow b k = b ^ k := fun _ => rfl
  rw [hpow, hpow]
  push_cast
  rcases le_total 0 e with he | he
  · obtain ⟨k, rfl⟩ := Int.eq_ofNat_of_zero_le he
    simp
  · obtain ⟨k, hk⟩ := Int.eq_ofNat_of_zero_le (show 0 ≤ -e by omega)
    obtain rfl : e = -(k : Int) := by omega
    simp [div_eq_mul_inv]

lemma two_zpow_pos (e : Int) : (0 : ℚ) < 2 ^ e := zpow_pos (by norm_num) e

lemma two_zpow_lt_iff {a b : Int} : (2 : ℚ) ^ a < 2 ^ b ↔ a < b :=
  zpow_lt_zpow_iff_right₀ (by norm_num)

lemma two_zpow_add (a b : Int) : (2 : ℚ) ^ (a + b) = 2 ^ a * 2 ^ b :=
  zpow_add₀ (by norm_num) a b

/-! ### Rounding to a natural number -/

/-- The natural numbers nearest to `w`: at most a half away, and less than that if odd. -/
structure Nearest (k : Nat) (w : ℚ) : Prop where
  low : (k : ℚ) - 1 / 2 ≤ w
  high : w ≤ k + 1 / 2
  odd : k % 2 = 1 → (k : ℚ) - 1 / 2 < w ∧ w < k + 1 / 2

lemma roundDiv_of_nearest {num den k : Nat} (hden : 0 < den)
    (h : Nearest k ((num : ℚ) / den)) : roundDiv num den = k := by
  have hdenQ : (0 : ℚ) < den := by exact_mod_cast hden
  -- the bounds of the quotient as inequalities between natural numbers
  have hlow : 2 * k * den ≤ 2 * num + den := by
    have hmul := mul_le_mul_of_nonneg_right h.low hdenQ.le
    rw [div_mul_cancel₀ _ hdenQ.ne'] at hmul
    have hcast : ((2 * k * den : Nat) : ℚ) ≤ (2 * num + den : Nat) := by push_cast; linarith
    exact_mod_cast hcast
  have hhigh : 2 * num ≤ 2 * k * den + den := by
    have hmul := mul_le_mul_of_nonneg_right h.high hdenQ.le
    rw [div_mul_cancel₀ _ hdenQ.ne'] at hmul
    have hcast : ((2 * num : Nat) : ℚ) ≤ (2 * k * den + den : Nat) := by push_cast; linarith
    exact_mod_cast hcast
  have hodd : k % 2 = 1 → 2 * k * den ≠ 2 * num + den ∧ 2 * num ≠ 2 * k * den + den := by
    intro hk
    obtain ⟨hl, hh⟩ := h.odd hk
    constructor
    · intro heq
      have hcast : ((2 * k * den : Nat) : ℚ) = (2 * num + den : Nat) := by exact_mod_cast heq
      have hmul := mul_lt_mul_of_pos_right hl hdenQ
      rw [div_mul_cancel₀ _ hdenQ.ne'] at hmul
      push_cast at hcast
      linarith
    · intro heq
      have hcast : ((2 * num : Nat) : ℚ) = (2 * k * den + den : Nat) := by exact_mod_cast heq
      have hmul := mul_lt_mul_of_pos_right hh hdenQ
      rw [div_mul_cancel₀ _ hdenQ.ne'] at hmul
      push_cast at hcast
      linarith
  have hsplit : den * (num / den) + num % den = num := Nat.div_add_mod num den
  have hrem : num % den < den := Nat.mod_lt num hden
  -- only the quotient and its successor satisfy the bounds
  have hcomm : den * (num / den) = num / den * den := Nat.mul_comm _ _
  have hassoc : 2 * k * den = 2 * (k * den) := Nat.mul_assoc _ _ _
  have hle : num / den ≤ k := by
    by_contra hlt
    have hmul : (k + 1) * den ≤ num / den * den := Nat.mul_le_mul_right den (by omega)
    rw [Nat.succ_mul] at hmul
    omega
  have hge : k ≤ num / den + 1 := by
    by_contra hlt
    have hmul : (num / den + 2) * den ≤ k * den := Nat.mul_le_mul_right den (by omega)
    rw [Nat.add_mul] at hmul
    omega
  unfold roundDiv
  rcases (show k = num / den ∨ k = num / den + 1 by omega) with hk | hk
  · have hprod : 2 * k * den = 2 * (num / den * den) := by rw [hk, Nat.mul_assoc]
    simp only []
    rw [if_neg (by rintro (hgt | ⟨heq, hpar⟩) <;> omega), hk]
  · have hprod : 2 * k * den = 2 * (num / den * den) + 2 * den := by rw [hk]; ring
    simp only []
    rw [if_pos (by by_cases hpar : k % 2 = 1 <;> omega), hk]

lemma roundDiv_near (num : Nat) {den : Nat} (hden : 0 < den) :
    |(roundDiv num den : ℚ) - num / den| ≤ 1 / 2 := by
  have hdenQ : (0 : ℚ) < den := by exact_mod_cast hden
  have hsplit : den * (num / den) + num % den = num := Nat.div_add_mod num den
  have hrem : num % den < den := Nat.mod_lt num hden
  have hsplitQ : (den : ℚ) * (num / den : Nat) + (num % den : Nat) = num := by exact_mod_cast hsplit
  have hquot : (num : ℚ) / den = (num / den : Nat) + (num % den : Nat) / den := by
    rw [eq_comm, ← hsplitQ]
    field_simp
  have hremQ : ((num % den : Nat) : ℚ) / den * den = (num % den : Nat) :=
    div_mul_cancel₀ _ hdenQ.ne'
  have hlt : ((num % den : Nat) : ℚ) < den := by exact_mod_cast hrem
  rw [abs_le]
  unfold roundDiv
  dsimp only
  split_ifs with hup
  · have hhalf : (den : ℚ) ≤ 2 * (num % den : Nat) := by
      exact_mod_cast (show den ≤ 2 * (num % den) by omega)
    have hge : (1 : ℚ) / 2 ≤ (num % den : Nat) / den := by
      rw [le_div_iff₀ hdenQ]
      linarith
    have hle : ((num % den : Nat) : ℚ) / den ≤ 1 := by
      rw [div_le_one hdenQ]
      exact hlt.le
    rw [hquot]
    push_cast
    constructor <;> linarith
  · have hhalf : 2 * ((num % den : Nat) : ℚ) ≤ den := by
      exact_mod_cast (show 2 * (num % den) ≤ den by omega)
    have hle : ((num % den : Nat) : ℚ) / den ≤ 1 / 2 := by
      rw [div_le_iff₀ hdenQ]
      linarith
    have hge : (0 : ℚ) ≤ (num % den : Nat) / den := by positivity
    rw [hquot]
    constructor <;> linarith

/-! ### The numbers that round to a binary number -/

/-- Significand and exponent of a positive finite number: at most 53 bits, all of them used unless
the exponent is the lowest. -/
structure Representable (m : Nat) (q : Int) : Prop where
  pos : 0 < m
  lt : m < 2 ^ 53
  low : -1074 ≤ q
  high : q ≤ 971
  normal : q = -1074 ∨ 2 ^ 52 ≤ m

/-- How far below `m` the numbers that round to it reach, in units of the last place: at a power of
two the neighbour below is half as far away. -/
def reachBelow (m : Nat) (q : Int) : ℚ := if m = 2 ^ 52 ∧ -1074 < q then 1 / 4 else 1 / 2

/-- The number `v` rounds to `m * 2 ^ q`. -/
structure RoundsTo (m : Nat) (q : Int) (v : ℚ) : Prop where
  low : (m - reachBelow m q) * 2 ^ q ≤ v
  high : v ≤ (m + 1 / 2) * 2 ^ q
  odd : m % 2 = 1 → (m - reachBelow m q) * 2 ^ q < v ∧ v < (m + 1 / 2) * 2 ^ q

lemma reachBelow_le (m : Nat) (q : Int) : reachBelow m q ≤ 1 / 2 := by
  unfold reachBelow
  split_ifs <;> norm_num

lemma RoundsTo.nearest {m : Nat} {q : Int} {v : ℚ} (h : RoundsTo m q v) :
    Nearest m (v / 2 ^ q) := by
  have hpos := two_zpow_pos q
  have hreach := reachBelow_le m q
  refine ⟨?_, ?_, fun hodd => ⟨?_, ?_⟩⟩
  · exact le_trans (by linarith) ((le_div_iff₀ hpos).mpr h.low)
  · exact (div_le_iff₀ hpos).mpr h.high
  · exact lt_of_le_of_lt (by linarith) ((lt_div_iff₀ hpos).mpr (h.odd hodd).1)
  · exact (div_lt_iff₀ hpos).mpr (h.odd hodd).2

section Bounds

variable {m : Nat} {q : Int} {v : ℚ}

lemma RoundsTo.lt_pow (hr : Representable m q) (h : RoundsTo m q v) : v < 2 ^ (53 + q) := by
  have hlt : (m : ℚ) + 1 / 2 < 2 ^ 53 := by
    have hcast : ((m + 1 : Nat) : ℚ) ≤ (2 ^ 53 : Nat) := by exact_mod_cast hr.lt
    push_cast at hcast
    linarith
  calc v ≤ (m + 1 / 2) * 2 ^ q := h.high
    _ < 2 ^ 53 * 2 ^ q := mul_lt_mul_of_pos_right hlt (two_zpow_pos q)
    _ = 2 ^ (53 + q) := by rw [two_zpow_add]; rfl

lemma RoundsTo.pow_lt (h : RoundsTo m q v) (hm : 2 ^ 52 ≤ m) : 2 ^ (51 + q) < v := by
  have hge : (2 : ℚ) ^ 51 + 1 ≤ m := by exact_mod_cast (show 2 ^ 51 + 1 ≤ m by omega)
  have hreach := reachBelow_le m q
  calc (2 : ℚ) ^ (51 + q) = 2 ^ 51 * 2 ^ q := by rw [two_zpow_add]; rfl
    _ < (m - reachBelow m q) * 2 ^ q :=
      mul_lt_mul_of_pos_right (by linarith) (two_zpow_pos q)
    _ ≤ v := h.low

lemma RoundsTo.half_le (hr : Representable m q) (h : RoundsTo m q v) : 2 ^ (q - 1) ≤ v := by
  have hge : (1 : ℚ) ≤ m := by exact_mod_cast hr.pos
  have hreach := reachBelow_le m q
  calc (2 : ℚ) ^ (q - 1) = 1 / 2 * 2 ^ q := by rw [zpow_sub_one₀ (by norm_num)]; ring
    _ ≤ (m - reachBelow m q) * 2 ^ q :=
      mul_le_mul_of_nonneg_right (by linarith) (two_zpow_pos q).le
    _ ≤ v := h.low

lemma RoundsTo.pos (hr : Representable m q) (h : RoundsTo m q v) : 0 < v :=
  lt_of_lt_of_le (two_zpow_pos _) (h.half_le hr)

end Bounds

/-! ### The exponent of a rounded quotient -/

/-- The quotient in units of `2 ^ e`, rounded. -/
def scaledRound (num den : Nat) (e : Int) : Nat :=
  if e < 0 then roundDiv (num * Nat.pow 2 (-e).toNat) den
  else roundDiv num (den * Nat.pow 2 e.toNat)

/-- The number of significand `m` and exponent `e`, after a carry out of 53 bits. -/
def carried (negative : Bool) (m : Nat) (e : Int) : Option Binary64 :=
  if m = Nat.pow 2 53 then
    (if e + 1 > 971 then none else some (compose negative (Nat.pow 2 52) (e + 1 + 1074).toNat))
  else if e > 971 then none else some (compose negative m (e + 1074).toNat)

/-- The lower of the two exponents that a quotient may be rounded at. -/
def lowExponent (num den : Nat) : Int :=
  max ((Nat.log2 num : Int) - Nat.log2 den - 53) (-1074)

lemma ofRatio?_eq {negative : Bool} {num den : Nat} (hnum : num ≠ 0) :
    ofRatio? negative num den =
      if (num * Nat.pow 2 (-lowExponent num den).toNat) /
          (den * Nat.pow 2 (lowExponent num den).toNat) < Nat.pow 2 53 then
        carried negative (scaledRound num den (lowExponent num den)) (lowExponent num den)
      else carried negative (scaledRound num den (lowExponent num den + 1))
        (lowExponent num den + 1) := by
  have hfit : ∀ (m : Nat) (e : Int),
      (let p := if m = Nat.pow 2 53 then (Nat.pow 2 52, e + 1) else (m, e)
        if p.2 > 971 then none else some (compose negative p.1 (p.2 + 1074).toNat)) =
        carried negative m e := by
    intro m e
    unfold carried
    by_cases hm : m = Nat.pow 2 53
    · rw [if_pos hm, if_pos hm]
    · rw [if_neg hm, if_neg hm]
  rw [← hfit, ← hfit, ofRatio?, if_neg hnum]
  rfl

lemma scaledRound_eq (num : Nat) {den : Nat} (hden : 0 < den) (e : Int) :
    ∃ num' den', 0 < den' ∧ scaledRound num den e = roundDiv num' den' ∧
      (num' : ℚ) / den' = num / den / 2 ^ e := by
  have hpow : ∀ n, Nat.pow 2 n = 2 ^ n := fun _ => rfl
  unfold scaledRound
  split_ifs with he
  · refine ⟨_, _, hden, rfl, ?_⟩
    obtain ⟨n, hn⟩ := Int.eq_ofNat_of_zero_le (show 0 ≤ -e by omega)
    obtain rfl : e = -(n : Int) := by omega
    rw [hpow]
    push_cast
    simp
    ring
  · refine ⟨_, _, Nat.mul_pos hden (by rw [hpow]; positivity), rfl, ?_⟩
    obtain ⟨n, rfl⟩ := Int.eq_ofNat_of_zero_le (show 0 ≤ e by omega)
    rw [hpow]
    push_cast
    simp
    rw [div_div]

lemma scaledRound_of_nearest {num den k : Nat} {e : Int} (hden : 0 < den)
    (h : Nearest k ((num : ℚ) / den / 2 ^ e)) : scaledRound num den e = k := by
  obtain ⟨num', den', hden', heq, hquot⟩ := scaledRound_eq num hden e
  rw [heq]
  exact roundDiv_of_nearest hden' (hquot ▸ h)

/-- The exponent that a quotient `v` is rounded at: 53 bits hold it there, and fewer do not unless
the exponent is the lowest. -/
structure FitsAt (v : ℚ) (e : Int) : Prop where
  low : -1074 ≤ e
  below : v < 2 ^ (53 + e)
  above : e = -1074 ∨ 2 ^ (52 + e) ≤ v

lemma log2_bounds {n : Nat} (hn : 0 < n) :
    (2 : ℚ) ^ (Nat.log2 n : Int) ≤ n ∧ (n : ℚ) < 2 ^ ((Nat.log2 n : Int) + 1) := by
  constructor
  · rw [zpow_natCast]
    exact_mod_cast Nat.log2_self_le hn.ne'
  · have hlt : n < 2 ^ (Nat.log2 n + 1) := Nat.lt_log2_self
    have hcast : (n : ℚ) < 2 ^ (Nat.log2 n + 1) := by exact_mod_cast hlt
    rwa [← zpow_natCast, Nat.cast_add, Nat.cast_one] at hcast

lemma ratio_bounds {num den : Nat} (hnum : 0 < num) (hden : 0 < den) :
    (2 : ℚ) ^ ((Nat.log2 num : Int) - Nat.log2 den - 1) < num / den ∧
      (num : ℚ) / den < 2 ^ ((Nat.log2 num : Int) - Nat.log2 den + 1) := by
  obtain ⟨hnlow, hnhigh⟩ := log2_bounds hnum
  obtain ⟨hdlow, hdhigh⟩ := log2_bounds hden
  have hdenQ : (0 : ℚ) < den := by exact_mod_cast hden
  constructor
  · rw [lt_div_iff₀ hdenQ]
    calc (2 : ℚ) ^ ((Nat.log2 num : Int) - Nat.log2 den - 1) * den
        < 2 ^ ((Nat.log2 num : Int) - Nat.log2 den - 1) * 2 ^ ((Nat.log2 den : Int) + 1) :=
          mul_lt_mul_of_pos_left hdhigh (two_zpow_pos _)
      _ = 2 ^ (Nat.log2 num : Int) := by rw [← two_zpow_add]; congr 1; ring
      _ ≤ num := hnlow
  · rw [div_lt_iff₀ hdenQ]
    calc (num : ℚ) < 2 ^ ((Nat.log2 num : Int) + 1) := hnhigh
      _ = 2 ^ ((Nat.log2 num : Int) - Nat.log2 den + 1) * 2 ^ (Nat.log2 den : Int) := by
        rw [← two_zpow_add]; congr 1; ring
      _ ≤ _ := mul_le_mul_of_nonneg_left hdlow (two_zpow_pos _).le

lemma fits_low_iff {num den : Nat} (hden : 0 < den) (e : Int) :
    (num * Nat.pow 2 (-e).toNat) / (den * Nat.pow 2 e.toNat) < Nat.pow 2 53 ↔
      (num : ℚ) / den < 2 ^ (53 + e) := by
  have hpow : ∀ n, Nat.pow 2 n = 2 ^ n := fun _ => rfl
  have hdenQ : (0 : ℚ) < den := by exact_mod_cast hden
  have hpos : (0 : ℚ) < 2 ^ (-e).toNat := by positivity
  have hscale : (2 : ℚ) ^ e.toNat = 2 ^ e * 2 ^ (-e).toNat := by
    have hratio := ratio_eq_zpow (show 0 < 2 by norm_num) 1 e
    rw [hpow, hpow, div_eq_iff (by positivity)] at hratio
    simpa using hratio
  have hcancel : (num : ℚ) * 2 ^ (-e).toNat < 2 ^ 53 * (den * 2 ^ e.toNat) ↔
      (num : ℚ) < 2 ^ 53 * 2 ^ e * den := by
    rw [hscale, show (2 : ℚ) ^ 53 * (den * (2 ^ e * 2 ^ (-e).toNat)) =
      2 ^ 53 * 2 ^ e * den * 2 ^ (-e).toNat by ring]
    exact mul_lt_mul_iff_left₀ hpos
  rw [Nat.div_lt_iff_lt_mul (Nat.mul_pos hden (by rw [hpow]; positivity)), div_lt_iff₀ hdenQ,
    two_zpow_add, ← Nat.cast_lt (α := ℚ)]
  exact_mod_cast hcancel

/-- Where a quotient fits, rounding carries at most to the next power of two. -/
lemma scaledRound_le {num den : Nat} {e : Int} (hden : 0 < den) (h : FitsAt ((num : ℚ) / den) e) :
    scaledRound num den e ≤ 2 ^ 53 := by
  obtain ⟨num', den', hden', heq, hquot⟩ := scaledRound_eq num hden e
  have hbelow : (num' : ℚ) / den' < 2 ^ 53 := by
    rw [hquot, div_lt_iff₀ (two_zpow_pos e)]
    exact_mod_cast (two_zpow_add 53 e) ▸ h.below
  have hnear := (abs_le.mp (roundDiv_near num' hden')).2
  have hlt : (roundDiv num' den' : ℚ) < (2 ^ 53 + 1 : Nat) := by
    push_cast
    linarith
  rw [heq]
  have : roundDiv num' den' < 2 ^ 53 + 1 := by exact_mod_cast hlt
  omega

/-- Every quotient is rounded at the exponent that it fits at. -/
lemma ofRatio?_of_fits (negative : Bool) {num den : Nat} (hnum : 0 < num) (hden : 0 < den) :
    ∃ e, FitsAt ((num : ℚ) / den) e ∧
      ofRatio? negative num den = carried negative (scaledRound num den e) e := by
  obtain ⟨hlow, hhigh⟩ := ratio_bounds hnum hden
  rw [ofRatio?_eq hnum.ne']
  have hexp : lowExponent num den =
      max ((Nat.log2 num : Int) - Nat.log2 den - 53) (-1074) := rfl
  generalize hetop : (Nat.log2 num : Int) - Nat.log2 den = top at *
  generalize lowExponent num den = e at *
  by_cases hfit : (num : ℚ) / den < 2 ^ (53 + e)
  · refine ⟨e, ⟨by omega, hfit, ?_⟩, by rw [if_pos ((fits_low_iff hden e).mpr hfit)]⟩
    by_cases he : e = -1074
    · exact .inl he
    · have heq : 52 + e = top - 1 := by omega
      rw [heq]
      exact .inr hlow.le
  · refine ⟨e + 1, ⟨by omega, ?_, .inr ?_⟩, by rw [if_neg (mt (fits_low_iff hden e).mp hfit)]⟩
    · exact hhigh.trans_le (zpow_le_zpow_right₀ (by norm_num) (by omega))
    · rw [show 52 + (e + 1) = 53 + e by ring]
      exact not_lt.mp hfit

/-- A number that rounds to `m * 2 ^ q` is rounded at the exponent `q`, or one below it if it lies
below a power of two. -/
lemma RoundsTo.exponent {m : Nat} {q : Int} {v : ℚ} (hr : Representable m q) (h : RoundsTo m q v)
    {e : Int} (he : FitsAt v e) : e = q ∨ e = q - 1 ∧ m = 2 ^ 52 ∧ -1074 < q := by
  have hlow := he.low
  have hqlow := hr.low
  rcases lt_trichotomy e q with hlt | heq | hgt
  · right
    have hm : 2 ^ 52 ≤ m := hr.normal.resolve_left (by omega)
    have hexp : 51 + q < 53 + e := two_zpow_lt_iff.mp ((h.pow_lt hm).trans he.below)
    obtain rfl : e = q - 1 := by omega
    refine ⟨rfl, le_antisymm ?_ hm, by omega⟩
    -- at the lower exponent 53 bits reach up to `2 ^ 52 * 2 ^ q` only
    have hbelow : ((m : ℚ) - reachBelow m q) * 2 ^ q < 2 ^ 52 * 2 ^ q := by
      calc ((m : ℚ) - reachBelow m q) * 2 ^ q ≤ v := h.low
        _ < 2 ^ (52 + q) := by simpa [show (53 + (q - 1) : Int) = 52 + q by ring] using he.below
        _ = 2 ^ 52 * 2 ^ q := by rw [two_zpow_add]; rfl
    have hlt' := lt_of_mul_lt_mul_right hbelow (two_zpow_pos q).le
    have hreach := reachBelow_le m q
    have hcast : (m : ℚ) < (2 ^ 52 + 1 : Nat) := by push_cast; linarith
    have : m < 2 ^ 52 + 1 := by exact_mod_cast hcast
    omega
  · exact .inl heq
  · have habove := he.above.resolve_left (by omega)
    have hexp : 52 + e < 53 + q := two_zpow_lt_iff.mp (habove.trans_lt (h.lt_pow hr))
    omega

/-- A quotient that rounds to a finite number is read as that number. -/
lemma ofRatio?_of_roundsTo {negative : Bool} {num den : Nat} (hden : 0 < den) {m : Nat} {q : Int}
    (hr : Representable m q) (h : RoundsTo m q ((num : ℚ) / den)) :
    ofRatio? negative num den = some (compose negative m (q + 1074).toNat) := by
  have hnum : 0 < num := by
    rcases Nat.eq_zero_or_pos num with rfl | hpos
    · have := h.pos hr
      simp at this
    · exact hpos
  have hlow := hr.low
  have hhigh := hr.high
  obtain ⟨e, he, heq⟩ := ofRatio?_of_fits negative hnum hden
  have h53 : Nat.pow 2 53 = 2 ^ 53 := rfl
  rw [heq]
  rcases h.exponent hr he with rfl | ⟨rfl, hm, hq⟩
  · have hlt := hr.lt
    rw [scaledRound_of_nearest hden h.nearest, carried, if_neg (by omega), if_neg (by omega)]
  · -- the rounded significand is `2 ^ 53`, one bit too long
    have hcarry : Nearest (2 ^ 53) ((num : ℚ) / den / 2 ^ (q - 1)) := by
      have hreach : reachBelow m q = 1 / 4 := if_pos ⟨hm, hq⟩
      have hhalf : (2 : ℚ) ^ q = 2 * 2 ^ (q - 1) := by
        rw [zpow_sub_one₀ (by norm_num)]
        ring
      have hbound := h.low
      rw [hreach, hm, hhalf] at hbound
      refine ⟨?_, ?_, fun hodd => absurd hodd (by decide)⟩
      · rw [le_div_iff₀ (two_zpow_pos _)]
        push_cast at hbound ⊢
        linarith
      · have hbelow := he.below
        rw [two_zpow_add] at hbelow
        rw [div_le_iff₀ (two_zpow_pos _)]
        have hpos := two_zpow_pos (q - 1)
        have h53 : (2 : ℚ) ^ (53 : Int) = 2 ^ 53 := by norm_cast
        rw [h53] at hbelow
        push_cast
        linarith
    rw [scaledRound_of_nearest hden hcarry, carried, if_pos h53.symm, if_neg (by omega), hm]
    congr 2
    omega

end StackCode.Proofs
