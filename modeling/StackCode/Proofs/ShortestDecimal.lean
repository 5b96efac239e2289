import Mathlib
import StackCode.Number.Shortest
import StackCode.Proofs.NearestBinary

/-!
# The shortest decimal of a number

The decimal that a number is written with lies among those that round to the number. Seventeen
digits are always enough: the spacing of that grid is smaller than the spacing of binary numbers.
-/

namespace StackCode.Proofs

open Binary64

/-! ### Quotients -/

/-- The rational number that a quotient stands for. -/
def ratioValue (x : Ratio) : ℚ := x.num / x.den

lemma ratioValue_binary (n : Nat) (e : Int) : ratioValue (.binary n e) = n * 2 ^ e :=
  ratio_eq_zpow (by norm_num) n e

lemma ratioValue_decimal (n : Nat) (e : Int) : ratioValue (.decimal n e) = n * 10 ^ e :=
  ratio_eq_zpow (by norm_num) n e

lemma den_binary_pos (n : Nat) (e : Int) : 0 < (Ratio.binary n e).den := Nat.pow_pos (by norm_num)

lemma den_decimal_pos (n : Nat) (e : Int) : 0 < (Ratio.decimal n e).den :=
  Nat.pow_pos (by norm_num)

section Order

variable {x y : Ratio} (hx : 0 < x.den) (hy : 0 < y.den)
include hx hy

lemma ratio_lt_iff : x.lt y ↔ ratioValue x < ratioValue y := by
  have hxQ : (0 : ℚ) < x.den := by exact_mod_cast hx
  have hyQ : (0 : ℚ) < y.den := by exact_mod_cast hy
  rw [Ratio.lt, decide_eq_true_iff, ratioValue, ratioValue, div_lt_div_iff₀ hxQ hyQ]
  exact_mod_cast Iff.rfl

lemma ratio_le_iff : x.le y ↔ ratioValue x ≤ ratioValue y := by
  have hxQ : (0 : ℚ) < x.den := by exact_mod_cast hx
  have hyQ : (0 : ℚ) < y.den := by exact_mod_cast hy
  rw [Ratio.le, decide_eq_true_iff, ratioValue, ratioValue, div_le_div_iff₀ hxQ hyQ]
  exact_mod_cast Iff.rfl

end Order

/-! ### The rounding interval -/

lemma rounding_low {m : Nat} (hm : 0 < m) (q : Int) :
    ratioValue (Rounding.of m q).low = (m - reachBelow m q) * 2 ^ q := by
  have hquarter : (2 : ℚ) ^ (q - 2) = 2 ^ q / 4 := by
    rw [zpow_sub₀ (by norm_num)]
    norm_num
  unfold Rounding.of reachBelow
  rw [ratioValue_binary, hquarter]
  by_cases hnarrow : m = Nat.pow 2 52 ∧ q > -1074
  · rw [if_pos hnarrow, if_pos (show m = 2 ^ 52 ∧ -1074 < q from hnarrow), Nat.cast_sub (by omega)]
    push_cast
    ring
  · rw [if_neg hnarrow, if_neg (show ¬(m = 2 ^ 52 ∧ -1074 < q) from hnarrow), Nat.cast_sub (by omega)]
    push_cast
    ring

lemma rounding_high (m : Nat) (q : Int) :
    ratioValue (Rounding.of m q).high = (m + 1 / 2) * 2 ^ q := by
  have hquarter : (2 : ℚ) ^ (q - 2) = 2 ^ q / 4 := by
    rw [zpow_sub₀ (by norm_num)]
    norm_num
  unfold Rounding.of
  rw [ratioValue_binary, hquarter]
  push_cast
  ring

/-- The rounding interval holds exactly the numbers that round to `m * 2 ^ q`. -/
lemma contains_iff {m : Nat} (hm : 0 < m) {q : Int} {x : Ratio} (hx : 0 < x.den) :
    (Rounding.of m q).contains x ↔ RoundsTo m q (ratioValue x) := by
  have hlow : 0 < (Rounding.of m q).low.den := den_binary_pos _ _
  have hhigh : 0 < (Rounding.of m q).high.den := den_binary_pos _ _
  have hclosed : (Rounding.of m q).closed = decide (m % 2 = 0) := rfl
  unfold Rounding.contains
  rw [hclosed]
  by_cases heven : m % 2 = 0
  · rw [if_pos (by simpa using heven), Bool.and_eq_true, ratio_le_iff hlow hx,
      ratio_le_iff hx hhigh, rounding_low hm, rounding_high]
    exact ⟨fun h => ⟨h.1, h.2, fun hodd => by omega⟩, fun h => ⟨h.low, h.high⟩⟩
  · rw [if_neg (by simpa using heven), Bool.and_eq_true, ratio_lt_iff hlow hx,
      ratio_lt_iff hx hhigh, rounding_low hm, rounding_high]
    exact ⟨fun h => ⟨h.1.le, h.2.le, fun _ => h⟩, fun h => h.odd (by omega)⟩

/-! ### The decimal grids -/

lemma onGrid?_contains {i : Rounding} {x : Ratio} {e : Int} {d : Decimal}
    (h : onGrid? i x e = some d) : i.contains (.decimal d.digits d.exponent) := by
  unfold onGrid? at h
  extract_lets num den near far at h
  split_ifs at h with hnear hfar
  · cases h
    exact hnear
  · cases h
    exact hfar

/-- A grid that is searched and not empty yields a decimal of the interval. -/
lemma firstGrid_spec {i : Rounding} {x : Ratio} (count : Nat) {e : Int}
    (h : (onGrid? i x (e - count)).isSome) :
    ∃ d, firstGrid i x (count + 1) e = some d ∧ i.contains (.decimal d.digits d.exponent) := by
  induction count generalizing e with
  | zero =>
    obtain ⟨d, hd⟩ := Option.isSome_iff_exists.mp h
    rw [Nat.cast_zero, sub_zero] at hd
    exact ⟨d, by rw [firstGrid, hd], onGrid?_contains hd⟩
  | succ count ih =>
    rw [firstGrid]
    cases hgrid : onGrid? i x e with
    | some d => exact ⟨d, rfl, onGrid?_contains hgrid⟩
    | none =>
      apply ih
      rwa [show e - 1 - (count : Int) = e - ((count + 1 : Nat) : Int) by push_cast; ring]

/-- Powers of one base stay below powers of another one if two such powers do. -/
lemma pow_le_pow_of_rate {a b p q : Nat} (hrate : a ^ q ≤ b ^ p) (hb : 0 < b) (hq : q ≠ 0)
    {k n : Nat} (h : p * k ≤ q * n) : a ^ k ≤ b ^ n := by
  apply le_of_pow_le_pow_left₀ hq (Nat.zero_le _)
  calc (a ^ k) ^ q = (a ^ q) ^ k := pow_right_comm a k q
    _ ≤ (b ^ p) ^ k := Nat.pow_le_pow_left hrate k
    _ = b ^ (p * k) := (pow_mul b p k).symm
    _ ≤ b ^ (q * n) := Nat.pow_le_pow_right hb h
    _ = (b ^ n) ^ q := by rw [Nat.mul_comm, pow_mul]

/-- The estimate of a decimal exponent from a binary one is at most one too large, over the whole
range of binary exponents. -/
lemma guess_le {l : Int} (hlow : -1074 ≤ l) (hhigh : l ≤ 1023) :
    (10 : ℚ) ^ (Int.fdiv (l * 30103) 100000 - 1) ≤ 2 ^ l := by
  rw [Int.fdiv_eq_ediv_of_nonneg _ (by norm_num)]
  -- the decimal logarithm of two lies between 59/196 and 28/93
  rcases Int.le_total 0 l with hl | hl
  · obtain ⟨n, rfl⟩ := Int.eq_ofNat_of_zero_le hl
    have hten : 10 ^ (n * 30103 / 100000 - 1 : Int).toNat ≤ 2 ^ n :=
      pow_le_pow_of_rate (p := 196) (q := 59) (by norm_num) (by norm_num) (by norm_num) (by omega)
    calc (10 : ℚ) ^ (n * 30103 / 100000 - 1 : Int)
        ≤ 10 ^ ((n * 30103 / 100000 - 1 : Int).toNat : Int) :=
          zpow_le_zpow_right₀ (by norm_num) (Int.self_le_toNat _)
      _ ≤ 2 ^ (n : Int) := by
          rw [zpow_natCast, zpow_natCast]
          exact_mod_cast hten
  · obtain ⟨n, hn⟩ := Int.eq_ofNat_of_zero_le (show 0 ≤ -l by omega)
    obtain ⟨k, hk⟩ := Int.eq_ofNat_of_zero_le (show 0 ≤ 1 - l * 30103 / 100000 by omega)
    have htwo : 2 ^ n ≤ 10 ^ k :=
      pow_le_pow_of_rate (p := 28) (q := 93) (by norm_num) (by norm_num) (by norm_num) (by omega)
    obtain rfl : l = -(n : Int) := by omega
    rw [show -(n : Int) * 30103 / 100000 - 1 = -(k : Int) by omega, zpow_neg, zpow_neg,
      zpow_natCast, zpow_natCast]
    apply inv_anti₀ (by positivity)
    exact_mod_cast htwo

lemma decimalExponent_le {x : Ratio} (hx : 0 < x.den) {l : Int} (hlow : -1074 ≤ l)
    (hhigh : l ≤ 1023) (h : 2 ^ l ≤ ratioValue x) : 10 ^ decimalExponent x l ≤ ratioValue x := by
  unfold decimalExponent
  dsimp only
  split_ifs with hless hmore
  · exact (guess_le hlow hhigh).trans h
  · rw [ratio_le_iff (den_decimal_pos _ _) hx, ratioValue_decimal, Nat.cast_one, one_mul] at hmore
    exact hmore
  · rw [ratio_lt_iff hx (den_decimal_pos _ _), ratioValue_decimal, Nat.cast_one, one_mul] at hless
    exact not_lt.mp hless

/-- The nearest multiple of `10 ^ (e - 16)` rounds to a number that is at least `10 ^ e`. -/
lemma onGrid?_finest {m : Nat} {q : Int} (hr : Representable m q) {e : Int}
    (he : 10 ^ e ≤ (m : ℚ) * 2 ^ q) :
    (onGrid? (.of m q) (.binary m q) (e - 16)).isSome := by
  set x := Ratio.binary m q with hx
  set num := x.num * Nat.pow 10 (-(e - 16)).toNat with hnum
  set den := x.den * Nat.pow 10 (e - 16).toNat with hden
  have hdenPos : 0 < den := Nat.mul_pos (den_binary_pos m q) (Nat.pow_pos (by norm_num))
  have hstep : (0 : ℚ) < 10 ^ (e - 16) := zpow_pos (by norm_num) _
  -- the quotient that is rounded is the number in units of the grid
  have hquot : (num : ℚ) / den = m * 2 ^ q / 10 ^ (e - 16) := by
    have hbinary : (x.num : ℚ) / x.den = m * 2 ^ q := ratioValue_binary m q
    have hscale := ratio_eq_zpow (show 0 < 10 by norm_num) 1 (-(e - 16))
    rw [neg_neg, Nat.cast_one, one_mul, one_mul, zpow_neg] at hscale
    rw [hnum, hden, Nat.cast_mul, Nat.cast_mul, mul_div_mul_comm, hbinary, hscale,
      div_eq_mul_inv]
    norm_num
  have hnear := roundDiv_near num hdenPos
  set near := roundDiv num den with hnearDef
  have herror : |(near : ℚ) * 10 ^ (e - 16) - m * 2 ^ q| ≤ 1 / 2 * 10 ^ (e - 16) := by
    calc |(near : ℚ) * 10 ^ (e - 16) - m * 2 ^ q|
        = |((near : ℚ) - num / den) * 10 ^ (e - 16)| := by
          rw [hquot, sub_mul, div_mul_cancel₀ _ hstep.ne']
      _ = |(near : ℚ) - num / den| * 10 ^ (e - 16) := by rw [abs_mul, abs_of_pos hstep]
      _ ≤ 1 / 2 * 10 ^ (e - 16) := mul_le_mul_of_nonneg_right hnear hstep.le
  -- half a step of the grid is less than the number's distance from the ends of its interval
  have hgrid : (1 : ℚ) / 2 * 10 ^ (e - 16) < reachBelow m q * 2 ^ q := by
    have hsmall : (10 : ℚ) ^ (e - 16) ≤ m * 2 ^ q / 10 ^ 16 := by
      rw [zpow_sub₀ (by norm_num)]
      exact div_le_div_of_nonneg_right he (by positivity)
    have hsignificand : (m : ℚ) / (2 * 10 ^ 16) < reachBelow m q := by
      rw [div_lt_iff₀ (by positivity)]
      unfold reachBelow
      split_ifs with hnarrow
      · rw [hnarrow.1]
        norm_num
      · have hlt : (m : ℚ) < 2 ^ 53 := by exact_mod_cast hr.lt
        norm_num at hlt ⊢
        linarith
    calc (1 : ℚ) / 2 * 10 ^ (e - 16) ≤ 1 / 2 * (m * 2 ^ q / 10 ^ 16) := by linarith
      _ = m / (2 * 10 ^ 16) * 2 ^ q := by ring
      _ < reachBelow m q * 2 ^ q := mul_lt_mul_of_pos_right hsignificand (two_zpow_pos q)
  have hreach : reachBelow m q * 2 ^ q ≤ 1 / 2 * 2 ^ q :=
    mul_le_mul_of_nonneg_right (reachBelow_le m q) (two_zpow_pos q).le
  have hcontains : (Rounding.of m q).contains (.decimal near (e - 16)) := by
    rw [contains_iff hr.pos (den_decimal_pos _ _), ratioValue_decimal]
    obtain ⟨hbelow, habove⟩ := abs_le.mp herror
    have hlow : (m - reachBelow m q) * 2 ^ q < (near : ℚ) * 10 ^ (e - 16) := by linarith
    have hhigh : (near : ℚ) * 10 ^ (e - 16) < (m + 1 / 2) * 2 ^ q := by linarith
    exact ⟨hlow.le, hhigh.le, fun _ => ⟨hlow, hhigh⟩⟩
  unfold onGrid?
  dsimp only
  rw [← hnum, ← hden, ← hnearDef, if_pos hcontains]
  rfl

/-- The decimal that a number is written with rounds to the number. -/
lemma shortest_roundsTo {m : Nat} {q : Int} (hr : Representable m q) :
    RoundsTo m q ((shortest m q).digits * 10 ^ (shortest m q).exponent) := by
  have hbits : Nat.log2 m < 53 := (Nat.log2_lt hr.pos.ne').mpr hr.lt
  have hlow := hr.low
  have hhigh := hr.high
  have hsize : (2 : ℚ) ^ ((Nat.log2 m : Int) + q) ≤ ratioValue (.binary m q) := by
    rw [ratioValue_binary, two_zpow_add]
    exact mul_le_mul_of_nonneg_right (log2_bounds hr.pos).1 (two_zpow_pos q).le
  have hexponent := decimalExponent_le (den_binary_pos m q) (by omega) (by omega) hsize
  rw [ratioValue_binary] at hexponent
  obtain ⟨d, hd, hcontains⟩ := firstGrid_spec 16 (onGrid?_finest hr hexponent)
  have hshortest : shortest m q = d := by
    unfold shortest
    dsimp only
    rw [hd, Option.getD_some]
  rw [contains_iff hr.pos (den_decimal_pos _ _), ratioValue_decimal] at hcontains
  rwa [hshortest]

end StackCode.Proofs
