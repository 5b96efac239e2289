import Mathlib
import StackCode.Number.Integer

/-!
# Decimal digits

A natural number and its decimal digits determine each other, so the text of an integer is read back
as that integer.
-/

namespace StackCode.Proofs

open Text Number

/-! ### Sequences of digits -/

lemma isDigitByte_iff {b : UInt8} : isDigitByte b ↔ 48 ≤ b.toNat ∧ b.toNat ≤ 57 := by
  have hzero : (byte '0').toNat = 48 := rfl
  have hnine : (byte '9').toNat = 57 := rfl
  simp [isDigitByte, UInt8.le_iff_toNat_le, hzero, hnine]

/-- A text of digits only. -/
def AllDigits (t : Text) : Prop := ∀ b ∈ t, isDigitByte b

lemma AllDigits.append {s t : Text} (hs : AllDigits s) (ht : AllDigits t) : AllDigits (s ++ t) := by
  intro b hb
  rcases List.mem_append.mp hb with hb | hb
  · exact hs b hb
  · exact ht b hb

lemma AllDigits.subset {s t : Text} (ht : AllDigits t) (h : s ⊆ t) : AllDigits s :=
  fun b hb => ht b (h hb)

lemma allDigits_zeros (n : Nat) : AllDigits (List.replicate n (byte '0')) := by
  intro b hb
  rw [List.eq_of_mem_replicate hb]
  rfl

/-- The number that follows `n` when its digits are followed by more of them. -/
def continueWith (n : Nat) (t : Text) : Nat := t.foldl (fun n b => n * 10 + (b.toNat - 48)) n

/-- The number that digits spell. -/
def digitsValue (t : Text) : Nat := continueWith 0 t

@[simp] lemma continueWith_nil (n : Nat) : continueWith n [] = n := rfl

@[simp] lemma continueWith_cons (n : Nat) (b : UInt8) (t : Text) :
    continueWith n (b :: t) = continueWith (n * 10 + (b.toNat - 48)) t := by
  rw [continueWith, continueWith, List.foldl_cons]

lemma continueWith_append (n : Nat) (s t : Text) :
    continueWith n (s ++ t) = continueWith (continueWith n s) t := List.foldl_append

lemma continueWith_zeros (n k : Nat) :
    continueWith n (List.replicate k (byte '0')) = n * 10 ^ k := by
  have hzero : (byte '0').toNat - 48 = 0 := rfl
  induction k generalizing n with
  | zero => simp
  | succ k ih =>
    rw [List.replicate_succ, continueWith_cons, hzero, ih, pow_succ]
    ring

lemma digitsValue_append_zeros (t : Text) (k : Nat) :
    digitsValue (t ++ List.replicate k (byte '0')) = digitsValue t * 10 ^ k := by
  rw [digitsValue, continueWith_append, continueWith_zeros]
  rfl

lemma digitsValue_zeros_append (k : Nat) (t : Text) :
    digitsValue (List.replicate k (byte '0') ++ t) = digitsValue t := by
  rw [digitsValue, continueWith_append, continueWith_zeros, zero_mul]
  rfl

/-! ### The digits of a number -/

lemma ofNat_of_lt {n : Nat} (h : n < 10) : Text.ofNat n = [(48 + n).toUInt8] := by
  rw [Text.ofNat, Nat.toDigits_of_lt_base h]
  interval_cases n <;> rfl

lemma ofNat_of_le {n : Nat} (h : 10 ≤ n) :
    Text.ofNat n = Text.ofNat (n / 10) ++ [(48 + n % 10).toUInt8] := by
  have hlast := ofNat_of_lt (Nat.mod_lt n (show 10 > 0 by omega))
  rw [Text.ofNat, Nat.toDigits_of_lt_base (Nat.mod_lt n (by omega))] at hlast
  rw [Text.ofNat, Nat.toDigits_of_base_le (by omega) h, List.map_append, hlast]
  rfl

lemma toNat_digit {d : Nat} (h : d < 10) : (48 + d).toUInt8.toNat = 48 + d := by
  rw [Nat.toUInt8, UInt8.toNat_ofNat']
  omega

lemma allDigits_ofNat (n : Nat) : AllDigits (Text.ofNat n) := by
  have hdigit : ∀ d, d < 10 → AllDigits [(48 + d).toUInt8] := by
    intro d hd b hb
    rw [List.mem_singleton.mp hb, isDigitByte_iff, toNat_digit hd]
    omega
  induction n using Nat.strong_induction_on with
  | _ n ih =>
    by_cases hn : n < 10
    · rw [ofNat_of_lt hn]
      exact hdigit n hn
    · rw [ofNat_of_le (by omega)]
      exact (ih (n / 10) (by omega)).append (hdigit (n % 10) (by omega))

lemma digitsValue_ofNat (n : Nat) : digitsValue (Text.ofNat n) = n := by
  induction n using Nat.strong_induction_on with
  | _ n ih =>
    by_cases hn : n < 10
    · rw [ofNat_of_lt hn, digitsValue, continueWith_cons, toNat_digit hn, continueWith_nil]
      omega
    · rw [ofNat_of_le (by omega), digitsValue, continueWith_append]
      have hfront : continueWith 0 (Text.ofNat (n / 10)) = n / 10 := ih (n / 10) (by omega)
      rw [hfront, continueWith_cons, toNat_digit (by omega), continueWith_nil]
      omega

/-- The first digit of a positive number is not zero. -/
lemma ofNat_eq_cons {n : Nat} (hn : 0 < n) : ∃ b t, Text.ofNat n = b :: t ∧ b ≠ byte '0' := by
  induction n using Nat.strong_induction_on with
  | _ n ih =>
    by_cases hlt : n < 10
    · refine ⟨_, [], ofNat_of_lt hlt, ?_⟩
      intro hzero
      have htoNat := toNat_digit hlt
      rw [hzero] at htoNat
      have hval : (byte '0').toNat = 48 := rfl
      omega
    · obtain ⟨b, t, hbt, hb⟩ := ih (n / 10) (by omega) (by omega)
      exact ⟨b, t ++ [(48 + n % 10).toUInt8], by rw [ofNat_of_le (by omega), hbt]; rfl, hb⟩

lemma ofNat_ne_nil (n : Nat) : Text.ofNat n ≠ [] := by
  intro h
  rcases Nat.eq_zero_or_pos n with rfl | hn
  · exact absurd h (by decide)
  · obtain ⟨b, t, hbt, -⟩ := ofNat_eq_cons hn
    rw [h] at hbt
    cases hbt

lemma length_ofNat_le {n k : Nat} (hk : 0 < k) (h : n < 10 ^ k) : (Text.ofNat n).length ≤ k := by
  rw [Text.ofNat, List.length_map]
  exact (Nat.length_toDigits_le_iff (by omega) hk).mpr h

/-! ### Reading digits -/

lemma digitValue?_of_digit {b : UInt8} (h : isDigitByte b) :
    digitValue? b = some (b.toNat - 48) := by
  rw [digitValue?, if_pos h]

lemma ofDigits?_digits {t : Text} (h : AllDigits t) : ofDigits? 10 t = some (digitsValue t) := by
  have hfold : ∀ n, t.foldlM (appendDigit 10) n = some (continueWith n t) := by
    induction t with
    | nil => exact fun _ => rfl
    | cons b t ih =>
      intro n
      have hb := h b (by simp)
      have hrange := isDigitByte_iff.mp hb
      have hstep : appendDigit 10 n b = some (n * 10 + (b.toNat - 48)) := by
        simp only [appendDigit, digitValue?_of_digit hb]
        rw [if_pos (by omega)]
      rw [List.foldlM_cons, hstep]
      exact ih (fun c hc => h c (by simp [hc])) _
  exact hfold 0

lemma ofDigits?_ofNat (n : Nat) : ofDigits? 10 (Text.ofNat n) = some n := by
  rw [ofDigits?_digits (allDigits_ofNat n), digitsValue_ofNat]

lemma ne_of_digit {b c : UInt8} (hb : isDigitByte b) (hc : isDigitByte c = false) : b ≠ c := by
  rintro rfl
  rw [hb] at hc
  cases hc

lemma AllDigits.not_mem {t : Text} (ht : AllDigits t) {c : UInt8} (hc : isDigitByte c = false) :
    c ∉ t := fun hmem => ne_of_digit (ht c hmem) hc rfl

/-- A positive number announces no base but ten. -/
lemma splitBase_ofNat {n : Nat} (hn : 0 < n) : splitBase (Text.ofNat n) = (10, Text.ofNat n) := by
  obtain ⟨b, t, hbt, hb⟩ := ofNat_eq_cons hn
  rw [hbt]
  match t with
  | [] => simp [splitBase, hb]
  | [m] => simp [splitBase, hb]
  | m :: d :: rest => simp [splitBase, hb]

lemma natLiteral?_ofNat (n : Nat) : natLiteral? (Text.ofNat n) = some n := by
  rcases Nat.eq_zero_or_pos n with rfl | hn
  · decide
  · have hempty : (Text.ofNat n).isEmpty = false := by simpa using ofNat_ne_nil n
    have hmark : (Text.ofNat n).contains (byte '_') = false := by
      simpa using (allDigits_ofNat n).not_mem (by decide)
    have hplain : (Text.ofNat n).filter (· ≠ byte '_') = Text.ofNat n := by
      rw [List.filter_eq_self]
      intro b hb
      simpa using ne_of_digit (allDigits_ofNat n b hb) (by decide)
    simp only [natLiteral?, hempty, splitBase_ofNat hn, hplain, ofDigits?_ofNat, hmark]
    rfl

/-! ### Signed integers -/

lemma splitSign_digits {t : Text} (ht : AllDigits t) : splitSign t = (false, t) := by
  cases t with
  | nil => rfl
  | cons b t =>
    have hb := ht b (by simp)
    rw [splitSign, if_neg (ne_of_digit hb (by decide)), if_neg (ne_of_digit hb (by decide))]

lemma splitSign_ofInt (n : Int) :
    splitSign (Text.ofInt n) = (decide (n < 0), Text.ofNat n.natAbs) := by
  unfold Text.ofInt
  split_ifs with hneg
  · simp [splitSign, hneg]
  · simp [splitSign_digits (allDigits_ofNat _), hneg]

lemma signed?_toInt (n : Int64) : signed? (decide (n.toInt < 0)) n.toInt.natAbs = some n := by
  have hlow := n.le_toInt
  have hhigh := n.toInt_lt
  have hpow : Nat.pow 2 63 = 2 ^ 63 := rfl
  unfold signed?
  by_cases hneg : n.toInt < 0
  · have hback : -((n.toInt.natAbs : Nat) : Int) = n.toInt := by omega
    rw [if_pos (by simpa using hneg), if_pos (by omega), hback, Int64.ofInt_toInt]
  · have hback : ((n.toInt.natAbs : Nat) : Int) = n.toInt := by omega
    rw [if_neg (by simpa using hneg), if_pos (by omega), ← Int64.ofInt_eq_ofNat, hback,
      Int64.ofInt_toInt]

/-- The text of an integer is read back as that integer. -/
lemma intLiteral?_ofInt (n : Int64) : intLiteral? (Text.ofInt n.toInt) = some n := by
  simp only [intLiteral?, splitSign_ofInt, natLiteral?_ofNat, Option.bind_some, signed?_toInt]

lemma decimal?_ofInt (n : Int64) : decimal? (Text.ofInt n.toInt) = some n := by
  have hempty : (Text.ofNat n.toInt.natAbs).isEmpty = false := by simpa using ofNat_ne_nil _
  simp only [decimal?, splitSign_ofInt, hempty, ofDigits?_ofNat, Option.bind_some, signed?_toInt]
  rfl

end StackCode.Proofs
