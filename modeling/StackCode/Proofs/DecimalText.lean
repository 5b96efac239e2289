import Mathlib
import StackCode.Number.Literal
import StackCode.Number.Shortest
import StackCode.Proofs.DecimalDigits
import StackCode.Proofs.ShortestDecimal

/-!
# Decimals in text

The text of a decimal is read as digits and an exponent that stand for the same rational number, and
those are read as the binary number that the decimal rounds to.
-/

namespace StackCode.Proofs

open Text Binary64

/-! ### Significands -/

lemma hexValue?_of_digit {b : UInt8} (h : isDigitByte b) : hexValue? b = some (b.toNat - 48) := by
  have hrange : byte '0' ≤ b ∧ b ≤ byte '9' := by simpa [isDigitByte] using h
  rw [hexValue?, if_pos hrange]

lemma push?_digit (s : Significand) {b : UInt8} (h : isDigitByte b) :
    s.push? 10 b = some { s with
      value := s.value * 10 + (b.toNat - 48)
      fraction := if s.sawPoint then s.fraction + 1 else s.fraction
      sawDigit := true } := by
  have hrange := isDigitByte_iff.mp h
  rw [Significand.push?, if_neg (ne_of_digit h (by decide)), if_neg (ne_of_digit h (by decide))]
  simp only [hexValue?_of_digit h]
  rw [if_pos (by omega)]

lemma take_digits (s : Significand) {t : Text} (ht : AllDigits t) (rest : Text) :
    Significand.take 10 s (t ++ rest) = Significand.take 10
      { s with
        value := continueWith s.value t
        fraction := if s.sawPoint then s.fraction + t.length else s.fraction
        sawDigit := s.sawDigit || !t.isEmpty } rest := by
  induction t generalizing s with
  | nil => simp
  | cons b t ih =>
    rw [List.cons_append, Significand.take, push?_digit s (ht b (by simp))]
    dsimp only
    rw [ih _ (fun c hc => ht c (by simp [hc]))]
    congr 2
    · cases s.sawPoint with
      | true => simp [Nat.add_comm, Nat.add_left_comm]
      | false => simp
    · simp

/-- Digits, and after a point more of them if there are any. -/
def pointed (whole part : Text) : Text :=
  if part.isEmpty then whole else whole ++ byte '.' :: part

/-- What may follow a significand: nothing, or an exponent. -/
inductive ExponentPart : Text → Int → Prop
  | none : ExponentPart [] 0
  | some {e : Int} (he : e.natAbs < 10000) : ExponentPart (exponentText e) e

lemma take_of_exponentPart (s : Significand) {rest : Text} {e : Int} (h : ExponentPart rest e) :
    Significand.take 10 s rest = (s, rest) := by
  cases h with
  | none => rfl
  | some =>
    have hmark : s.push? 10 (byte 'e') = Option.none := by
      rw [Significand.push?, if_neg (by decide), if_neg (by decide)]
      rfl
    rw [exponentText, Significand.take, hmark]

lemma take_pointed {whole part rest : Text} {e : Int} (hwhole : AllDigits whole)
    (hpart : AllDigits part) (hne : whole ≠ []) (hrest : ExponentPart rest e) :
    ∃ point, Significand.take 10 {} (pointed whole part ++ rest) =
      (⟨digitsValue (whole ++ part), part.length, point, true⟩, rest) := by
  have hempty : whole.isEmpty = false := by simpa using hne
  unfold pointed
  cases part with
  | nil =>
    refine ⟨false, ?_⟩
    rw [if_pos List.isEmpty_nil, take_digits _ hwhole, take_of_exponentPart _ hrest]
    simp [digitsValue, hempty]
  | cons b part =>
    refine ⟨true, ?_⟩
    have hpoint : ∀ s : Significand, s.sawPoint = false →
        s.push? 10 (byte '.') = some { s with sawPoint := true } := by
      intro s hs
      rw [Significand.push?, if_neg (by decide), if_pos rfl, hs]
      rfl
    rw [if_neg (by simp), List.append_assoc, take_digits _ hwhole, List.cons_append,
      Significand.take, hpoint _ rfl]
    dsimp only
    rw [take_digits _ hpart, take_of_exponentPart _ hrest]
    simp [digitsValue, continueWith_append, hempty]

/-! ### Exponents -/

lemma le_continueWith (n : Nat) (t : Text) : n ≤ continueWith n t := by
  induction t generalizing n with
  | nil => exact le_rfl
  | cons b t ih =>
    rw [continueWith_cons]
    exact le_trans (by omega) (ih _)

/-- Below the bound an exponent is the value of its digits. -/
lemma foldl_pushExponent {t : Text} (ht : AllDigits t) {n : Nat} (h : continueWith n t < 10000) :
    t.foldl pushExponent n = continueWith n t := by
  induction t generalizing n with
  | nil => rfl
  | cons b t ih =>
    rw [continueWith_cons] at h ⊢
    have hn := le_continueWith (n * 10 + (b.toNat - 48)) t
    have hstep : pushExponent n b = n * 10 + (b.toNat - 48) := by
      rw [pushExponent, if_neg (ne_of_digit (ht b (by simp)) (by decide)), if_pos (by omega)]
    rw [List.foldl_cons, hstep, ih (fun c hc => ht c (by simp [hc])) h]

/-- The digits of an exponent, at least two of them. -/
def exponentDigits (n : Nat) : Text :=
  if (Text.ofNat n).length < 2 then byte '0' :: Text.ofNat n else Text.ofNat n

lemma exponentText_eq (e : Int) : exponentText e =
    byte 'e' :: (if e < 0 then byte '-' else byte '+') :: exponentDigits e.natAbs := rfl

lemma allDigits_exponentDigits (n : Nat) : AllDigits (exponentDigits n) := by
  unfold exponentDigits
  split_ifs
  · exact (allDigits_zeros 1).append (allDigits_ofNat n)
  · exact allDigits_ofNat n

lemma digitsValue_exponentDigits (n : Nat) : digitsValue (exponentDigits n) = n := by
  unfold exponentDigits
  split_ifs
  · exact (digitsValue_zeros_append 1 _).trans (digitsValue_ofNat n)
  · exact digitsValue_ofNat n

lemma exponentDigits_ne_nil (n : Nat) : exponentDigits n ≠ [] := by
  unfold exponentDigits
  split_ifs
  · exact List.cons_ne_nil _ _
  · exact ofNat_ne_nil n

lemma exponent?_text {e : Int} (he : e.natAbs < 10000) :
    exponent? ((if e < 0 then byte '-' else byte '+') :: exponentDigits e.natAbs) = some e := by
  have hsign : Number.splitSign
      ((if e < 0 then byte '-' else byte '+') :: exponentDigits e.natAbs) =
        (decide (e < 0), exponentDigits e.natAbs) := by
    by_cases hneg : e < 0
    · simp [Number.splitSign, hneg]
    · simp [Number.splitSign, hneg, show byte '+' ≠ byte '-' by decide]
  have hdigits := allDigits_exponentDigits e.natAbs
  have hvalue : (exponentDigits e.natAbs).foldl pushExponent 0 = e.natAbs := by
    have hcontinue : continueWith 0 (exponentDigits e.natAbs) = e.natAbs :=
      digitsValue_exponentDigits _
    rw [foldl_pushExponent hdigits (by omega), hcontinue]
  unfold exponent?
  rw [hsign]
  cases hcons : exponentDigits e.natAbs with
  | nil => exact absurd hcons (exponentDigits_ne_nil _)
  | cons d ds =>
    rw [hcons] at hdigits hvalue
    have hall : (d :: ds).all (fun b => isDigitByte b || b = byte '_') = true := by
      rw [List.all_eq_true]
      intro b hb
      simp [hdigits b hb]
    dsimp only
    rw [if_pos (by rw [hall, hdigits d (by simp)]; rfl), hvalue]
    congr 1
    simp only [decide_eq_true_iff]
    split_ifs with hneg <;> omega

/-! ### Reading a decimal -/

/-- What the text of a number consists of. -/
def isNumeral (b : UInt8) : Bool :=
  isDigitByte b || b = byte '.' || b = byte 'e' || b = byte '+' || b = byte '-'

lemma isNumeral_of_digit {b : UInt8} (h : isDigitByte b) : isNumeral b := by simp [isNumeral, h]

lemma isNumeral_pointed {whole part : Text} (hwhole : AllDigits whole) (hpart : AllDigits part) :
    ∀ b ∈ pointed whole part, isNumeral b := by
  intro b hb
  unfold pointed at hb
  split_ifs at hb
  · exact isNumeral_of_digit (hwhole b hb)
  · rcases List.mem_append.mp hb with hb | hb
    · exact isNumeral_of_digit (hwhole b hb)
    · rcases List.mem_cons.mp hb with rfl | hb
      · rfl
      · exact isNumeral_of_digit (hpart b hb)

lemma ExponentPart.isNumeral {rest : Text} {e : Int} (h : ExponentPart rest e) :
    ∀ b ∈ rest, isNumeral b := by
  cases h with
  | none => simp
  | some =>
    rw [exponentText_eq]
    intro b hb
    rcases List.mem_cons.mp hb with rfl | hb
    · rfl
    · rcases List.mem_cons.mp hb with rfl | hb
      · split_ifs <;> rfl
      · exact isNumeral_of_digit (allDigits_exponentDigits _ b hb)

lemma ne_of_isNumeral {b c : UInt8} (hb : isNumeral b) (hc : isNumeral c = false) : b ≠ c := by
  rintro rfl
  rw [hb] at hc
  cases hc

/-- A text without letters but `e` announces no hexadecimal number. -/
lemma lowerByte_ne_of_isNumeral {b : UInt8} (hb : isNumeral b) : lowerByte b ≠ byte 'x' := by
  rcases Bool.or_eq_true_iff.mp hb with hb | hb
  on_goal 1 => rcases Bool.or_eq_true_iff.mp hb with hb | hb
  on_goal 1 => rcases Bool.or_eq_true_iff.mp hb with hb | hb
  on_goal 1 => rcases Bool.or_eq_true_iff.mp hb with hb | hb
  · have hrange := isDigitByte_iff.mp hb
    have hcase : ¬(byte 'A' ≤ b ∧ b ≤ byte 'Z') := by
      rintro ⟨hlow, -⟩
      rw [UInt8.le_iff_toNat_le] at hlow
      have hval : (byte 'A').toNat = 65 := rfl
      omega
    rw [lowerByte, if_neg hcase]
    exact ne_of_digit hb (by decide)
  all_goals
    rw [decide_eq_true_iff] at hb
    rw [hb]
    decide

/-- A decimal is read as its digits and exponent say. -/
lemma finite?_pointed (negative : Bool) {whole part rest : Text} {e : Int}
    (hwhole : AllDigits whole) (hpart : AllDigits part) (hne : whole ≠ [])
    (hrest : ExponentPart rest e) :
    finite? negative (pointed whole part ++ rest) =
      scaled? negative 10 (digitsValue (whole ++ part)) (e - part.length) := by
  obtain ⟨point, htake⟩ := take_pointed hwhole hpart hne hrest
  have hnumeral : ∀ b ∈ pointed whole part ++ rest, isNumeral b := by
    intro b hb
    rcases List.mem_append.mp hb with hb | hb
    · exact isNumeral_pointed hwhole hpart b hb
    · exact hrest.isNumeral b hb
  generalize pointed whole part ++ rest = t at htake hnumeral
  unfold finite?
  extract_lets hex base mark
  have hhex : hex = false := by
    clear htake base mark
    rcases t with _ | ⟨z, _ | ⟨m, _ | ⟨_, _⟩⟩⟩
    · rfl
    · rfl
    · rfl
    · simp [hex, lowerByte_ne_of_isNumeral (hnumeral m (by simp))]
  have hbase : base = 10 := by simp [base, hhex]
  have hmark : mark = byte 'e' := by simp [mark, hhex]
  rw [hhex, hbase, hmark]
  simp only [Bool.false_eq_true, if_false, htake, Bool.not_true]
  cases hrest with
  | none => rfl
  | some he =>
    rw [exponentText_eq]
    simp only [show lowerByte (byte 'e') = byte 'e' from rfl, if_true, exponent?_text he]

lemma toLower_ne_of_digit {d : UInt8} (hd : isDigitByte d) {c : UInt8} (hc : isDigitByte c = false)
    (t s : Text) : toLower (d :: t) ≠ c :: s := by
  have hlower : lowerByte d = d := by
    have hrange := isDigitByte_iff.mp hd
    rw [lowerByte, if_neg]
    rintro ⟨hlow, -⟩
    rw [UInt8.le_iff_toNat_le] at hlow
    have hval : (byte 'A').toNat = 65 := rfl
    omega
  intro heq
  rw [toLower, List.map_cons, hlower] at heq
  exact ne_of_digit hd hc (List.cons.inj heq).1

/-- A sign, which is written only if it is a minus. -/
def signText (negative : Bool) : Text := if negative then [byte '-'] else []

lemma literal?_pointed (negative : Bool) {whole part rest : Text} {e : Int}
    (hwhole : AllDigits whole) (hpart : AllDigits part) (hne : whole ≠ [])
    (hrest : ExponentPart rest e) :
    literal? (signText negative ++ (pointed whole part ++ rest)) =
      scaled? negative 10 (digitsValue (whole ++ part)) (e - part.length) := by
  obtain ⟨d, whole', rfl⟩ := List.exists_cons_of_ne_nil hne
  have hd := hwhole d (by simp)
  obtain ⟨t, ht⟩ : ∃ t, pointed (d :: whole') part ++ rest = d :: t := by
    unfold pointed
    split_ifs <;> exact ⟨_, rfl⟩
  have hnumeral : ∀ b ∈ d :: t, isNumeral b := by
    rw [← ht]
    intro b hb
    rcases List.mem_append.mp hb with hb | hb
    · exact isNumeral_pointed hwhole hpart b hb
    · exact hrest.isNumeral b hb
  rw [← finite?_pointed negative hwhole hpart hne hrest, ht]
  have hsplit : Number.splitSign (signText negative ++ d :: t) = (negative, d :: t) := by
    cases negative with
    | true => rfl
    | false =>
      rw [show signText false ++ d :: t = d :: t from rfl, Number.splitSign,
        if_neg (ne_of_digit hd (by decide)), if_neg (ne_of_digit hd (by decide))]
  -- the first byte is a digit, so the text is none of the names
  have hnan : toLower (signText negative ++ d :: t) ≠ Text.ofString "nan" := by
    cases negative with
    | true =>
      intro heq
      rw [show signText true = [byte '-'] from rfl, toLower, List.cons_append, List.map_cons] at heq
      exact absurd (List.cons.inj heq).1 (by decide)
    | false => exact toLower_ne_of_digit hd (c := byte 'n') (by decide) t [byte 'a', byte 'n']
  have hseparator : (signText negative ++ d :: t).contains (byte '_') = false := by
    rw [List.contains_eq_mem, decide_eq_false_iff_not]
    intro hmem
    rcases List.mem_append.mp hmem with hmem | hmem
    · cases negative with
      | true => exact absurd hmem (by decide)
      | false => cases hmem
    · exact ne_of_isNumeral (hnumeral _ hmem) (by decide) rfl
  unfold literal?
  rw [hsplit]
  dsimp only
  rw [if_neg, if_neg hnan, hseparator]
  · rfl
  · rintro (heq | heq)
    · exact toLower_ne_of_digit hd (c := byte 'i') (by decide) t _ heq
    · exact toLower_ne_of_digit hd (c := byte 'i') (by decide) t _ heq

/-! ### The text of a decimal -/

/-- The digits of a positive number, and the zeros at their end that are not written. -/
lemma digitsOf_spec {n : Nat} (hn : 0 < n) :
    ∃ z, Text.ofNat n = digitsOf n ++ List.replicate z (byte '0') ∧ digitsOf n ≠ [] := by
  obtain ⟨b, t, hbt, hb⟩ := ofNat_eq_cons hn
  have hzeros : ((Text.ofNat n).reverse.takeWhile (· = byte '0')).reverse =
      List.replicate ((Text.ofNat n).reverse.takeWhile (· = byte '0')).length (byte '0') := by
    rw [List.eq_replicate_iff]
    refine ⟨List.length_reverse, fun c hc => ?_⟩
    simpa using List.mem_takeWhile_imp (List.mem_reverse.mp hc)
  have hsplit : Text.ofNat n =
      digitsOf n ++ ((Text.ofNat n).reverse.takeWhile (· = byte '0')).reverse := by
    rw [digitsOf, ← List.reverse_append, List.takeWhile_append_dropWhile, List.reverse_reverse]
  refine ⟨_, hsplit.trans (by rw [hzeros]), fun hnil => hb ?_⟩
  rw [hnil, hzeros, hbt, List.nil_append] at hsplit
  exact List.eq_of_mem_replicate (hsplit ▸ List.mem_cons_self)

lemma length_ofNat_bounds {n : Nat} (hn : 0 < n) :
    10 ^ ((Text.ofNat n).length - 1) ≤ n ∧ n < 10 ^ (Text.ofNat n).length := by
  have hlength : 0 < (Text.ofNat n).length := List.length_pos_iff.mpr (ofNat_ne_nil n)
  constructor
  · by_contra hlt
    rcases Nat.eq_zero_or_pos ((Text.ofNat n).length - 1) with hone | hmore
    · rw [hone, pow_zero] at hlt
      omega
    · have := length_ofNat_le hmore (not_le.mp hlt)
      omega
  · rw [Text.ofNat, List.length_map]
    exact (Nat.length_toDigits_le_iff (by norm_num)
      (by rw [Text.ofNat, List.length_map] at hlength; exact hlength)).mp le_rfl

/-- A text as digits, maybe with a point, and maybe an exponent, that spells the number `v`. -/
structure SpellsDecimal (t : Text) (v : ℚ) : Prop where
  shape : ∃ whole part rest e, AllDigits whole ∧ AllDigits part ∧ whole ≠ [] ∧
    ExponentPart rest e ∧ t = pointed whole part ++ rest ∧
    (digitsValue (whole ++ part) : ℚ) * 10 ^ (e - part.length : Int) = v

lemma ten_zpow_add (a b : Int) : (10 : ℚ) ^ (a + b) = 10 ^ a * 10 ^ b :=
  zpow_add₀ (by norm_num) a b

lemma decimal_text_eq (d : Decimal) {ds : Text} (hds : digitsOf d.digits = ds) {e : Int}
    (he : ((Text.ofNat d.digits).length - 1 + d.exponent : Int) = e) :
    d.text = if e < -4 ∨ 6 ≤ e then pointed (ds.take 1) (ds.drop 1) ++ exponentText e
      else if e < 0 then pointed [byte '0'] (List.replicate (-e - 1).toNat (byte '0') ++ ds)
      else pointed (ds.take (e.toNat + 1) ++ List.replicate (e.toNat + 1 - ds.length) (byte '0'))
        (ds.drop (e.toNat + 1)) := by
  subst hds he
  rfl

section Layouts

variable {ds : Text} (hdigits : AllDigits ds)
include hdigits

/-- One digit before the point, and an exponent. -/
lemma spells_scientific (hne : ds ≠ []) {e : Int} (he : e.natAbs < 10000) :
    SpellsDecimal (pointed (ds.take 1) (ds.drop 1) ++ exponentText e)
      (digitsValue ds * 10 ^ (e + 1 - ds.length)) := by
  have hpos := List.length_pos_iff.mpr hne
  refine ⟨ds.take 1, ds.drop 1, exponentText e, e, hdigits.subset (List.take_subset 1 ds),
    hdigits.subset (List.drop_subset 1 ds), by simpa using hne, .some he, rfl, ?_⟩
  rw [List.take_append_drop, List.length_drop]
  congr 2
  omega

/-- A number below one, with zeros after its point. -/
lemma spells_fraction {e : Int} (he : e < 0) :
    SpellsDecimal (pointed [byte '0'] (List.replicate (-e - 1).toNat (byte '0') ++ ds))
      (digitsValue ds * 10 ^ (e + 1 - ds.length)) := by
  refine ⟨[byte '0'], List.replicate (-e - 1).toNat (byte '0') ++ ds, [], 0, allDigits_zeros 1,
    (allDigits_zeros _).append hdigits, List.cons_ne_nil _ _, .none, by rw [List.append_nil], ?_⟩
  have hfront : digitsValue ([byte '0'] ++ (List.replicate (-e - 1).toNat (byte '0') ++ ds)) =
      digitsValue ds := by
    rw [show [byte '0'] = List.replicate 1 (byte '0') from rfl, digitsValue_zeros_append,
      digitsValue_zeros_append]
  rw [hfront, List.length_append, List.length_replicate]
  congr 2
  omega

/-- Digits before the point, filled up with zeros, and the others after it. -/
lemma spells_positional (hne : ds ≠ []) {e : Int} (he : 0 ≤ e) :
    SpellsDecimal
      (pointed (ds.take (e.toNat + 1) ++ List.replicate (e.toNat + 1 - ds.length) (byte '0'))
        (ds.drop (e.toNat + 1)))
      (digitsValue ds * 10 ^ (e + 1 - ds.length)) := by
  refine ⟨ds.take (e.toNat + 1) ++ List.replicate (e.toNat + 1 - ds.length) (byte '0'),
    ds.drop (e.toNat + 1), [], 0, (hdigits.subset (List.take_subset _ ds)).append (allDigits_zeros _),
    hdigits.subset (List.drop_subset _ ds), by simp [hne], .none, by rw [List.append_nil], ?_⟩
  rcases le_or_gt ds.length (e.toNat + 1) with hshort | hlong
  · rw [List.take_of_length_le hshort, List.drop_eq_nil_of_le hshort, List.append_nil,
      digitsValue_append_zeros, Nat.cast_mul, mul_assoc]
    congr 1
    push_cast
    rw [← zpow_natCast, ← ten_zpow_add]
    congr 1
    simp
    omega
  · rw [show e.toNat + 1 - ds.length = 0 by omega, List.replicate_zero, List.append_nil,
      List.take_append_drop, List.length_drop]
    congr 2
    omega

end Layouts

lemma decimal_text_spells {d : Decimal} (hd : 0 < d.digits)
    (he : ((Text.ofNat d.digits).length - 1 + d.exponent : Int).natAbs < 10000) :
    SpellsDecimal d.text (d.digits * 10 ^ d.exponent) := by
  obtain ⟨z, hz, hne⟩ := digitsOf_spec hd
  have hdigits : AllDigits (digitsOf d.digits) := by
    apply (allDigits_ofNat d.digits).subset
    rw [hz]
    exact List.subset_append_left _ _
  have hlength : (Text.ofNat d.digits).length = (digitsOf d.digits).length + z := by
    rw [hz, List.length_append, List.length_replicate]
  generalize hexp : ((Text.ofNat d.digits).length - 1 + d.exponent : Int) = e at he
  -- the number without the zeros at the end of its digits
  have hvalue : (d.digits : ℚ) * 10 ^ d.exponent =
      digitsValue (digitsOf d.digits) * 10 ^ (e + 1 - (digitsOf d.digits).length) := by
    have hnat : d.digits = digitsValue (digitsOf d.digits) * 10 ^ z := by
      rw [← digitsValue_append_zeros, ← hz, digitsValue_ofNat]
    have hrat : (d.digits : ℚ) = digitsValue (digitsOf d.digits) * 10 ^ z := by exact_mod_cast hnat
    rw [show e + 1 - (digitsOf d.digits).length = z + d.exponent by omega, hrat, ten_zpow_add,
      zpow_natCast, mul_assoc]
  rw [decimal_text_eq d rfl hexp, hvalue]
  split_ifs with hfar hsmall
  · exact spells_scientific hdigits hne he
  · exact spells_fraction hdigits hsmall
  · exact spells_positional hdigits hne (by omega)

/-! ### The value of a decimal -/

lemma ten_zpow_le_two {e : Int} (he : e ≤ 0) : (10 : ℚ) ^ e ≤ 2 ^ (3 * e) := by
  obtain ⟨k, hk⟩ := Int.eq_ofNat_of_zero_le (show 0 ≤ -e by omega)
  obtain rfl : e = -(k : Int) := by omega
  rw [zpow_neg, zpow_natCast, mul_neg, zpow_neg, ← Nat.cast_ofNat (n := 3), ← Nat.cast_mul,
    zpow_natCast, pow_mul]
  apply inv_anti₀ (by positivity)
  exact pow_le_pow_left₀ (by norm_num) (by norm_num) k

/-- Digits and an exponent that round to a finite number are read as that number. -/
lemma scaled?_of_roundsTo (negative : Bool) {m : Nat} {q : Int} (hr : Representable m q)
    {value : Nat} {e : Int} (h : RoundsTo m q (value * 10 ^ e)) :
    scaled? negative 10 value e = some (compose negative m (q + 1074).toNat) := by
  have hlow := hr.low
  have hhigh := hr.high
  have hvalue : 0 < value := by
    rcases Nat.eq_zero_or_pos value with rfl | hpos
    · have := h.pos hr
      simp at this
    · exact hpos
  have hsmall : ¬(value = 0 ∨ (e < 0 ∧ (Nat.log2 value : Int) + 3 * e < -4000)) := by
    rintro (hzero | ⟨hneg, hbits⟩)
    · omega
    · have hbound : (value : ℚ) * 10 ^ e < 2 ^ ((Nat.log2 value : Int) + 1 + 3 * e) := by
        rw [two_zpow_add]
        exact mul_lt_mul (log2_bounds hvalue).2 (ten_zpow_le_two hneg.le) (by positivity)
          (by positivity)
      have := two_zpow_lt_iff.mp ((h.half_le hr).trans_lt hbound)
      omega
  have hlarge : ¬40000 < e := by
    intro hlt
    have hone : (1 : ℚ) ≤ value := by exact_mod_cast hvalue
    have hpow : (2 : ℚ) ^ e ≤ value * 10 ^ e := by
      calc (2 : ℚ) ^ e ≤ 10 ^ e := zpow_le_zpow_left₀ (by omega) (by norm_num) (by norm_num)
        _ ≤ value * 10 ^ e := le_mul_of_one_le_left (by positivity) hone
    have := two_zpow_lt_iff.mp (hpow.trans_lt (h.lt_pow hr))
    omega
  unfold scaled?
  dsimp only
  rw [if_pos rfl, if_neg hsmall, if_neg hlarge]
  have hratio := ratio_eq_zpow (show 0 < 10 by norm_num) value e
  rw [Nat.cast_ofNat] at hratio
  exact ofRatio?_of_roundsTo (Nat.pow_pos (by norm_num)) hr (hratio ▸ h)

end StackCode.Proofs
