import Mathlib
import StackCode.Text.Rune

/-!
# Runes and their bytes

The runes of a text spell it. A character takes exactly its UTF-8 bytes, whatever follows them, and
a byte that starts no character stands alone; so a text without stray bytes is well-formed UTF-8.
-/

namespace StackCode.Proofs

open Text Rune

/-! ### The bytes of a character -/

/-- The well-formed byte sequences, each with the code point that it stands for. -/
inductive Spells : Text → Nat → Prop
  | one {a : UInt8} (ha : a.toNat < 0x80) : Spells [a] a.toNat
  | two {a b : UInt8} (ha : 0xC2 ≤ a.toNat ∧ a.toNat ≤ 0xDF)
      (hb : 0x80 ≤ b.toNat ∧ b.toNat ≤ 0xBF) :
    Spells [a, b] ((a.toNat - 0xC0) * 64 + (b.toNat - 0x80))
  | three {a b c : UInt8} (ha : 0xE0 ≤ a.toNat ∧ a.toNat ≤ 0xEF)
      (hb : 0x80 ≤ b.toNat ∧ b.toNat ≤ 0xBF) (hc : 0x80 ≤ c.toNat ∧ c.toNat ≤ 0xBF)
      (hlong : a.toNat = 0xE0 → 0xA0 ≤ b.toNat) (hsurrogate : a.toNat = 0xED → b.toNat ≤ 0x9F) :
    Spells [a, b, c] (((a.toNat - 0xE0) * 64 + (b.toNat - 0x80)) * 64 + (c.toNat - 0x80))
  | four {a b c d : UInt8} (ha : 0xF0 ≤ a.toNat ∧ a.toNat ≤ 0xF4)
      (hb : 0x80 ≤ b.toNat ∧ b.toNat ≤ 0xBF) (hc : 0x80 ≤ c.toNat ∧ c.toNat ≤ 0xBF)
      (hd : 0x80 ≤ d.toNat ∧ d.toNat ≤ 0xBF) (hlong : a.toNat = 0xF0 → 0x90 ≤ b.toNat)
      (hlast : a.toNat = 0xF4 → b.toNat ≤ 0x8F) :
    Spells [a, b, c, d] ((((a.toNat - 0xF0) * 64 + (b.toNat - 0x80)) * 64 + (c.toNat - 0x80)) * 64 +
      (d.toNat - 0x80))

lemma toNat_ofNat_of_lt {n : Nat} (h : n < 256) : (UInt8.ofNat n).toNat = n := by
  rw [UInt8.toNat_ofNat']
  omega

lemma toNat_char_lt (c : Char) : c.toNat < 0xD800 ∨ 0xDFFF < c.toNat ∧ c.toNat < 0x110000 := c.valid

/-- A character's UTF-8 bytes are a well-formed sequence for it. -/
lemma spells_encode (c : Char) : Spells (String.utf8EncodeChar c) c.toNat := by
  have hvalid := toNat_char_lt c
  have hval : c.val.toNat = c.toNat := rfl
  unfold String.utf8EncodeChar
  simp only [hval]
  generalize c.toNat = n at hvalid
  split_ifs with hone htwo hthree
  · have ha := toNat_ofNat_of_lt (show n < 256 by omega)
    have hspells := Spells.one (a := UInt8.ofNat n) (by omega)
    rwa [ha] at hspells
  · have ha := toNat_ofNat_of_lt (show n / 64 % 32 + 0xC0 < 256 by omega)
    have hb := toNat_ofNat_of_lt (show n % 64 + 0x80 < 256 by omega)
    convert Spells.two (a := UInt8.ofNat (n / 64 % 32 + 0xC0)) (b := UInt8.ofNat (n % 64 + 0x80))
      (by omega) (by omega) using 1
    omega
  · have ha := toNat_ofNat_of_lt (show n / 4096 % 16 + 0xE0 < 256 by omega)
    have hb := toNat_ofNat_of_lt (show n / 64 % 64 + 0x80 < 256 by omega)
    have hc := toNat_ofNat_of_lt (show n % 64 + 0x80 < 256 by omega)
    convert Spells.three (a := UInt8.ofNat (n / 4096 % 16 + 0xE0))
      (b := UInt8.ofNat (n / 64 % 64 + 0x80)) (c := UInt8.ofNat (n % 64 + 0x80))
      (by omega) (by omega) (by omega) (by omega) (by omega) using 1
    omega
  · have ha := toNat_ofNat_of_lt (show n / 262144 % 8 + 0xF0 < 256 by omega)
    have hb := toNat_ofNat_of_lt (show n / 4096 % 64 + 0x80 < 256 by omega)
    have hc := toNat_ofNat_of_lt (show n / 64 % 64 + 0x80 < 256 by omega)
    have hd := toNat_ofNat_of_lt (show n % 64 + 0x80 < 256 by omega)
    convert Spells.four (a := UInt8.ofNat (n / 262144 % 8 + 0xF0))
      (b := UInt8.ofNat (n / 4096 % 64 + 0x80)) (c := UInt8.ofNat (n / 64 % 64 + 0x80))
      (d := UInt8.ofNat (n % 64 + 0x80))
      (by omega) (by omega) (by omega) (by omega) (by omega) (by omega) using 1
    omega

lemma toNat_charOfNat {n : Nat} (h : n < 0xD800 ∨ 0xDFFF < n ∧ n < 0x110000) :
    (Char.ofNat n).toNat = n := by
  rw [Char.ofNat, dif_pos h]
  exact Char.toNat_ofNatAux h

lemma ofNat_eq_of_toNat {a : UInt8} {n : Nat} (h : n = a.toNat) : UInt8.ofNat n = a := by
  rw [h, UInt8.ofNat_toNat]

/-- Only the UTF-8 bytes of a character are a well-formed sequence for it. -/
lemma Spells.eq_encode {bs : Text} {n : Nat} (h : Spells bs n) :
    (Char.ofNat n).toNat = n ∧ bs = String.utf8EncodeChar (Char.ofNat n) := by
  have hscalar : n < 0xD800 ∨ 0xDFFF < n ∧ n < 0x110000 := by
    cases h <;> omega
  have hchar := toNat_charOfNat hscalar
  have hval : (Char.ofNat n).val.toNat = n := hchar
  refine ⟨hchar, ?_⟩
  unfold String.utf8EncodeChar
  simp only [hval]
  cases h with
  | one ha => rw [if_pos (by omega), ofNat_eq_of_toNat rfl]
  | @two a b ha hb =>
    rw [if_neg (by omega), if_pos (by omega), ofNat_eq_of_toNat (a := a) (by omega),
      ofNat_eq_of_toNat (a := b) (by omega)]
  | @three a b c ha hb hc hlong hsurrogate =>
    rw [if_neg (by omega), if_neg (by omega), if_pos (by omega),
      ofNat_eq_of_toNat (a := a) (by omega), ofNat_eq_of_toNat (a := b) (by omega),
      ofNat_eq_of_toNat (a := c) (by omega)]
  | @four a b c d ha hb hc hd hlong hlast =>
    rw [if_neg (by omega), if_neg (by omega), if_neg (by omega),
      ofNat_eq_of_toNat (a := a) (by omega), ofNat_eq_of_toNat (a := b) (by omega),
      ofNat_eq_of_toNat (a := c) (by omega), ofNat_eq_of_toNat (a := d) (by omega)]

/-! ### The first rune of a text -/

lemma isTail_iff {b : UInt8} : isTail b = true ↔ 0x80 ≤ b.toNat ∧ b.toNat ≤ 0xBF := by
  simp [isTail, UInt8.le_iff_toNat_le]

lemma startsThree_iff {b c : UInt8} : startsThree b c = true ↔
    (0x80 ≤ c.toNat ∧ c.toNat ≤ 0xBF) ∧ (0xE0 ≤ b.toNat ∧ b.toNat ≤ 0xEF) ∧
      (b.toNat = 0xE0 → 0xA0 ≤ c.toNat) ∧ (b.toNat = 0xED → c.toNat ≤ 0x9F) := by
  simp [startsThree, isTail_iff, UInt8.le_iff_toNat_le, UInt8.lt_iff_toNat_lt, ← UInt8.toNat_inj]
  omega

lemma startsFour_iff {b c : UInt8} : startsFour b c = true ↔
    (0x80 ≤ c.toNat ∧ c.toNat ≤ 0xBF) ∧ (0xF0 ≤ b.toNat ∧ b.toNat ≤ 0xF4) ∧
      (b.toNat = 0xF0 → 0x90 ≤ c.toNat) ∧ (b.toNat = 0xF4 → c.toNat ≤ 0x8F) := by
  simp [startsFour, isTail_iff, UInt8.le_iff_toNat_le, UInt8.lt_iff_toNat_lt, ← UInt8.toNat_inj]
  omega

lemma leadsTwo_iff {b c : UInt8} : (0xC2 ≤ b && b ≤ 0xDF && isTail c) = true ↔
    (0xC2 ≤ b.toNat ∧ b.toNat ≤ 0xDF) ∧ 0x80 ≤ c.toNat ∧ c.toNat ≤ 0xBF := by
  simp [isTail_iff, UInt8.le_iff_toNat_le]

/-- A well-formed sequence at the start of a text is its first rune, whatever follows. -/
lemma Spells.lead {b : UInt8} {bs : Text} {n : Nat} (h : Spells (b :: bs) n) (rest : Text) :
    lead b (bs ++ rest) = .scalar (Char.ofNat n) := by
  have hascii : b < 0x80 ↔ b.toNat < 0x80 := UInt8.lt_iff_toNat_lt
  unfold Rune.lead
  cases h with
  | one ha =>
    rw [if_pos (hascii.mpr ha)]
    rfl
  | @two a b ha hb =>
    rw [if_neg (by rw [hascii]; omega)]
    simp only [List.cons_append, List.nil_append]
    rw [if_pos (leadsTwo_iff.mpr ⟨ha, hb⟩)]
    rfl
  | @three a b c ha hb hc hlong hsurrogate =>
    rw [if_neg (by rw [hascii]; omega)]
    simp only [List.cons_append, List.nil_append]
    rw [if_neg (by rw [leadsTwo_iff]; omega), if_pos]
    · rfl
    · simp only [Bool.and_eq_true, startsThree_iff, isTail_iff]
      exact ⟨⟨hb, ha, hlong, hsurrogate⟩, hc⟩
  | @four a b c d ha hb hc hd hlong hlast =>
    rw [if_neg (by rw [hascii]; omega)]
    simp only [List.cons_append, List.nil_append]
    rw [if_neg (by rw [leadsTwo_iff]; omega), if_neg, if_pos]
    · rfl
    · simp only [Bool.and_eq_true, startsFour_iff, isTail_iff]
      exact ⟨⟨⟨hb, ha, hlong, hlast⟩, hc⟩, hd⟩
    · simp only [Bool.and_eq_true, startsThree_iff, isTail_iff]
      omega

/-- The first byte of a text stands alone unless a well-formed sequence starts there. -/
lemma lead_cases (b : UInt8) (rest : Text) :
    lead b rest = .stray b ∨ ∃ bs n rest', Spells (b :: bs) n ∧ rest = bs ++ rest' := by
  unfold Rune.lead
  split_ifs with hone
  · exact .inr ⟨[], b.toNat, rest, .one (UInt8.lt_iff_toNat_lt.mp hone), rfl⟩
  -- each longer form is tried in turn; a text that ends too early leaves the byte alone
  · cases rest with
    | nil => exact .inl rfl
    | cons c rest =>
      simp only
      split_ifs with htwo
      · obtain ⟨hb, hc⟩ := leadsTwo_iff.mp htwo
        exact .inr ⟨[c], _, rest, .two hb hc, rfl⟩
      · cases rest with
        | nil => exact .inl rfl
        | cons d rest =>
          simp only
          split_ifs with hthree
          · simp only [Bool.and_eq_true, startsThree_iff, isTail_iff] at hthree
            obtain ⟨⟨hc, hb, hlong, hsurrogate⟩, hd⟩ := hthree
            exact .inr ⟨[c, d], _, rest, .three hb hc hd hlong hsurrogate, rfl⟩
          · cases rest with
            | nil => exact .inl rfl
            | cons e rest =>
              simp only
              split_ifs with hfour
              · simp only [Bool.and_eq_true, startsFour_iff, isTail_iff] at hfour
                obtain ⟨⟨⟨hc, hb, hlong, hlast⟩, hd⟩, he⟩ := hfour
                exact .inr ⟨[c, d, e], _, rest, .four hb hc hd he hlong hlast, rfl⟩
              · exact .inl rfl

/-! ### All runes -/

lemma runesFrom_eq (skip : Nat) (t : Text) : runesFrom skip t = runes (t.drop skip) := by
  induction t generalizing skip with
  | nil => cases skip <;> rfl
  | cons b t ih =>
    cases skip with
    | zero => rfl
    | succ skip => exact ih skip

lemma runes_cons (b : UInt8) (t : Text) :
    runes (b :: t) = lead b t :: runes (t.drop ((lead b t).width - 1)) := by
  rw [← runesFrom_eq]
  rfl

/-- The character in front of any text is its first rune. -/
lemma runes_char_append (c : Char) (rest : Text) :
    runes (String.utf8EncodeChar c ++ rest) = .scalar c :: runes rest := by
  have hspells := spells_encode c
  cases hbytes : String.utf8EncodeChar c with
  | nil =>
    rw [hbytes] at hspells
    cases hspells
  | cons b bs =>
    rw [hbytes] at hspells
    have hwidth : (Rune.scalar c).width - 1 = bs.length := by
      rw [Rune.width, Rune.bytes, hbytes, List.length_cons, Nat.add_sub_cancel]
    rw [List.cons_append, runes_cons, hspells.lead, Char.ofNat_toNat, hwidth, List.drop_left]

lemma runes_stray {b : UInt8} {rest : Text} (h : lead b rest = .stray b) :
    runes (b :: rest) = .stray b :: runes rest := by
  rw [runes_cons, h]
  rfl

lemma runes_ascii_cons {b : UInt8} (hb : b.toNat < 0x80) (rest : Text) :
    runes (b :: rest) = .scalar (Char.ofNat b.toNat) :: runes rest := by
  have hbytes := (Spells.one hb).eq_encode.2
  have hrunes := runes_char_append (Char.ofNat b.toNat) rest
  rwa [← hbytes] at hrunes

/-- Induction over the runes of a text. -/
lemma runes_induction {motive : Text → Prop} (nil : motive [])
    (scalar : ∀ c rest, motive rest → motive (String.utf8EncodeChar c ++ rest))
    (stray : ∀ b rest, lead b rest = .stray b → motive rest → motive (b :: rest)) (t : Text) :
    motive t := by
  induction hlength : t.length using Nat.strong_induction_on generalizing t with
  | _ k ih =>
    cases t with
    | nil => exact nil
    | cons b rest =>
      rw [List.length_cons] at hlength
      rcases lead_cases b rest with hstray | ⟨bs, n, rest', hspells, rfl⟩
      · exact stray b rest hstray (ih rest.length (by omega) rest rfl)
      · rw [List.length_append] at hlength
        have hrest := scalar (Char.ofNat n) rest' (ih rest'.length (by omega) rest' rfl)
        rwa [← hspells.eq_encode.2] at hrest

/-- The runes of a text spell it. -/
lemma flatMap_bytes_runes (t : Text) : t.runes.flatMap Rune.bytes = t := by
  induction t using runes_induction with
  | nil => rfl
  | scalar c rest ih => rw [runes_char_append, List.flatMap_cons, ih, Rune.bytes]
  | stray b rest hstray ih => rw [runes_stray hstray, List.flatMap_cons, ih]; rfl

lemma isUtf8_char_append (c : Char) (rest : Text) :
    isUtf8 (String.utf8EncodeChar c ++ rest) = isUtf8 rest := by
  simp [isUtf8, runes_char_append, isScalar]

lemma not_isUtf8_of_stray {b : UInt8} {rest : Text} (h : lead b rest = .stray b) :
    isUtf8 (b :: rest) = false := by
  simp [isUtf8, runes_stray h, isScalar]

lemma runes_append_of_isUtf8 {t : Text} (ht : t.isUtf8) (rest : Text) :
    runes (t ++ rest) = runes t ++ runes rest := by
  induction t using runes_induction with
  | nil => rfl
  | scalar c t ih =>
    rw [isUtf8_char_append] at ht
    rw [List.append_assoc, runes_char_append, runes_char_append, ih ht, List.cons_append]
  | stray b t hstray _ =>
    rw [not_isUtf8_of_stray hstray] at ht
    cases ht

/-- A text is well-formed if it consists of the UTF-8 bytes of some characters. -/
lemma isUtf8_iff_exists {t : Text} :
    t.isUtf8 ↔ ∃ cs : List Char, t = cs.flatMap String.utf8EncodeChar := by
  constructor
  · intro h
    induction t using runes_induction with
    | nil => exact ⟨[], rfl⟩
    | scalar c rest ih =>
      rw [isUtf8_char_append] at h
      obtain ⟨cs, hcs⟩ := ih h
      exact ⟨c :: cs, by rw [List.flatMap_cons, hcs]⟩
    | stray b rest hstray _ =>
      rw [not_isUtf8_of_stray hstray] at h
      cases h
  · rintro ⟨cs, rfl⟩
    induction cs with
    | nil => rfl
    | cons c cs ih => rw [List.flatMap_cons, isUtf8_char_append, ih]

lemma isUtf8_iff_valid {t : Text} : t.isUtf8 ↔ t.toByteArray.IsValidUTF8 := by
  rw [isUtf8_iff_exists]
  constructor
  · rintro ⟨cs, rfl⟩
    exact ⟨cs, rfl⟩
  · rintro ⟨cs, hcs⟩
    exact ⟨cs, by simpa [List.utf8Encode] using hcs⟩

end StackCode.Proofs
