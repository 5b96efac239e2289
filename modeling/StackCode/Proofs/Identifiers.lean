import Mathlib
import StackCode.Text.Ident
import StackCode.Proofs.LineWords

/-!
# Identifiers

The bytes of an identifier are none of those that separate the parts of a line, and no white space
stands at its ends, so an identifier comes out unchanged wherever a line is cut and trimmed.
-/

namespace StackCode.Proofs

open Text Rune

/-! ### The bytes of an identifier -/

/-- The bytes that identifiers consist of: letters, digits, `_`, `.` and `$`, and everything beyond
ASCII. -/
def isNameByte (b : UInt8) : Bool :=
  let n := b.toNat
  0x80 ≤ n || (48 ≤ n && n ≤ 57) || (65 ≤ n && n ≤ 90) || (97 ≤ n && n ≤ 122) || n == 95 || n == 46 ||
    n == 36

lemma ascii_name_code {c : Char} (hascii : c.toNat < 0x80) (h : continuesName (.scalar c)) :
    (48 ≤ c.toNat ∧ c.toNat ≤ 57) ∨ (65 ≤ c.toNat ∧ c.toNat ≤ 90) ∨ (97 ≤ c.toNat ∧ c.toNat ≤ 122) ∨
      c.toNat = 95 ∨ c.toNat = 46 ∨ c.toNat = 36 := by
  have hmark : ∀ d : Char, c = d ↔ c.toNat = d.toNat := fun d => Char.toNat_inj.symm
  simp only [continuesName, startsName, isLetterCode, isDigitCode, hascii, if_true, Bool.or_eq_true,
    Bool.and_eq_true, decide_eq_true_iff, beq_iff_eq, hmark, Char.reduceToNat] at h
  omega

lemma isNameByte_of_mem {c : Char} (h : continuesName (.scalar c)) :
    ∀ b ∈ String.utf8EncodeChar c, isNameByte b := by
  rcases Nat.lt_or_ge c.toNat 0x80 with hascii | hwide
  · rw [encode_ascii hascii]
    intro b hb
    rw [List.mem_singleton.mp hb, isNameByte, toNat_toUInt8 (by omega)]
    have hcode := ascii_name_code hascii h
    simp only [Bool.or_eq_true, Bool.and_eq_true, decide_eq_true_iff, beq_iff_eq]
    omega
  · intro b hb
    have hlarge := le_of_mem_encode hwide b hb
    simp [isNameByte, hlarge]

lemma continuesName_of_isIdent {t : Text} (h : isIdent t) : ∀ r ∈ t.runes, continuesName r := by
  unfold isIdent at h
  cases hrunes : t.runes with
  | nil => simp
  | cons r rs =>
    rw [hrunes, Bool.and_eq_true, List.all_eq_true] at h
    intro r' hr'
    rcases List.mem_cons.mp hr' with rfl | hr'
    · cases r' with
      | scalar c => simp [continuesName, h.1]
      | stray b => exact absurd h.1 (by simp [startsName])
    · exact h.2 r' hr'

lemma isUtf8_of_isIdent {t : Text} (h : isIdent t) : t.isUtf8 := by
  rw [isUtf8, List.all_eq_true]
  intro r hr
  cases r with
  | scalar c => rfl
  | stray b => exact absurd (continuesName_of_isIdent h _ hr) (by simp [continuesName])

lemma ne_nil_of_isIdent {t : Text} (h : isIdent t) : t ≠ [] := by
  rintro rfl
  exact absurd h (by decide)

lemma isNameByte_of_isIdent {t : Text} (h : isIdent t) : ∀ b ∈ t, isNameByte b := by
  intro b hb
  rw [← flatMap_bytes_runes t] at hb
  obtain ⟨r, hr, hb⟩ := List.mem_flatMap.mp hb
  have hname := continuesName_of_isIdent h r hr
  cases r with
  | scalar c => exact isNameByte_of_mem hname b hb
  | stray b => exact absurd hname (by simp [continuesName])

lemma ne_of_isNameByte {b c : UInt8} (hb : isNameByte b) (hc : isNameByte c = false) : b ≠ c := by
  rintro rfl
  rw [hb] at hc
  cases hc

/-- What separates the parts of a line is not part of an identifier. -/
lemma not_mem_of_isIdent {t : Text} (h : isIdent t) {c : UInt8} (hc : isNameByte c = false) :
    c ∉ t :=
  fun hmem => ne_of_isNameByte (isNameByte_of_isIdent h c hmem) hc rfl

lemma isPlain_of_isNameByte {b : UInt8} (h : isNameByte b) : Words.isPlain b := by
  rw [isPlain_iff]
  refine ⟨?_, ?_, ne_of_isNameByte h (by decide)⟩
  · simp only [Words.isBlank, Bool.or_eq_false_iff, decide_eq_false_iff_not]
    exact ⟨⟨ne_of_isNameByte h (by decide), ne_of_isNameByte h (by decide)⟩,
      ne_of_isNameByte h (by decide)⟩
  · simp only [Words.startsComment, Bool.or_eq_false_iff, decide_eq_false_iff_not]
    exact ⟨ne_of_isNameByte h (by decide), ne_of_isNameByte h (by decide)⟩

lemma isPlainWord_of_isIdent {t : Text} (h : isIdent t) : IsPlainWord t :=
  ⟨ne_nil_of_isIdent h, fun b hb => isPlain_of_isNameByte (isNameByte_of_isIdent h b hb)⟩

/-! ### White space -/

/-- The white space beyond ASCII. -/
def wideSpaces : List Nat :=
  [0x85, 0xA0, 0x1680, 0x2000, 0x2001, 0x2002, 0x2003, 0x2004, 0x2005, 0x2006, 0x2007, 0x2008, 0x2009,
    0x200A, 0x2028, 0x2029, 0x202F, 0x205F, 0x3000]

lemma mem_wideSpaces {n : Nat} (h : isSpaceCode n) (hn : 0x80 ≤ n) : n ∈ wideSpaces := by
  simp only [isSpaceCode, Bool.or_eq_true, Bool.and_eq_true, decide_eq_true_iff, beq_iff_eq] at h
  simp only [wideSpaces, List.mem_cons, List.not_mem_nil, or_false]
  omega

lemma wideSpaces_not_name : ∀ n ∈ wideSpaces,
    inRanges letterRanges n = false ∧ inRanges digitRanges n = false := by
  decide +kernel

lemma not_isSpaceRune_of_name {r : Rune} (h : continuesName r) : isSpaceRune r = false := by
  cases r with
  | stray b => rfl
  | scalar c =>
    rw [isSpaceRune, Bool.eq_false_iff]
    intro hspace
    rcases Nat.lt_or_ge c.toNat 0x80 with hascii | hwide
    · have hcode := ascii_name_code hascii h
      simp only [Bool.or_eq_true, Bool.and_eq_true, decide_eq_true_iff, beq_iff_eq, isSpaceCode]
        at hspace
      omega
    · obtain ⟨hletter, hdigit⟩ := wideSpaces_not_name _ (mem_wideSpaces hspace hwide)
      have hmark : ∀ d : Char, d.toNat < 0x80 → c ≠ d := by
        rintro d hd rfl
        omega
      simp [continuesName, startsName, isLetterCode, isDigitCode, Nat.not_lt.mpr hwide, hletter,
        hdigit, hmark '_' (by decide), hmark '.' (by decide), hmark '$' (by decide)] at h

/-- A text whose first and last runes are not white space. -/
structure Trimmed (t : Text) : Prop where
  first : ∀ r ∈ t.runes.head?, isSpaceRune r = false
  last : ∀ r ∈ t.runes.getLast?, isSpaceRune r = false

lemma dropWhile_of_head {p : Rune → Bool} {rs : List Rune} (h : ∀ r ∈ rs.head?, p r = false) :
    rs.dropWhile p = rs := by
  cases rs with
  | nil => rfl
  | cons r rs => simp [h r rfl]

lemma Trimmed.trim {t : Text} (h : Trimmed t) : t.trim = t := by
  have hlast : ∀ r ∈ t.runes.reverse.head?, isSpaceRune r = false := by
    rw [List.head?_reverse]
    exact h.last
  rw [Text.trim, dropWhile_of_head h.first, dropWhile_of_head hlast, List.reverse_reverse,
    flatMap_bytes_runes]

/-- A blank in front is white space. -/
lemma trim_blank_cons (t : Text) : Text.trim (byte ' ' :: t) = t.trim := by
  rw [Text.trim, Text.trim, runes_ascii_cons (by decide), List.dropWhile_cons_of_pos (by decide)]

lemma isUtf8_append {s t : Text} (hs : s.isUtf8) (ht : t.isUtf8) : isUtf8 (s ++ t) := by
  rw [isUtf8, runes_append_of_isUtf8 hs, List.all_append, Bool.and_eq_true]
  exact ⟨hs, ht⟩

/-- A text between identifiers is trimmed. -/
lemma trimmed_of_ends {t a x y b : Text} (ha : isIdent a) (hfront : t = a ++ x) (hy : y.isUtf8)
    (hb : isIdent b) (hback : t = y ++ b) : Trimmed t := by
  have hne : ∀ {s : Text}, isIdent s → s.runes ≠ [] := by
    intro s hs hnil
    have hbytes := flatMap_bytes_runes s
    rw [hnil] at hbytes
    exact ne_nil_of_isIdent hs hbytes.symm
  constructor
  · intro r hr
    rw [hfront, runes_append_of_isUtf8 (isUtf8_of_isIdent ha), List.head?_append_of_ne_nil _ (hne ha)]
      at hr
    exact not_isSpaceRune_of_name (continuesName_of_isIdent ha r (List.mem_of_mem_head? hr))
  · intro r hr
    rw [hback, runes_append_of_isUtf8 hy, List.getLast?_append_of_ne_nil _ (hne hb)] at hr
    exact not_isSpaceRune_of_name (continuesName_of_isIdent hb r (List.mem_of_mem_getLast? hr))

lemma trim_ident {t : Text} (h : isIdent t) : t.trim = t :=
  (trimmed_of_ends (x := []) (y := []) h (by simp) rfl h (by simp)).trim

/-! ### Cutting a line -/

lemma cut_append {sep : UInt8} {s : Text} (h : sep ∉ s) (t : Text) :
    cut sep (s ++ sep :: t) = some (s, t) := by
  induction s with
  | nil => rw [List.nil_append, cut, if_pos rfl]
  | cons b s ih =>
    rw [List.cons_append, cut, if_neg (fun heq => h (by simp [heq])), ih fun hmem => h (by simp [hmem])]
    rfl

lemma cut_of_not_mem {sep : UInt8} {t : Text} (h : sep ∉ t) : cut sep t = none := by
  induction t with
  | nil => rfl
  | cons b t ih =>
    rw [cut, if_neg (fun heq => h (by simp [heq])), ih fun hmem => h (by simp [hmem])]
    rfl

lemma cutLast_append {sep : UInt8} (s : Text) {t : Text} (h : sep ∉ t) :
    cutLast sep (s ++ sep :: t) = some (s, t) := by
  have hreverse : (s ++ sep :: t).reverse = t.reverse ++ sep :: s.reverse := by simp
  rw [cutLast, hreverse, cut_append (by simpa using h)]
  simp

lemma eq_append_of_cutLast {sep : UInt8} {t front back : Text}
    (h : cutLast sep t = some (front, back)) : t = front ++ sep :: back := by
  by_cases hsep : sep ∈ t
  · obtain ⟨r, l, hreverse, hr⟩ := List.eq_append_cons_of_mem (List.mem_reverse.mpr hsep)
    obtain rfl : t = l.reverse ++ sep :: r.reverse := by
      rw [← List.reverse_reverse t, hreverse]
      simp
    rw [cutLast_append _ (by simpa using hr)] at h
    cases h
    rfl
  · rw [cutLast, cut_of_not_mem (by simpa using hsep)] at h
    cases h

lemma splitOn_of_not_mem {sep : UInt8} {t : Text} (h : sep ∉ t) : splitOn sep t = [t] := by
  induction t with
  | nil => rfl
  | cons b t ih =>
    have hrest := ih fun hmem => h (by simp [hmem])
    have hb : b ≠ sep := fun heq => h (by simp [heq])
    unfold splitOn at hrest ⊢
    simp only [List.cons.injEq] at hrest
    simp only [List.foldr_cons, if_neg hb, hrest.1, hrest.2]

/-- The first piece ends at the first separator. -/
lemma splitOn_append {sep : UInt8} {s : Text} (h : sep ∉ s) (t : Text) :
    splitOn sep (s ++ sep :: t) = s :: splitOn sep t := by
  induction s with
  | nil =>
    unfold splitOn
    simp
  | cons b s ih =>
    have hrest := ih fun hmem => h (by simp [hmem])
    have hb : b ≠ sep := fun heq => h (by simp [heq])
    unfold splitOn at hrest ⊢
    simp only [List.cons.injEq] at hrest
    simp only [List.cons_append, List.foldr_cons, if_neg hb, hrest.1, hrest.2]

lemma not_mem_splitOn (sep : UInt8) (t : Text) : ∀ piece ∈ splitOn sep t, sep ∉ piece := by
  induction t with
  | nil => simp [splitOn]
  | cons b t ih =>
    unfold splitOn at ih ⊢
    simp only [List.mem_cons, forall_eq_or_imp] at ih
    rw [List.foldr_cons]
    by_cases hb : b = sep
    · simp only [if_pos hb, List.mem_cons, forall_eq_or_imp]
      exact ⟨by simp, ih⟩
    · simp only [if_neg hb, List.mem_cons, forall_eq_or_imp, not_or]
      exact ⟨⟨fun heq => hb heq.symm, ih.1⟩, ih.2⟩

end StackCode.Proofs
