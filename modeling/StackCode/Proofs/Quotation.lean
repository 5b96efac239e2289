import Mathlib
import StackCode.Text.Quoted
import StackCode.Proofs.Runes

/-!
# Quoted text

A quoted text is read back as the text, whatever follows it. A literal that is read at the start of
a text is found again when other text follows its closing quote.
-/

namespace StackCode.Proofs

open Text Rune

/-! ### Hexadecimal digits -/

lemma hexValue?_hexDigit : ∀ n : Nat, n < 16 → hexValue? (hexDigit n) = some n := by decide

lemma takeDigits_add (base a b acc : Nat) (t : Text) :
    takeDigits base (a + b) acc t =
      (takeDigits base a acc t).bind fun p => takeDigits base b p.1 p.2 := by
  induction a generalizing acc t with
  | zero => rw [Nat.zero_add, takeDigits, Option.bind_some]
  | succ a ih =>
    rw [Nat.succ_add]
    cases t with
    | nil => rfl
    | cons c t =>
      rw [takeDigits, takeDigits]
      cases hexValue? c with
      | none => rfl
      | some d =>
        dsimp only
        split_ifs with hd
        · exact ih (acc * base + d) t
        · rfl

/-- The digits of a number in hexadecimal are read as its lowest digits. -/
lemma takeDigits_hexOfNat (width n acc : Nat) (rest : Text) :
    takeDigits 16 width acc (hexOfNat width n ++ rest) =
      some (acc * 16 ^ width + n % 16 ^ width, rest) := by
  induction width generalizing n rest with
  | zero => simp [takeDigits, hexOfNat, Nat.mod_one]
  | succ width ih =>
    have hlast : ∀ v, takeDigits 16 1 v (hexDigit (n % 16) :: rest) =
        some (v * 16 + n % 16, rest) := by
      intro v
      have hdigit := hexValue?_hexDigit (n % 16) (by omega)
      simp only [takeDigits, hdigit]
      rw [if_pos (by omega)]
    have hvalue : (acc * 16 ^ width + n / 16 % 16 ^ width) * 16 + n % 16 =
        acc * 16 ^ (width + 1) + n % 16 ^ (width + 1) := by
      have hmod : n % 16 ^ (width + 1) = n % 16 + 16 * (n / 16 % 16 ^ width) := by
        rw [pow_succ', Nat.mod_mul]
      rw [hmod]
      ring
    rw [takeDigits_add, hexOfNat, List.append_assoc, List.singleton_append, ih, Option.bind_some,
      hlast, hvalue]

/-- What is read of some digits does not depend on what follows them. -/
lemma takeDigits_local {base n acc v : Nat} {t rest : Text}
    (h : takeDigits base n acc t = some (v, rest)) : ∃ p, p.length = n ∧ t = p ++ rest ∧
      ∀ rest', takeDigits base n acc (p ++ rest') = some (v, rest') := by
  induction n generalizing acc t with
  | zero =>
    rw [takeDigits, Option.some.injEq, Prod.mk.injEq] at h
    obtain ⟨rfl, rfl⟩ := h
    exact ⟨[], rfl, rfl, fun _ => rfl⟩
  | succ n ih =>
    cases t with
    | nil => cases h
    | cons b t =>
      rw [takeDigits] at h
      cases hb : hexValue? b with
      | none =>
        rw [hb] at h
        cases h
      | some d =>
        rw [hb] at h
        dsimp only at h
        split_ifs at h with hd
        obtain ⟨p, hlength, rfl, hp⟩ := ih h
        refine ⟨b :: p, by rw [List.length_cons, hlength], rfl, fun rest' => ?_⟩
        rw [List.cons_append, takeDigits, hb]
        dsimp only
        rw [if_pos hd, hp rest']

/-- A function of a number that hands on the text behind it. -/
def KeepsRest (f : Nat × Text → Option (Text × Text)) : Prop :=
  ∀ v r u r₀, f (v, r) = some (u, r₀) → r₀ = r ∧ ∀ r', f (v, r') = some (u, r')

lemma takeDigits_bind_local {base n : Nat} {f : Nat × Text → Option (Text × Text)}
    (hf : KeepsRest f) {t u rest : Text} (h : (takeDigits base n 0 t).bind f = some (u, rest)) :
    ∃ p, p.length = n ∧ t = p ++ rest ∧
      ∀ rest', (takeDigits base n 0 (p ++ rest')).bind f = some (u, rest') := by
  obtain ⟨pair, hdigits, hvalue⟩ := Option.bind_eq_some_iff.mp h
  obtain ⟨p, hlength, rfl, hp⟩ := takeDigits_local hdigits
  obtain ⟨hrest, hany⟩ := hf pair.1 pair.2 u rest hvalue
  exact ⟨p, hlength, by rw [hrest], fun rest' => by rw [hp, Option.bind_some, hany]⟩

lemma keepsRest_byte : KeepsRest fun p => some ([p.1.toUInt8], p.2) := by
  intro v r u r₀ h
  cases h
  exact ⟨rfl, fun _ => rfl⟩

lemma keepsRest_unicode : KeepsRest takeEscape.unicode := by
  intro v r u r₀ h
  unfold takeEscape.unicode at h ⊢
  dsimp only at h ⊢
  split_ifs at h ⊢ with hscalar
  cases h
  exact ⟨rfl, fun _ => rfl⟩

lemma keepsRest_octal :
    KeepsRest fun p => if p.1 < 256 then some ([p.1.toUInt8], p.2) else none := by
  intro v r u r₀ h
  dsimp only at h ⊢
  split_ifs at h ⊢ with hsmall
  cases h
  exact ⟨rfl, fun _ => rfl⟩

/-! ### Runes between quotes -/

lemma toNat_toUInt8 {n : Nat} (h : n < 256) : n.toUInt8.toNat = n := toNat_ofNat_of_lt h

lemma encode_ascii {c : Char} (hc : c.toNat < 0x80) :
    String.utf8EncodeChar c = [c.toNat.toUInt8] := by
  have hval : c.toNat.toUInt8.toNat = c.toNat := toNat_toUInt8 (by omega)
  have hbytes := (Spells.one (lt_of_eq_of_lt hval hc)).eq_encode.2
  rwa [hval, Char.ofNat_toNat, eq_comm] at hbytes

/-- The first byte of a character beyond ASCII is not that of an ASCII character, nor is any other.
-/
lemma le_of_mem_encode {c : Char} (hc : 0x80 ≤ c.toNat) :
    ∀ b ∈ String.utf8EncodeChar c, 0x80 ≤ b.toNat := by
  have hspells := spells_encode c
  generalize String.utf8EncodeChar c = bs at hspells
  generalize c.toNat = n at *
  cases hspells with
  | one ha => omega
  | two ha hb =>
    simp only [List.mem_cons, List.not_mem_nil, or_false, forall_eq_or_imp, forall_eq]
    omega
  | three ha hb hc =>
    simp only [List.mem_cons, List.not_mem_nil, or_false, forall_eq_or_imp, forall_eq]
    omega
  | four ha hb hc hd =>
    simp only [List.mem_cons, List.not_mem_nil, or_false, forall_eq_or_imp, forall_eq]
    omega

/-- The bytes of a character are not those of any other ASCII character. -/
lemma ne_of_mem_encode {c d : Char} (hd : d.toNat < 0x80) (hne : c ≠ d) {b : UInt8}
    (hb : b ∈ String.utf8EncodeChar c) : b ≠ byte d := by
  rintro rfl
  rcases Nat.lt_or_ge c.toNat 0x80 with hascii | hwide
  · rw [encode_ascii hascii, List.mem_singleton] at hb
    have hval := congrArg UInt8.toNat hb
    rw [byte, toNat_toUInt8 (by omega), toNat_toUInt8 (by omega)] at hval
    exact hne (Char.toNat_inj.mp hval.symm)
  · have hlarge := le_of_mem_encode hwide _ hb
    rw [byte, toNat_toUInt8 (by omega)] at hlarge
    omega

lemma exists_encode_cons (c : Char) : ∃ b bs, String.utf8EncodeChar c = b :: bs := by
  have hspells := spells_encode c
  cases hbytes : String.utf8EncodeChar c with
  | nil =>
    rw [hbytes] at hspells
    cases hspells
  | cons b bs => exact ⟨b, bs, rfl⟩

/-- A character in front of any text is its first unit, unless it is special. -/
lemma takeUnit_char (q : UInt8) {c : Char} (hnewline : c ≠ '\n') (hslash : c ≠ '\\') (rest : Text) :
    takeUnit q (String.utf8EncodeChar c ++ rest) = some (String.utf8EncodeChar c, rest) := by
  obtain ⟨b, bs, hbytes⟩ := exists_encode_cons c
  have hne : ∀ d : Char, d.toNat < 0x80 → c ≠ d → b ≠ byte d :=
    fun d hd hcd => ne_of_mem_encode hd hcd (by simp [hbytes])
  have hspells := spells_encode c
  rw [hbytes] at hspells ⊢
  have hlead := hspells.lead rest
  rw [Char.ofNat_toNat] at hlead
  rw [List.cons_append, takeUnit, if_neg (hne '\n' (by decide) hnewline),
    if_neg (hne '\\' (by decide) hslash), hlead]
  dsimp only
  rw [Rune.width, Rune.bytes, hbytes]
  simp

lemma takeUnit_backslash (q : UInt8) (t : Text) :
    takeUnit q (byte '\\' :: t) = takeEscape q t := by
  rw [takeUnit, if_neg (by decide), if_pos rfl]

lemma takeEscape_byte (q : UInt8) {n : Nat} (hn : n < 256) (rest : Text) :
    takeEscape q (byte 'x' :: (hexOfNat 2 n ++ rest)) = some ([n.toUInt8], rest) := by
  have hdigits := takeDigits_hexOfNat 2 n 0 rest
  rw [Nat.mod_eq_of_lt (by omega), Nat.zero_mul, Nat.zero_add] at hdigits
  show (takeDigits 16 2 0 (hexOfNat 2 n ++ rest)).map _ = _
  rw [hdigits]
  rfl

/-- The code of a character in enough hexadecimal digits stands for the character. -/
lemma takeDigits_unicode {width : Nat} {c : Char} (hc : c.toNat < 16 ^ width) (rest : Text) :
    (takeDigits 16 width 0 (hexOfNat width c.toNat ++ rest)).bind takeEscape.unicode =
      some (String.utf8EncodeChar c, rest) := by
  have hscalar : isScalarCode c.toNat = true := by
    have hvalid := toNat_char_lt c
    simp [isScalarCode]
    omega
  have hdigits := takeDigits_hexOfNat width c.toNat 0 rest
  rw [Nat.mod_eq_of_lt hc, Nat.zero_mul, Nat.zero_add] at hdigits
  rw [hdigits, Option.bind_some, takeEscape.unicode, if_pos hscalar, Char.ofNat_toNat]

/-- What stands for a rune between double quotes is read as the rune. -/
lemma takeUnit_escapeRune (r : Rune) (rest : Text) :
    takeUnit (byte '"') (escapeRune r ++ rest) = some (r.bytes, rest) := by
  cases r with
  | stray b =>
    show takeUnit (byte '"') (byte '\\' :: byte 'x' :: (hexOfNat 2 b.toNat ++ rest)) = _
    rw [takeUnit_backslash, takeEscape_byte _ b.toNat_lt]
    simp [Rune.bytes]
  | scalar c =>
    rw [Rune.bytes, escapeRune]
    by_cases hspecial : c = '"' ∨ c = '\\'
    · rw [if_pos hspecial, List.cons_append, takeUnit_backslash]
      rcases hspecial with rfl | rfl <;> rfl
    rw [if_neg hspecial]
    by_cases hprintable : isPrintableCode c.toNat
    · rw [if_pos hprintable]
      refine takeUnit_char _ ?_ (fun h => hspecial (.inr h)) rest
      rintro rfl
      exact absurd hprintable (by decide)
    rw [if_neg hprintable]
    cases hshort : shortEscape? c.toNat with
    | some e =>
      dsimp only
      rw [List.cons_append, takeUnit_backslash]
      unfold shortEscape? at hshort
      split at hshort <;> cases hshort <;> rename_i hcode <;>
        rw [encode_ascii (by omega), hcode] <;> rfl
    | none =>
      dsimp only
      -- two, four or eight digits, by the size of the code
      split_ifs with hcontrol hsmall
      · rw [List.append_assoc, List.cons_append, List.singleton_append, takeUnit_backslash,
          takeEscape_byte _ (by omega), encode_ascii (by omega)]
      · rw [List.append_assoc, List.cons_append, List.singleton_append, takeUnit_backslash]
        exact takeDigits_unicode (by omega) rest
      · have hvalid := toNat_char_lt c
        rw [List.append_assoc, List.cons_append, List.singleton_append, takeUnit_backslash]
        exact takeDigits_unicode (by omega) rest

/-! ### Quoted texts -/

lemma newline_not_mem_hexOfNat (width n : Nat) : byte '\n' ∉ hexOfNat width n := by
  induction width generalizing n with
  | zero => simp [hexOfNat]
  | succ width ih =>
    intro hmem
    rw [hexOfNat] at hmem
    rcases List.mem_append.mp hmem with hmem | hmem
    · exact ih _ hmem
    · have hdigit : ∀ d, d < 16 → byte '\n' ≠ hexDigit d := by decide
      exact hdigit _ (Nat.mod_lt n (by norm_num)) (List.mem_singleton.mp hmem)

/-- A piece between double quotes: not empty, no quote in front and no line end in it. -/
def IsPiece (p : Text) : Prop := (∃ b t, p = b :: t ∧ b ≠ byte '"') ∧ byte '\n' ∉ p

lemma isPiece_backslash {c : UInt8} {t : Text} (hc : c ≠ byte '\n') (ht : byte '\n' ∉ t) :
    IsPiece (byte '\\' :: c :: t) := by
  refine ⟨⟨_, _, rfl, by decide⟩, ?_⟩
  simp only [List.mem_cons, not_or]
  exact ⟨by decide, hc.symm, ht⟩

lemma isPiece_escapeRune (r : Rune) : IsPiece (escapeRune r) := by
  cases r with
  | stray b => exact isPiece_backslash (by decide) (newline_not_mem_hexOfNat 2 b.toNat)
  | scalar c =>
    rw [escapeRune]
    by_cases hspecial : c = '"' ∨ c = '\\'
    · rw [if_pos hspecial]
      rcases hspecial with rfl | rfl <;> exact isPiece_backslash (by decide) (by simp)
    rw [if_neg hspecial]
    by_cases hprintable : isPrintableCode c.toNat
    · rw [if_pos hprintable]
      have hline : c ≠ '\n' := by
        rintro rfl
        exact absurd hprintable (by decide)
      obtain ⟨b, bs, hbytes⟩ := exists_encode_cons c
      refine ⟨⟨b, bs, hbytes, ?_⟩, fun hmem => ne_of_mem_encode (by decide) hline hmem rfl⟩
      exact ne_of_mem_encode (by decide) (fun h => hspecial (.inl h)) (by simp [hbytes])
    rw [if_neg hprintable]
    cases hshort : shortEscape? c.toNat with
    | some e =>
      dsimp only
      unfold shortEscape? at hshort
      split at hshort <;> cases hshort <;> exact isPiece_backslash (by decide) (by simp)
    | none =>
      dsimp only
      split_ifs <;> exact isPiece_backslash (by decide) (newline_not_mem_hexOfNat _ _)

lemma length_le_flatMap_escapeRune (rs : List Rune) :
    rs.length ≤ (rs.flatMap escapeRune).length := by
  induction rs with
  | nil => simp
  | cons r rs ih =>
    obtain ⟨⟨b, t, hbt, -⟩, -⟩ := isPiece_escapeRune r
    rw [List.flatMap_cons, hbt, List.length_append]
    simp only [List.length_cons]
    omega

lemma takeUnits_close (q : UInt8) (fuel : Nat) (acc t : Text) :
    takeUnits q fuel acc (q :: t) = some (acc.reverse, t) := by
  cases fuel <;> rw [takeUnits, if_pos rfl]

lemma takeUnits_runes {rs : List Rune} {fuel : Nat} (hfuel : rs.length ≤ fuel) (acc rest : Text) :
    takeUnits (byte '"') fuel acc (rs.flatMap escapeRune ++ byte '"' :: rest) =
      some (acc.reverse ++ rs.flatMap Rune.bytes, rest) := by
  induction rs generalizing fuel acc with
  | nil =>
    rw [List.flatMap_nil, List.nil_append, takeUnits_close]
    simp
  | cons r rs ih =>
    obtain ⟨⟨b, t, hbt, hb⟩, -⟩ := isPiece_escapeRune r
    have hunit := takeUnit_escapeRune r (rs.flatMap escapeRune ++ byte '"' :: rest)
    cases fuel with
    | zero => simp at hfuel
    | succ fuel =>
      rw [List.flatMap_cons, List.append_assoc]
      rw [hbt, List.cons_append] at hunit ⊢
      rw [takeUnits, if_neg hb, hunit]
      dsimp only
      rw [ih (by simpa using hfuel)]
      simp

/-- A quoted text is read back, whatever follows it. -/
lemma takeLiteral_quote (s rest : Text) : takeLiteral (quote s ++ rest) = some (s, rest) := by
  have hunits : ∀ fuel, s.runes.length ≤ fuel →
      takeUnits (byte '"') fuel [] (s.runes.flatMap escapeRune ++ byte '"' :: rest) =
        some (s, rest) := by
    intro fuel hfuel
    rw [takeUnits_runes hfuel, flatMap_bytes_runes]
    rfl
  rw [quote, List.cons_append, List.append_assoc, List.singleton_append, takeLiteral, if_pos rfl,
    hunits]
  rw [List.length_append]
  exact le_trans (length_le_flatMap_escapeRune _) (Nat.le_add_right _ _)

lemma unquote?_quote (s : Text) : unquote? (quote s) = some s := by
  have hliteral := takeLiteral_quote s []
  rw [List.append_nil] at hliteral
  rw [unquote?, hliteral]

lemma newline_not_mem_quote (s : Text) : byte '\n' ∉ quote s := by
  rw [quote]
  simp only [List.mem_cons, List.mem_append, List.mem_flatMap, List.not_mem_nil, or_false, not_or,
    not_exists, not_and]
  exact ⟨by decide, fun r _ => (isPiece_escapeRune r).2, by decide⟩

/-! ### Literals and what follows them -/

lemma Spells.tail_le {b : UInt8} {bs : Text} {n : Nat} (h : Spells (b :: bs) n) :
    ∀ t ∈ bs, 0x80 ≤ t.toNat := by
  cases h with
  | one ha => simp
  | two ha hb =>
    simp only [List.mem_cons, List.not_mem_nil, or_false, forall_eq]
    omega
  | three ha hb hc =>
    simp only [List.mem_cons, List.not_mem_nil, or_false, forall_eq_or_imp, forall_eq]
    omega
  | four ha hb hc hd =>
    simp only [List.mem_cons, List.not_mem_nil, or_false, forall_eq_or_imp, forall_eq]
    omega

/-- A character ends before the next ASCII character. -/
lemma Spells.prefix_of_ascii {b c : UInt8} {bs v x r : Text} {n : Nat} (h : Spells (b :: bs) n)
    (hc : c.toNat < 0x80) (heq : v ++ c :: x = bs ++ r) : ∃ v', v = bs ++ v' := by
  rcases List.append_eq_append_iff.mp heq with ⟨a, rfl, ha⟩ | ⟨a, rfl, -⟩
  · cases a with
    | nil => exact ⟨[], by simp⟩
    | cons d a =>
      have hlarge := h.tail_le d (by simp)
      have hdc := (List.cons.inj ha).1
      rw [← hdc] at hlarge
      omega
  · exact ⟨a, rfl⟩

/-- The first rune of a text is settled by what stands before and at the next ASCII character. -/
lemma lead_local (b : UInt8) {c : UInt8} (hc : c.toNat < 0x80) (v x x' : Text) :
    lead b (v ++ c :: x) = lead b (v ++ c :: x') := by
  have hscalar : ∀ (x x' : Text) {bs r : Text} {n : Nat}, Spells (b :: bs) n →
      v ++ c :: x = bs ++ r → lead b (v ++ c :: x') = .scalar (Char.ofNat n) := by
    intro x x' bs r n hspells heq
    obtain ⟨v', rfl⟩ := hspells.prefix_of_ascii hc heq
    rw [List.append_assoc]
    exact hspells.lead _
  rcases lead_cases b (v ++ c :: x) with hstray | ⟨bs, n, r, hspells, heq⟩
  · rcases lead_cases b (v ++ c :: x') with hstray' | ⟨bs, n, r, hspells, heq⟩
    · rw [hstray, hstray']
    · rw [hscalar x' x hspells heq, hscalar x' x' hspells heq]
  · rw [hscalar x x hspells heq, hscalar x x' hspells heq]

/-- What is read of an escape does not depend on what follows it. -/
lemma takeEscape_local {q : UInt8} {t u rest : Text} (h : takeEscape q t = some (u, rest)) :
    ∃ p, t = p ++ rest ∧ ∀ rest', takeEscape q (p ++ rest') = some (u, rest') := by
  cases t with
  | nil => cases h
  | cons b t =>
    rw [takeEscape] at h
    split at h
    -- a byte in hexadecimal
    case h_9 hcode =>
      rw [Option.map_eq_bind] at h
      obtain ⟨p, -, rfl, hp⟩ := takeDigits_bind_local keepsRest_byte h
      refine ⟨b :: p, rfl, fun rest' => ?_⟩
      rw [List.cons_append, takeEscape, hcode]
      dsimp only
      rw [Option.map_eq_bind]
      exact hp rest'
    -- a character by its code, in four or eight digits
    case h_10 hcode =>
      obtain ⟨p, -, rfl, hp⟩ := takeDigits_bind_local keepsRest_unicode h
      refine ⟨b :: p, rfl, fun rest' => ?_⟩
      rw [List.cons_append, takeEscape, hcode]
      exact hp rest'
    case h_11 hcode =>
      obtain ⟨p, -, rfl, hp⟩ := takeDigits_bind_local keepsRest_unicode h
      refine ⟨b :: p, rfl, fun rest' => ?_⟩
      rw [List.cons_append, takeEscape, hcode]
      exact hp rest'
    -- a quote, or a byte in octal whose first digit is the character itself
    case h_12 =>
      split_ifs at h with hquote hsame
      · cases h
        obtain rfl := hsame
        refine ⟨[b], rfl, fun rest' => ?_⟩
        rw [List.singleton_append, takeEscape]
        simp [*]
      · obtain ⟨p, hlength, hp, hrest⟩ := takeDigits_bind_local keepsRest_octal h
        obtain ⟨d, p, rfl⟩ := List.exists_cons_of_length_pos (show 0 < p.length by omega)
        obtain rfl : b = d := (List.cons.inj hp).1
        refine ⟨b :: p, hp, fun rest' => ?_⟩
        have hrest' := hrest rest'
        rw [List.cons_append] at hrest' ⊢
        rw [takeEscape]
        simp [*]
    all_goals
      rename_i hcode
      cases h
      refine ⟨[b], rfl, fun rest' => ?_⟩
      rw [List.singleton_append, takeEscape, hcode]
      rfl

/-- What is read of the first unit does not depend on what follows the next ASCII character. -/
lemma takeUnit_local {q c : UInt8} (hc : c.toNat < 0x80) {t u v x : Text}
    (h : takeUnit q t = some (u, v ++ c :: x)) :
    ∃ p, p ≠ [] ∧ t = p ++ (v ++ c :: x) ∧
      ∀ x', takeUnit q (p ++ (v ++ c :: x')) = some (u, v ++ c :: x') := by
  cases t with
  | nil => cases h
  | cons b t =>
    rw [takeUnit] at h
    by_cases hnewline : b = byte '\n'
    · rw [if_pos hnewline] at h
      cases h
    rw [if_neg hnewline] at h
    by_cases hslash : b = byte '\\'
    · rw [if_pos hslash] at h
      obtain ⟨p, rfl, hp⟩ := takeEscape_local h
      refine ⟨b :: p, List.cons_ne_nil _ _, rfl, fun x' => ?_⟩
      rw [List.cons_append, takeUnit, if_neg hnewline, if_pos hslash, hp]
    rw [if_neg hslash] at h
    rcases lead_cases b t with hstray | ⟨bs, n, r, hspells, rfl⟩
    · rw [hstray] at h
      cases h
      refine ⟨[b], List.cons_ne_nil _ _, rfl, fun x' => ?_⟩
      rw [List.singleton_append, takeUnit, if_neg hnewline, if_neg hslash,
        lead_local b hc v x' x, hstray]
    · have hwidth : (Rune.scalar (Char.ofNat n)).width - 1 = bs.length := by
        rw [Rune.width, Rune.bytes, ← hspells.eq_encode.2]
        rfl
      rw [hspells.lead] at h
      dsimp only at h
      rw [hwidth, List.drop_left, Option.some.injEq, Prod.mk.injEq] at h
      obtain ⟨rfl, rfl⟩ := h
      refine ⟨b :: bs, List.cons_ne_nil _ _, rfl, fun x' => ?_⟩
      rw [List.cons_append, takeUnit, if_neg hnewline, if_neg hslash, hspells.lead]
      dsimp only
      rw [hwidth, List.drop_left]

/-- A text up to its closing quote is read alike before any other text, with enough steps. -/
lemma takeUnits_local {q : UInt8} (hq : q.toNat < 0x80) {fuel : Nat} {acc t content rest : Text}
    (h : takeUnits q fuel acc t = some (content, rest)) :
    ∃ w, t = w ++ q :: rest ∧ ∀ fuel' rest', w.length ≤ fuel' →
      takeUnits q fuel' acc (w ++ q :: rest') = some (content, rest') := by
  induction fuel generalizing acc t with
  | zero =>
    cases t with
    | nil => cases h
    | cons b t =>
      rw [takeUnits] at h
      split_ifs at h with hb
      cases h
      refine ⟨[], by rw [hb]; rfl, fun fuel' rest' _ => ?_⟩
      rw [List.nil_append, takeUnits_close]
  | succ fuel ih =>
    cases t with
    | nil => cases h
    | cons b t =>
      rw [takeUnits] at h
      split_ifs at h with hb
      · cases h
        refine ⟨[], by rw [hb]; rfl, fun fuel' rest' _ => ?_⟩
        rw [List.nil_append, takeUnits_close]
      · cases hunit : takeUnit q (b :: t) with
        | none =>
          rw [hunit] at h
          cases h
        | some pair =>
          obtain ⟨u, r⟩ := pair
          rw [hunit] at h
          obtain ⟨w, rfl, hw⟩ := ih h
          obtain ⟨p, hne, hp, hunit'⟩ := takeUnit_local hq hunit
          obtain ⟨d, p, rfl⟩ := List.exists_cons_of_ne_nil hne
          obtain rfl : b = d := (List.cons.inj hp).1
          refine ⟨b :: p ++ w, by rw [hp, List.append_assoc], fun fuel' rest' hfuel => ?_⟩
          cases fuel' with
          | zero => simp at hfuel
          | succ fuel' =>
            have hunit'' := hunit' rest'
            rw [List.append_assoc]
            rw [List.cons_append] at hunit'' ⊢
            rw [takeUnits, if_neg hb, hunit'']
            dsimp only
            exact hw fuel' rest' (by simp at hfuel; omega)

/-- A literal between double quotes that is read alike before every text. -/
def IsQuoted (w : Text) : Prop :=
  (∃ t, w = byte '"' :: t) ∧ ∃ content, ∀ rest, takeLiteral (w ++ rest) = some (content, rest)

lemma isQuoted_quote (s : Text) : IsQuoted (quote s) := ⟨⟨_, rfl⟩, s, takeLiteral_quote s⟩

lemma IsQuoted.leadingLiteral? {w : Text} (h : IsQuoted w) (rest : Text) :
    Text.leadingLiteral? (w ++ rest) = some w := by
  obtain ⟨content, hcontent⟩ := h.2
  rw [Text.leadingLiteral?, hcontent, Option.map_some]
  dsimp only
  rw [List.length_append, Nat.add_sub_cancel, List.take_left]

/-- A literal between double quotes ends with the quote that closes it. -/
lemma takeLiteral_double {t content rest : Text}
    (h : takeLiteral (byte '"' :: t) = some (content, rest)) :
    ∃ w, t = w ++ byte '"' :: rest ∧ IsQuoted (byte '"' :: w ++ [byte '"']) := by
  rw [takeLiteral, if_pos rfl] at h
  obtain ⟨w, rfl, hw⟩ := takeUnits_local (by decide) h
  refine ⟨w, rfl, ⟨_, List.cons_append⟩, content, fun rest' => ?_⟩
  rw [List.append_assoc, List.singleton_append, List.cons_append, takeLiteral, if_pos rfl]
  exact hw _ _ (by simp)

lemma isQuoted_of_leadingLiteral? {t w : Text} (h : Text.leadingLiteral? (byte '"' :: t) = some w) :
    IsQuoted w ∧ ∃ rest, byte '"' :: t = w ++ rest := by
  obtain ⟨⟨content, rest⟩, hpair, hw⟩ := Option.map_eq_some_iff.mp h
  obtain ⟨v, rfl, hv⟩ := takeLiteral_double hpair
  have hsplit : byte '"' :: (v ++ byte '"' :: rest) = byte '"' :: v ++ [byte '"'] ++ rest := by simp
  dsimp only at hw
  rw [hsplit, List.length_append, Nat.add_sub_cancel, List.take_left] at hw
  subst hw
  exact ⟨hv, rest, hsplit⟩

lemma IsQuoted.eq_append {w : Text} (h : IsQuoted w) : ∃ v, w = v ++ [byte '"'] := by
  obtain ⟨⟨t, rfl⟩, content, hcontent⟩ := h
  have hall := hcontent []
  rw [List.append_nil] at hall
  obtain ⟨v, rfl, -⟩ := takeLiteral_double hall
  exact ⟨byte '"' :: v, rfl⟩

end StackCode.Proofs
