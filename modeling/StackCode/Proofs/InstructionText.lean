import Mathlib
import StackCode.Instr
import StackCode.Proofs.DecimalDigits
import StackCode.Proofs.FloatText
import StackCode.Proofs.Identifiers

/-!
# Instructions in text

An instruction is written as words with blanks between them. The instructions whose words are read
back as the instruction are exactly those that some words are read as.
-/

namespace StackCode.Proofs

open Text

/-! ### Words on a line of their own -/

/-- A word that does not end the line. -/
structure LineWord (w : Text) : Prop where
  isWord : IsWord w
  noNewline : byte '\n' ∉ w

lemma lineWord_of_plain {w : Text} (hne : w ≠ []) (h : ∀ b ∈ w, Words.isPlain b ∧ b ≠ byte '\n') :
    LineWord w :=
  ⟨.inl ⟨hne, fun b hb => (h b hb).1⟩, fun hmem => (h _ hmem).2 rfl⟩

/-- A word of plain bytes, to be checked by evaluation. -/
lemma lineWord_of_check {w : Text}
    (h : (!w.isEmpty && w.all fun b => Words.isPlain b && b != byte '\n') = true) : LineWord w := by
  simp only [Bool.and_eq_true, List.all_eq_true, bne_iff_ne, ne_eq] at h
  exact lineWord_of_plain (by simpa using h.1) h.2

lemma lineWord_of_isIdent {w : Text} (h : isIdent w) : LineWord w :=
  ⟨.inl (isPlainWord_of_isIdent h), not_mem_of_isIdent h (by decide)⟩

lemma lineWord_quote (s : Text) : LineWord (quote s) :=
  ⟨.inr (isQuoted_quote s), newline_not_mem_quote s⟩

lemma isNumeral_plain {b : UInt8} (h : isNumeral b) : Words.isPlain b ∧ b ≠ byte '\n' := by
  have hne : ∀ c, isNumeral c = false → b ≠ c := fun c hc => ne_of_isNumeral h hc
  simp [isPlain_iff, Words.isBlank, Words.startsComment, hne (byte ' ') (by decide),
    hne (byte '\t') (by decide), hne (byte '\r') (by decide), hne (byte '#') (by decide),
    hne (byte ';') (by decide), hne (byte '"') (by decide), hne (byte '\n') (by decide)]

lemma lineWord_float (x : Binary64) : LineWord x.text := by
  rcases float_text_cases x with hname | ⟨hne, hnumeral⟩
  · simp only [List.mem_cons, List.not_mem_nil, or_false] at hname
    rcases hname with hname | hname | hname <;> rw [hname] <;> exact lineWord_of_check (by decide)
  · exact lineWord_of_plain hne fun b hb => isNumeral_plain (hnumeral b hb)

lemma lineWord_ofInt (n : Int) : LineWord (Text.ofInt n) := by
  have hdigits : ∀ b ∈ Text.ofNat n.natAbs, Words.isPlain b ∧ b ≠ byte '\n' :=
    fun b hb => isNumeral_plain (isNumeral_of_digit (allDigits_ofNat _ b hb))
  unfold Text.ofInt
  split_ifs
  · refine lineWord_of_plain (List.cons_ne_nil _ _) fun b hb => ?_
    rcases List.mem_cons.mp hb with rfl | hb
    · decide
    · exact hdigits b hb
  · exact lineWord_of_plain (ofNat_ne_nil _) hdigits

/-! ### Constants -/

/-- The words of a constant. -/
def valueWords : Value → List Text
  | .null => ["null"]
  | .bool b => ["bool", Value.boolText b]
  | .int n => ["int", Text.ofInt n.toInt]
  | .float x => ["float", x.text]
  | .str s => ["str", quote s]

lemma value_text_eq (v : Value) : v.text = join " " (valueWords v) := by
  cases v <;> rfl

/-- A constant that its text tells apart from all others: no NaN but the literal's. -/
def ValueSpelled (v : Value) : Prop := ∀ x, v = .float x → x.isNaN → x = Binary64.nan

lemma readBool?_boolText (b : Bool) : Value.readBool? (Value.boolText b) = some b := by
  cases b <;> decide

/-- The words of a constant are read back as the constant. -/
lemma read_valueWords {v : Value} (h : ValueSpelled v) : Value.read (valueWords v) = .ok v := by
  cases v with
  | null => decide
  | bool b =>
    rw [valueWords, Value.read, if_pos rfl, readBool?_boolText]
    rfl
  | int n =>
    rw [valueWords, Value.read, if_neg (by decide), if_pos rfl, intLiteral?_ofInt]
    rfl
  | float x =>
    rw [valueWords, Value.read, if_neg (by decide), if_neg (by decide), if_pos rfl,
      literal?_text (h x rfl)]
    rfl
  | str s =>
    rw [valueWords, Value.read, if_neg (by decide), if_neg (by decide), if_neg (by decide),
      if_pos rfl, unquote?_quote]
    rfl

lemma lineWord_valueWords (v : Value) : ∀ w ∈ valueWords v, LineWord w := by
  cases v with
  | null =>
    simp only [valueWords, List.mem_cons, List.not_mem_nil, or_false, forall_eq]
    exact lineWord_of_check (by decide)
  | bool b =>
    simp only [valueWords, List.mem_cons, List.not_mem_nil, or_false, forall_eq_or_imp, forall_eq]
    exact ⟨lineWord_of_check (by decide), lineWord_of_check (by cases b <;> decide)⟩
  | int n =>
    simp only [valueWords, List.mem_cons, List.not_mem_nil, or_false, forall_eq_or_imp, forall_eq]
    exact ⟨lineWord_of_check (by decide), lineWord_ofInt _⟩
  | float x =>
    simp only [valueWords, List.mem_cons, List.not_mem_nil, or_false, forall_eq_or_imp, forall_eq]
    exact ⟨lineWord_of_check (by decide), lineWord_float x⟩
  | str s =>
    simp only [valueWords, List.mem_cons, List.not_mem_nil, or_false, forall_eq_or_imp, forall_eq]
    exact ⟨lineWord_of_check (by decide), lineWord_quote s⟩

/-! ### Instructions -/

/-- A count that an instruction may be written with. -/
def IsCount (n : Int) : Prop := 0 ≤ n ∧ n < 2 ^ 63

lemma count?_ofInt {n : Int} (h : IsCount n) : Instr.count? (Text.ofInt n) = some n := by
  obtain ⟨hlow, hhigh⟩ := h
  have hword : (Int64.ofInt n).toInt = n := Int64.toInt_ofInt_of_le (by omega) (by omega)
  have hread := decimal?_ofInt (Int64.ofInt n)
  rw [hword] at hread
  rw [Instr.count?, hread, Option.bind_some, hword, if_neg (by omega)]

lemma isCount_of_count? {t : Text} {n : Int} (h : Instr.count? t = some n) : IsCount n := by
  obtain ⟨k, -, hk⟩ := Option.bind_eq_some_iff.mp h
  have hhigh := k.toInt_lt
  split_ifs at hk with hneg
  cases hk
  exact ⟨by omega, by omega⟩

/-- The instructions that some words are read as. Names are identifiers where reading insists on
that, and any words elsewhere. -/
def Spelled : Instr → Prop
  | .missing | .label _ => False
  | .const v => ValueSpelled v
  | .load name | .store name | .jump name | .jumpIf name | .newObject name | .getProp name
  | .setProp name => isIdent name
  | .assign name inner => LineWord name ∧ Spelled inner
  | .declare name type => LineWord name ∧ (type = [] ∨ LineWord type)
  | .binary op => op ∈ BinOp.all
  | .unary op => op = .neg ∨ op = .not
  | .call function argc => LineWord function ∧ IsCount argc
  | .newArray type size => (type = [] ∨ LineWord type) ∧ IsCount size
  | .ret | .arrayLoad | .arrayStore => True

/-- The words of an instruction. -/
def instrWords : Instr → List Text
  | .missing => ["<nil>"]
  | .const v => "const" :: valueWords v
  | .load name => ["load", name]
  | .store name => ["store", name]
  | .assign name inner => "assign" :: name :: instrWords inner
  | .declare name type => if type.isEmpty then ["declare", name] else ["declare", name, type]
  | .binary op => [op.name]
  | .unary op => [op.name]
  | .call function argc => ["call", function, Text.ofInt argc]
  | .ret => ["ret"]
  | .jump target => ["jump", target]
  | .jumpIf target => ["jumpif", target]
  | .label name => [name ++ ":"]
  | .newArray type size =>
    if type.isEmpty then ["newarray", Text.ofInt size] else ["newarray", type, Text.ofInt size]
  | .arrayLoad => ["aload"]
  | .arrayStore => ["astore"]
  | .newObject name => ["new", name]
  | .getProp name => ["getprop", name]
  | .setProp name => ["setprop", name]

lemma instrWords_ne_nil (i : Instr) : instrWords i ≠ [] := by
  cases i <;> simp [instrWords] <;> split_ifs <;> simp

lemma text_assign (name : Text) {inner : Instr} (h : inner ≠ .missing) :
    (Instr.assign name inner).text = "assign " ++ name ++ " " ++ inner.text := by
  cases inner <;> first | exact absurd rfl h | rfl

/-- An instruction is written as its words. -/
lemma instr_text_eq {i : Instr} (h : Spelled i) : i.text = join " " (instrWords i) := by
  induction i with
  | missing => exact h.elim
  | label name => exact h.elim
  | const v =>
    have hne : valueWords v ≠ [] := by cases v <;> simp [valueWords]
    rw [Instr.text, instrWords, join_cons _ _ hne, ← value_text_eq]
    rfl
  | assign name inner ih =>
    have hinner : inner.text = join " " (instrWords inner) := ih h.2
    have hpresent : inner ≠ .missing := by
      rintro rfl
      exact h.2.elim
    rw [text_assign name hpresent, instrWords, join_cons _ _ (by simp),
      join_cons _ _ (instrWords_ne_nil inner), ← hinner]
    simp only [List.append_assoc]
    rfl
  | declare name type =>
    rw [Instr.text, instrWords]
    split_ifs <;> rfl
  | newArray type size =>
    rw [Instr.text, instrWords]
    split_ifs <;> rfl
  | _ => rfl

lemma lineWord_instrWords {i : Instr} (h : Spelled i) : ∀ w ∈ instrWords i, LineWord w := by
  induction i with
  | missing => exact h.elim
  | label name => exact h.elim
  | const v =>
    simp only [instrWords, List.mem_cons, forall_eq_or_imp]
    exact ⟨lineWord_of_check (by decide), lineWord_valueWords v⟩
  | assign name inner ih =>
    simp only [instrWords, List.mem_cons, forall_eq_or_imp]
    exact ⟨lineWord_of_check (by decide), h.1, ih h.2⟩
  | declare name type =>
    rw [instrWords]
    split_ifs with hempty
    · simp only [List.mem_cons, List.not_mem_nil, or_false, forall_eq_or_imp, forall_eq]
      exact ⟨lineWord_of_check (by decide), h.1⟩
    · simp only [List.mem_cons, List.not_mem_nil, or_false, forall_eq_or_imp, forall_eq]
      exact ⟨lineWord_of_check (by decide), h.1, h.2.resolve_left (by simpa using hempty)⟩
  | newArray type size =>
    rw [instrWords]
    split_ifs with hempty
    · simp only [List.mem_cons, List.not_mem_nil, or_false, forall_eq_or_imp, forall_eq]
      exact ⟨lineWord_of_check (by decide), lineWord_ofInt _⟩
    · simp only [List.mem_cons, List.not_mem_nil, or_false, forall_eq_or_imp, forall_eq]
      exact ⟨lineWord_of_check (by decide), h.1.resolve_left (by simpa using hempty),
        lineWord_ofInt _⟩
  | call function argc =>
    simp only [instrWords, List.mem_cons, List.not_mem_nil, or_false, forall_eq_or_imp, forall_eq]
    exact ⟨lineWord_of_check (by decide), h.1, lineWord_ofInt _⟩
  | binary op =>
    have hnames : ∀ op ∈ BinOp.all,
        (!op.name.isEmpty && op.name.all fun b => Words.isPlain b && b != byte '\n') = true := by
      decide
    simp only [instrWords, List.mem_cons, List.not_mem_nil, or_false, forall_eq]
    exact lineWord_of_check (hnames op h)
  | unary op =>
    simp only [instrWords, List.mem_cons, List.not_mem_nil, or_false, forall_eq]
    rcases h with rfl | rfl <;> exact lineWord_of_check (by decide)
  | ret | arrayLoad | arrayStore =>
    simp only [instrWords, List.mem_cons, List.not_mem_nil, or_false, forall_eq]
    exact lineWord_of_check (by decide)
  | load name | store name | jump name | jumpIf name | newObject name | getProp name
  | setProp name =>
    simp only [instrWords, List.mem_cons, List.not_mem_nil, or_false, forall_eq_or_imp, forall_eq]
    exact ⟨lineWord_of_check (by decide), lineWord_of_isIdent h⟩

/-! ### Reading an instruction back -/

lemma read_word {w : Text} {i : Instr} (h : Instr.ofWord? w = some i) : Instr.read [w] = .ok i := by
  simp [Instr.read, h]

lemma read_named {w name : Text} {make : Text → Instr} (hword : Instr.ofWord? w = none)
    (hmake : Instr.ofNamed? w = some make) (hname : isIdent name) :
    Instr.read [w, name] = .ok (make name) := by
  simp [Instr.read, hword, hmake, hname]

lemma ofWord?_keyword : ∀ w ∈ [Text.ofString "const", Text.ofString "declare",
    Text.ofString "assign", Text.ofString "call", Text.ofString "newarray"],
    Instr.ofWord? w = none := by decide

lemma ofNamed?_keyword : ∀ w ∈ [Text.ofString "const", Text.ofString "declare",
    Text.ofString "assign", Text.ofString "call", Text.ofString "newarray"],
    Instr.ofNamed? w = none := by decide

/-- The words of an instruction are read back as the instruction. -/
lemma read_instrWords {i : Instr} (h : Spelled i) : Instr.read (instrWords i) = .ok i := by
  induction i with
  | missing => exact h.elim
  | label name => exact h.elim
  | const v =>
    rw [instrWords]
    unfold Instr.read
    simp only [ofWord?_keyword (Text.ofString "const") (by simp),
      ofNamed?_keyword (Text.ofString "const") (by simp)]
    rw [if_pos trivial, read_valueWords h]
  | declare name type =>
    have hword := ofWord?_keyword (Text.ofString "declare") (by simp)
    have hnamed := ofNamed?_keyword (Text.ofString "declare") (by simp)
    rw [instrWords]
    split_ifs with hempty
    · obtain rfl : type = [] := by simpa using hempty
      unfold Instr.read
      simp only [hword, hnamed]
      rw [if_neg (by decide), if_pos trivial]
    · unfold Instr.read
      simp only [hword, hnamed]
      rw [if_neg (by decide), if_pos trivial]
  | assign name inner ih =>
    obtain ⟨w, ws, hws⟩ := List.exists_cons_of_ne_nil (instrWords_ne_nil inner)
    have hinner := ih h.2
    rw [instrWords, hws]
    rw [hws] at hinner
    unfold Instr.read
    simp only [ofWord?_keyword (Text.ofString "assign") (by simp),
      ofNamed?_keyword (Text.ofString "assign") (by simp)]
    rw [if_neg (by decide), if_neg (by decide), if_pos trivial, hinner]
  | call function argc =>
    rw [instrWords]
    unfold Instr.read
    simp only [ofWord?_keyword (Text.ofString "call") (by simp),
      ofNamed?_keyword (Text.ofString "call") (by simp)]
    rw [if_neg (by decide), if_neg (by decide), if_neg (by decide), if_pos trivial, count?_ofInt h.2]
  | newArray type size =>
    have hword := ofWord?_keyword (Text.ofString "newarray") (by simp)
    have hnamed := ofNamed?_keyword (Text.ofString "newarray") (by simp)
    rw [instrWords]
    split_ifs with hempty
    · obtain rfl : type = [] := by simpa using hempty
      unfold Instr.read
      simp only [hword, hnamed]
      rw [if_neg (by decide), if_neg (by decide), if_neg (by decide), if_neg (by decide),
        if_pos trivial, Instr.read.array, count?_ofInt h.2]
    · unfold Instr.read
      simp only [hword, hnamed]
      rw [if_neg (by decide), if_neg (by decide), if_neg (by decide), if_neg (by decide),
        if_pos trivial, Instr.read.array, count?_ofInt h.2]
  | binary op =>
    have hnames : ∀ op ∈ BinOp.all, Instr.ofWord? op.name = some (.binary op) := by decide
    exact read_word (hnames op h)
  | unary op => rcases h with rfl | rfl <;> exact read_word (by decide)
  | ret | arrayLoad | arrayStore => exact read_word (by decide)
  | load name => exact read_named (by decide) (by simp +decide [Instr.ofNamed?]) h
  | store name => exact read_named (by decide) (by simp +decide [Instr.ofNamed?]) h
  | jump name => exact read_named (by decide) (by simp +decide [Instr.ofNamed?]) h
  | jumpIf name => exact read_named (by decide) (by simp +decide [Instr.ofNamed?]) h
  | newObject name => exact read_named (by decide) (by simp +decide [Instr.ofNamed?]) h
  | getProp name => exact read_named (by decide) (by simp +decide [Instr.ofNamed?]) h
  | setProp name => exact read_named (by decide) (by simp +decide [Instr.ofNamed?]) h

/-! ### What words are read as -/

lemma spelled_of_ofWord? {w : Text} {i : Instr} (h : Instr.ofWord? w = some i) : Spelled i := by
  unfold Instr.ofWord? at h
  cases hop : BinOp.ofName? w with
  | some op =>
    rw [hop] at h
    cases h
    exact List.mem_of_find?_eq_some hop
  | none =>
    rw [hop] at h
    dsimp only at h
    split_ifs at h <;> cases h
    · exact .inl rfl
    · exact .inr rfl
    all_goals trivial

lemma spelled_of_ofNamed? {w name : Text} {make : Text → Instr} (h : Instr.ofNamed? w = some make)
    (hname : isIdent name) : Spelled (make name) := by
  unfold Instr.ofNamed? at h
  split_ifs at h <;> cases h <;> exact hname

lemma valueSpelled_of_read {ws : List Text} {v : Value} (h : Value.read ws = .ok v) :
    ValueSpelled v := by
  rintro x rfl hnan
  unfold Value.read at h
  split at h
  · split_ifs at h
    cases h
  · split_ifs at h
    · cases hb : Value.readBool? _ with
      | none => rw [hb] at h; cases h
      | some b => rw [hb] at h; cases h
    · cases hn : Number.intLiteral? _ with
      | none => rw [hn] at h; cases h
      | some n => rw [hn] at h; cases h
    · cases hx : Binary64.literal? _ with
      | none => rw [hx] at h; cases h
      | some y =>
        rw [hx] at h
        cases h
        exact eq_nan_of_literal? hx hnan
    · cases hs : unquote? _ with
      | none => rw [hs] at h; cases h
      | some s => rw [hs] at h; cases h
  · cases h

lemma spelled_of_array {type n : Text} {i : Instr} (htype : type = [] ∨ LineWord type)
    (h : Instr.read.array type n = .ok i) : Spelled i := by
  unfold Instr.read.array at h
  cases hn : Instr.count? n with
  | none => rw [hn] at h; cases h
  | some size =>
    rw [hn] at h
    cases h
    exact ⟨htype, isCount_of_count? hn⟩

/-- Words are read only as instructions that words are written for. -/
lemma spelled_of_read {ws : List Text} (hws : ∀ w ∈ ws, LineWord w) {i : Instr}
    (h : Instr.read ws = .ok i) : Spelled i := by
  -- by the number of words: an assignment reads its inner instruction from the last of them
  induction hlength : ws.length using Nat.strong_induction_on generalizing ws i with
  | _ k ih =>
  cases ws with
  | nil => cases h
  | cons op args =>
    have hargs : ∀ w ∈ args, LineWord w := fun w hw => hws w (by simp [hw])
    unfold Instr.read at h
    cases hword : Instr.ofWord? op with
    | some j =>
      rw [hword] at h
      dsimp only at h
      split_ifs at h
      cases h
      exact spelled_of_ofWord? hword
    | none =>
      rw [hword] at h
      cases hnamed : Instr.ofNamed? op with
      | some make =>
        rw [hnamed] at h
        dsimp only at h
        split at h
        · split_ifs at h with hname
          cases h
          exact spelled_of_ofNamed? hnamed hname
        · cases h
      | none =>
        rw [hnamed] at h
        dsimp only at h
        -- const, declare, assign, call and newarray, in the order in which they are told apart
        split_ifs at h
        · cases hv : Value.read args with
          | error e => rw [hv] at h; cases h
          | ok v =>
            rw [hv] at h
            cases h
            exact valueSpelled_of_read hv
        · split at h <;> cases h
          · exact ⟨hargs _ (by simp), .inl rfl⟩
          · exact ⟨hargs _ (by simp), .inr (hargs _ (by simp))⟩
        · split at h
          · rename_i name w ws
            cases hinner : Instr.read (w :: ws) with
            | error e => rw [hinner] at h; cases h
            | ok inner =>
              rw [hinner] at h
              cases h
              refine ⟨hargs _ (by simp), ih (w :: ws).length ?_ (fun v hv => ?_) hinner rfl⟩
              · simp at hlength ⊢
                omega
              · exact hargs v (by simp at hv ⊢; tauto)
          · cases h
        · split at h
          · rename_i function n
            cases hn : Instr.count? n with
            | none => rw [hn] at h; cases h
            | some argc =>
              rw [hn] at h
              cases h
              exact ⟨hargs _ (by simp), isCount_of_count? hn⟩
          · cases h
        · split at h
          · exact spelled_of_array (.inl rfl) h
          · exact spelled_of_array (.inr (hargs _ (by simp))) h
          · cases h

end StackCode.Proofs
