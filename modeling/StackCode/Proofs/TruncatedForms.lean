import StackCode.Proofs.BinaryReading

/-!
# Cut and padded binary forms

What the readers of the binary form do is settled by the bytes that they read. With further bytes
behind these they read the same. If the input ends too early, they report that, whatever stands
before the end. So the binary form of a program starts no other one.
-/

namespace StackCode.Proofs

open Text Program Program.Binary

/-! ### Readers and the end of the input -/

/-- The input with more bytes behind it. -/
def padded (i : Input) (more : Text) : Input := ⟨i.rest ++ more, i.position⟩

/-- The position where the input ends. -/
def endOf (i : Input) : Nat := i.position + i.rest.length

/-- A reader that minds the end of its input only: what it reads is read from a longer input too,
and from a shorter one unless that ends too early. -/
structure Streams {α : Type} (r : Reader α) : Prop where
  pad : ∀ {i j : Input} {a : α} (more : Text), r i = .ok (a, j) →
    r (padded i more) = .ok (a, padded j more)
  cut : ∀ {i j : Input} {a : α} {more : Text}, r (padded i more) = .ok (a, j) →
    (∃ k, r i = .ok (a, k) ∧ endOf k = endOf i ∧ j = padded k more) ∨
      ∃ what position, position ≤ endOf i ∧ r i = .error (.shortRead what position)

lemma bytes_eq (n : Nat) (what : Text) (i : Input) :
    bytes n what i = if n ≤ i.rest.length then
      .ok (i.rest.take n, ⟨i.rest.drop n, i.position + n⟩)
    else .error (.shortRead what i.position) := by
  unfold bytes takeExact?
  simp only [List.splitAt_eq, List.length_take, min_eq_left_iff]
  split_ifs <;> rfl

lemma streams_bytes (n : Nat) (what : Text) : Streams (bytes n what) where
  pad := by
    intro i j a more h
    rw [bytes_eq] at h
    split_ifs at h with hlong
    cases h
    have hlonger : n ≤ (padded i more).rest.length := by
      rw [padded, List.length_append]
      omega
    rw [bytes_eq, if_pos hlonger]
    simp only [padded, List.take_append_of_le_length hlong, List.drop_append_of_le_length hlong]
  cut := by
    intro i j a more h
    rw [bytes_eq] at h
    split_ifs at h with hlonger
    cases h
    rw [bytes_eq]
    by_cases hlong : n ≤ i.rest.length
    · left
      refine ⟨⟨i.rest.drop n, i.position + n⟩, ?_, ?_, ?_⟩
      · rw [if_pos hlong, padded, List.take_append_of_le_length hlong]
      · simp only [endOf, List.length_drop]
        omega
      · simp only [padded, List.drop_append_of_le_length hlong]
    · right
      exact ⟨what, i.position, Nat.le_add_right _ _, if_neg hlong⟩

lemma streams_ok {α : Type} (a : α) : Streams fun i => .ok (a, i) where
  pad := by
    intro i j b more h
    cases h
    rfl
  cut := by
    intro i j b more h
    cases h
    exact .inl ⟨i, rfl, rfl, rfl⟩

/-- A reader that refuses what came before it. -/
lemma streams_error {α : Type} (e : DecodeError) :
    Streams fun _ => (.error e : Except _ (α × _)) where
  pad := by
    intro i j a more h
    cases h
  cut := by
    intro i j a more h
    cases h

/-- A reader after a reader: the input may end in the first or in the second one. -/
lemma Streams.bind {α β : Type} {r : Reader α} {g : α × Input → Except DecodeError (β × Input)}
    (hr : Streams r) (hg : ∀ a, Streams fun i => g (a, i)) : Streams fun i => r i >>= g where
  pad := by
    intro i j b more h
    obtain ⟨⟨a, k⟩, hread, hrest⟩ := bind_eq_ok_iff.mp h
    exact bind_eq_ok_iff.mpr ⟨_, hr.pad more hread, (hg a).pad more hrest⟩
  cut := by
    intro i j b more h
    obtain ⟨⟨a, k⟩, hread, hrest⟩ := bind_eq_ok_iff.mp h
    rcases hr.cut hread with ⟨k, hk, hend, rfl⟩ | ⟨what, position, hle, hk⟩
    · rcases (hg a).cut hrest with ⟨l, hl, hend', rfl⟩ | ⟨what, position, hle, hl⟩
      · exact .inl ⟨l, bind_eq_ok_iff.mpr ⟨_, hk, hl⟩, hend'.trans hend, rfl⟩
      · refine .inr ⟨what, position, hend ▸ hle, bind_eq_error_iff.mpr (.inr ⟨_, hk, hl⟩)⟩
    · exact .inr ⟨what, position, hle, bind_eq_error_iff.mpr (.inl hk)⟩

/-! ### The readers of the binary form -/

lemma streams_readNumber (width : Nat) (what : Text) : Streams (readNumber width what) :=
  (streams_bytes width what).bind fun front => streams_ok (littleEndian front)

lemma streams_readMany {α : Type} {step : Nat → Reader α} (hstep : ∀ k, Streams (step k))
    (k n : Nat) (acc : List α) : Streams (readMany step k n acc) := by
  induction n generalizing k acc with
  | zero => exact streams_ok acc.reverse
  | succ n ih =>
    have hsteps : readMany step k (n + 1) acc =
        fun i => step k i >>= fun x => readMany step (k + 1) n (x.1 :: acc) x.2 := by
      funext i
      rw [readMany]
      cases step k i <;> rfl
    rw [hsteps]
    exact (hstep k).bind fun a => ih (k + 1) (a :: acc)

lemma streams_readList {α : Type} (what : Text) {step : Nat → Reader α}
    (hstep : ∀ k, Streams (step k)) : Streams (readList what step) :=
  (streams_readNumber 2 what).bind fun n => streams_readMany hstep 0 n []

lemma streams_readFunction : Streams readFunction := by
  refine (streams_readNumber 2 _).bind fun n => ?_
  refine (streams_bytes n _).bind fun name => ?_
  refine (streams_readNumber 2 _).bind fun locals => ?_
  refine (streams_readNumber 2 _).bind fun params => ?_
  refine (streams_readNumber 4 _).bind fun n => ?_
  refine (streams_bytes n _).bind fun code => ?_
  exact streams_ok _

lemma streams_readConstant (k : Nat) : Streams (readConstant k) := by
  refine (streams_readNumber 1 _).bind fun tag => ?_
  dsimp only
  cases Value.Kind.ofTag? tag.toUInt8 with
  | none => exact streams_error _
  | some kind =>
    cases kind with
    | null => exact streams_ok Value.null
    | bool => exact (streams_readNumber 1 _).bind fun b => streams_ok (Value.bool (b != 0))
    | int => exact (streams_readNumber 8 _).bind fun n => streams_ok (Value.int n.toUInt64.toInt64)
    | float => exact (streams_readNumber 8 _).bind fun n => streams_ok (Value.float ⟨n.toUInt64⟩)
    | str =>
      refine (streams_readNumber 4 _).bind fun n => ?_
      exact (streams_bytes n _).bind fun s => streams_ok (Value.str s)

lemma streams_readSymbol : Streams readSymbol :=
  (streams_readNumber 2 _).bind fun n => streams_bytes n _

/-! ### Whole forms -/

/-- Reads the three tables. -/
def readTables : Reader Program := fun i => do
  let (functions, i) ← readList "function count" (fun _ => readFunction) i
  let (constants, i) ← readList "constant count" readConstant i
  let (symbols, i) ← readList "symbol count" (fun _ => readSymbol) i
  return ({ functions, constants, symbols }, i)

/-- Reads what follows the mark. -/
def readVersioned : Reader Program := fun i => do
  let (v, i) ← readNumber 2 "version" i
  if version.toNat < v then .error (.newerVersion v) else readTables i

lemma streams_readTables : Streams readTables := by
  refine (streams_readList _ fun _ => streams_readFunction).bind fun functions => ?_
  refine (streams_readList _ streams_readConstant).bind fun constants => ?_
  refine (streams_readList _ fun _ => streams_readSymbol).bind fun symbols => ?_
  exact streams_ok _

lemma streams_readVersioned : Streams readVersioned := by
  refine (streams_readNumber 2 _).bind fun v => ?_
  by_cases hnew : version.toNat < v
  · simp only [if_pos hnew]
    exact streams_error _
  · simp only [if_neg hnew]
    exact streams_readTables

/-- The program, if nothing follows it. -/
def atEnd (x : Program × Input) : Except DecodeError Program :=
  if x.2.rest.isEmpty then .ok x.1 else .error (.trailing x.2.rest.length)

/-- Decoding looks at the length and the mark, and then reads up to the end. -/
lemma decode_eq (data : Text) :
    decode data = if data.length < 8 then .error (.tooShort data.length)
      else if !isBinary data then .error (.badMagic (data.take 4))
      else readVersioned ⟨data.drop 4, 4⟩ >>= atEnd := by
  unfold decode readVersioned readTables
  split_ifs with hshort hmagic
  · rfl
  · rfl
  · rw [bind_assoc]
    congr 1
    funext x
    by_cases hnew : version.toNat < x.1
    · simp only [if_pos hnew]
      rfl
    · simp only [if_neg hnew, bind_assoc]
      rfl

lemma decode_of_mark {data : Text} (hlength : 8 ≤ data.length) (hmark : isBinary data = true) :
    decode data = readVersioned ⟨data.drop 4, 4⟩ >>= atEnd := by
  rw [decode_eq, if_neg (by omega), if_neg (by simp [hmark])]

/-- What is accepted has the mark and is read to its end. -/
lemma read_of_decode {data : Text} {p : Program} (h : decode data = .ok p) :
    8 ≤ data.length ∧ isBinary data = true ∧
      ∃ i, readVersioned ⟨data.drop 4, 4⟩ = .ok (p, i) ∧ i.rest = [] := by
  rw [decode_eq] at h
  split_ifs at h with hshort hmark
  refine ⟨Nat.not_lt.mp hshort, by simpa using hmark, ?_⟩
  obtain ⟨⟨q, i⟩, hread, hend⟩ := bind_eq_ok_iff.mp h
  unfold atEnd at hend
  split_ifs at hend with hempty
  cases hend
  exact ⟨i, hread, List.isEmpty_iff.mp hempty⟩

lemma decode_padded {d more : Text} {p : Program} (hmore : more ≠ []) (h : decode d = .ok p) :
    decode (d ++ more) = .error (.trailing more.length) := by
  obtain ⟨hlength, hmark, i, hread, hend⟩ := read_of_decode h
  have hlonger : 8 ≤ (d ++ more).length := by
    rw [List.length_append]
    omega
  have hmark' : isBinary (d ++ more) = true := by
    rw [isBinary, List.isPrefixOf_iff_prefix] at hmark ⊢
    exact hmark.trans (List.prefix_append d more)
  have hdrop : (d ++ more).drop 4 = d.drop 4 ++ more :=
    List.drop_append_of_le_length (by omega)
  have hreads := streams_readVersioned.pad more hread
  rw [decode_of_mark hlonger hmark', hdrop]
  refine bind_eq_error_iff.mpr (.inr ⟨_, hreads, ?_⟩)
  rw [atEnd, padded, hend, List.nil_append, if_neg (by simpa using hmore)]

lemma decode_cut {d more : Text} {p : Program} (hmore : more ≠ [])
    (h : decode (d ++ more) = .ok p) :
    if d.length < 8 then decode d = .error (.tooShort d.length)
    else ∃ what position, position ≤ d.length ∧ decode d = .error (.shortRead what position) := by
  obtain ⟨-, hmark, j, hread, hend⟩ := read_of_decode h
  split_ifs with hshort
  · rw [decode_eq, if_pos hshort]
  · have hmark' : isBinary d = true := by
      rw [isBinary, List.isPrefixOf_iff_prefix] at hmark ⊢
      have hfour : magic.length = 4 := rfl
      exact List.prefix_of_prefix_length_le hmark (List.prefix_append d more) (by omega)
    have hdrop : (d ++ more).drop 4 = d.drop 4 ++ more :=
      List.drop_append_of_le_length (by omega)
    rw [hdrop] at hread
    have hlonger : readVersioned (padded ⟨d.drop 4, 4⟩ more) = .ok (p, j) := hread
    rw [decode_of_mark (Nat.not_lt.mp hshort) hmark']
    rcases streams_readVersioned.cut hlonger with ⟨k, -, -, rfl⟩ | ⟨what, position, hle, hk⟩
    · -- what was cut off would be left over
      exact absurd (List.append_eq_nil_iff.mp hend).2 hmore
    · refine ⟨what, position, ?_, bind_eq_error_iff.mpr (.inl hk)⟩
      simp only [endOf, List.length_drop] at hle
      omega

/-- Of two texts of which one starts the other, at most one is the binary form of a program. A form
with bytes after it is refused for these bytes, and a form that is cut short is refused because it
ends too early. -/
theorem cut_or_padded_refused {d d' : Text} (hcut : d' <+: d) (hne : d' ≠ d) :
    ¬((∃ p, decode d' = .ok p) ∧ ∃ p, decode d = .ok p) ∧
      (∀ p, decode d' = .ok p → decode d = .error (.trailing (d.length - d'.length))) ∧
      ∀ p, decode d = .ok p →
        if d'.length < 8 then decode d' = .error (.tooShort d'.length)
        else ∃ what position, position ≤ d'.length ∧
          decode d' = .error (.shortRead what position) := by
  obtain ⟨more, rfl⟩ := hcut
  have hmore : more ≠ [] := by
    rintro rfl
    exact hne (List.append_nil d').symm
  have hpadded : ∀ p, decode d' = .ok p →
      decode (d' ++ more) = .error (.trailing ((d' ++ more).length - d'.length)) := by
    intro p hp
    rw [decode_padded hmore hp, List.length_append, Nat.add_sub_cancel_left]
  refine ⟨?_, hpadded, fun p hp => decode_cut hmore hp⟩
  rintro ⟨⟨p, hp⟩, q, hq⟩
  rw [hpadded p hp] at hq
  cases hq

/-- A form with a function, a text and a symbol, cut inside the text. What is left ends in a length
that promises more. -/
def cutForm : Text :=
  magic ++ [1, 0] ++ [1, 0] ++ [1, 0, 102, 0, 0, 0, 0, 1, 0, 0, 0, 0xF0] ++
    [1, 0, 4, 2, 0, 0, 0, 104]

theorem cutForm_refused :
    decode (cutForm ++ [105, 0, 0]) = .ok
        { functions := [⟨[102], some #[0xF0], 0, 0⟩], constants := [.str [104, 105]] } ∧
      ∃ what position, position ≤ 28 ∧ decode cutForm = .error (.shortRead what position) := by
  have haccepted : decode (cutForm ++ [105, 0, 0]) = .ok
      { functions := [⟨[102], some #[0xF0], 0, 0⟩], constants := [.str [104, 105]] } := by decide
  refine ⟨haccepted, ?_⟩
  have hstarts : cutForm <+: cutForm ++ [105, 0, 0] := List.prefix_append _ _
  exact (cut_or_padded_refused hstarts (by decide)).2.2 _ haccepted

end StackCode.Proofs
