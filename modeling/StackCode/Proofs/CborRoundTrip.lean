import StackCode.Program.Cbor
import StackCode.Proofs.CborReading

/-!
# Programs in CBOR

Decoding the CBOR form of a program gives that program if its lists keep the limits of reading and
its texts are UTF-8, and fails otherwise.
-/

namespace StackCode.Proofs

open Cbor Program Program.CborForm

lemma toText?_text (t : Text) : toText? (.text [t]) = if t.isUtf8 then some t else none := by
  simp [toText?, untag]

lemma toNat?_uint {limit n : Nat} (h : n < limit) : toNat? limit (.uint n) = some n := by
  simp [toNat?, untag, h]

lemma toInt64?_integerItem (n : Int64) : toInt64? (integerItem n) = some n := by
  have hlow := n.le_toInt
  have hhigh := n.toInt_lt
  unfold integerItem
  split_ifs with hneg
  · have hlt : (-1 - n.toInt).toNat < Nat.pow 2 63 := by
      show (-1 - n.toInt).toNat < 2 ^ 63
      omega
    have hback : -1 - ((-1 - n.toInt).toNat : Int) = n.toInt := by omega
    simp only [toInt64?, untag, hlt, if_true, hback, Int64.ofInt_toInt]
  · have hlt : n.toInt.toNat < Nat.pow 2 63 := by
      show n.toInt.toNat < 2 ^ 63
      omega
    have hback : Int64.ofNat n.toInt.toNat = n := by
      rw [← Int64.ofInt_eq_ofNat, Int.toNat_of_nonneg (by omega), Int64.ofInt_toInt]
    show (toNat? _ _).map _ = _
    rw [toNat?_uint hlt, Option.map_some, hback]

/-! ### Functions -/

/-- Code as an item; having none is null. -/
def codeItem : Option Code → Item
  | none => .simple 22
  | some code => .bytes code.toList

def functionRecord (f : Routine) : List Field :=
  [{ name := "code", item := codeItem f.code }, { name := "name", item := .text [f.name] },
    { name := "locals", item := .uint f.locals.toNat },
    { name := "params", item := .uint f.params.toNat }]

lemma written_function (f : Routine) : Written (ofFunction f) (recordItem (functionRecord f)) := by
  have hlocals := f.locals.toNat_lt
  have hparams := f.params.toNat_lt
  have hcode : Written ((f.code.map fun c => ofBytes c.toList).getD null) (codeItem f.code) := by
    cases f.code with
    | none => exact written_null
    | some code => exact written_ofBytes code.toList
  apply written_ofFields
  refine .cons ⟨rfl, hcode⟩ (.cons ⟨rfl, written_ofText f.name⟩ (.cons ⟨rfl, ?_⟩
    (.cons ⟨rfl, ?_⟩ .nil)))
  · exact written_ofNat (by omega)
  · exact written_ofNat (by omega)

lemma toFunction?_record (f : Routine) :
    toFunction? (recordItem (functionRecord f)) = if f.name.isUtf8 then some f else none := by
  have hnodup : ((functionRecord f).map Field.name).Nodup := by
    show (["code", "name", "locals", "params"] : List Text).Nodup
    decide
  have hkeys : ∀ k ∈ (functionRecord f).map Field.name,
      k.isUtf8 ∧ matchField functionFields (.name k) = some (.name k) := by
    show ∀ k ∈ (["code", "name", "locals", "params"] : List Text), _
    decide
  have hcode : field? (recordOf (functionRecord f)) (key "code") none toBytes? =
      some (f.code.map Array.toList) := by
    apply (field?_recordOf hnodup (f := ⟨"code", codeItem f.code, false⟩) (by simp [functionRecord])
      none toBytes?).trans
    cases f.code <;> rfl
  have hname : field? (recordOf (functionRecord f)) (key "name") [] toText? =
      if f.name.isUtf8 then some f.name else none :=
    (field?_recordOf hnodup (f := ⟨"name", .text [f.name], false⟩) (by simp [functionRecord])
      [] toText?).trans (toText?_text f.name)
  have hlocals : field? (recordOf (functionRecord f)) (key "locals") 0 (toNat? 65536) =
      some f.locals.toNat :=
    (field?_recordOf hnodup (f := ⟨"locals", .uint f.locals.toNat, false⟩) (by simp [functionRecord])
      0 (toNat? 65536)).trans (toNat?_uint f.locals.toNat_lt)
  have hparams : field? (recordOf (functionRecord f)) (key "params") 0 (toNat? 65536) =
      some f.params.toNat :=
    (field?_recordOf hnodup (f := ⟨"params", .uint f.params.toNat, false⟩) (by simp [functionRecord])
      0 (toNat? 65536)).trans (toNat?_uint f.params.toNat_lt)
  unfold toFunction?
  simp only [toRecord?_recordItem hkeys hnodup, Option.bind_eq_bind, Option.bind_some, hcode, hname,
    hlocals, hparams]
  have hback : (f.code.map Array.toList).map List.toArray = f.code := by cases f.code <;> simp
  rw [hback]
  by_cases hutf8 : f.name.isUtf8
  · simp [hutf8]
  · simp [hutf8]

/-! ### Constants -/

def constantRecord (c : Tagged) : List Field :=
  [{ name := "b", item := .simple (if c.bool then 21 else 20), isLeftOut := !c.bool },
    { name := "f", item := .uint c.bits.toNat, isLeftOut := c.bits == 0 },
    { name := "i", item := integerItem c.int, isLeftOut := c.int == 0 },
    { name := "k", item := .uint c.kind.toNat },
    { name := "s", item := .text [c.str], isLeftOut := c.str.isEmpty }]

lemma unlessEmpty_entries {t name : Text} {i : Item} (h : Written t i) (isEmpty : Bool) :
    List.Forall₂ (fun kt ki => kt.1 = ki.1 ∧ Written kt.2 ki.2) (unlessEmpty isEmpty name t)
      (Field.entries ⟨name, i, isEmpty⟩) := by
  unfold unlessEmpty Field.entries
  split_ifs
  · exact .nil
  · exact .cons ⟨rfl, h⟩ .nil

lemma written_constant (c : Tagged) : Written (ofConstant c) (recordItem (constantRecord c)) := by
  have hbits := c.bits.toNat_lt
  have hkind := c.kind.toNat_lt
  apply written_ofFields
  have hentries : (constantRecord c).flatMap Field.entries =
      Field.entries ⟨"b", .simple (if c.bool then 21 else 20), !c.bool⟩ ++
      Field.entries ⟨"f", .uint c.bits.toNat, c.bits == 0⟩ ++
      Field.entries ⟨"i", integerItem c.int, c.int == 0⟩ ++ [(Text.ofString "k", .uint c.kind.toNat)] ++
      Field.entries ⟨"s", .text [c.str], c.str.isEmpty⟩ := by
    simp only [constantRecord, List.flatMap_cons, List.flatMap_nil, List.append_nil,
      List.append_assoc]
    rfl
  rw [hentries]
  apply List.rel_append
  · apply List.rel_append
    · apply List.rel_append
      · apply List.rel_append
        · exact unlessEmpty_entries (written_ofBool c.bool) _
        · exact unlessEmpty_entries (written_ofNat (by omega)) _
      · exact unlessEmpty_entries (written_ofInt64 c.int) _
    · exact .cons ⟨rfl, written_ofNat (by omega)⟩ .nil
  · exact unlessEmpty_entries (written_ofText c.str) _

lemma toConstant?_record (c : Tagged) :
    toConstant? (recordItem (constantRecord c)) = if c.str.isUtf8 then some c else none := by
  have hnodup : ((constantRecord c).map Field.name).Nodup := by
    show (["b", "f", "i", "k", "s"] : List Text).Nodup
    decide
  have hkeys : ∀ k ∈ (constantRecord c).map Field.name,
      k.isUtf8 ∧ matchField constantFields (.name k) = some (.name k) := by
    show ∀ k ∈ (["b", "f", "i", "k", "s"] : List Text), _
    decide
  have hkind : field? (recordOf (constantRecord c)) (key "k") 0 (toNat? 256) = some c.kind.toNat :=
    (field?_recordOf hnodup (f := ⟨"k", .uint c.kind.toNat, false⟩) (by simp [constantRecord])
      0 (toNat? 256)).trans (toNat?_uint c.kind.toNat_lt)
  have hbool : field? (recordOf (constantRecord c)) (key "b") false toBool? = some c.bool := by
    apply (field?_recordOf hnodup (f := ⟨"b", .simple (if c.bool then 21 else 20), !c.bool⟩)
      (by simp [constantRecord]) false toBool?).trans
    cases c.bool <;> rfl
  have hint : field? (recordOf (constantRecord c)) (key "i") 0 toInt64? = some c.int := by
    apply (field?_recordOf hnodup (f := ⟨"i", integerItem c.int, c.int == 0⟩)
      (by simp [constantRecord]) 0 toInt64?).trans
    rw [toInt64?_integerItem]
    split_ifs with hzero
    · rw [beq_iff_eq.mp hzero]
    · rfl
  have hbits : field? (recordOf (constantRecord c)) (key "f") 0 (toNat? (Nat.pow 2 64)) =
      some c.bits.toNat := by
    apply (field?_recordOf hnodup (f := ⟨"f", .uint c.bits.toNat, c.bits == 0⟩)
      (by simp [constantRecord]) 0 (toNat? (Nat.pow 2 64))).trans
    rw [toNat?_uint c.bits.toNat_lt]
    split_ifs with hzero
    · rw [beq_iff_eq.mp hzero]
      rfl
    · rfl
  have hstr : field? (recordOf (constantRecord c)) (key "s") [] toText? =
      if c.str.isUtf8 then some c.str else none := by
    apply (field?_recordOf hnodup (f := ⟨"s", .text [c.str], c.str.isEmpty⟩)
      (by simp [constantRecord]) [] toText?).trans
    rw [toText?_text]
    cases c.str <;> rfl
  unfold toConstant?
  simp only [toRecord?_recordItem hkeys hnodup, Option.bind_eq_bind, Option.bind_some, hkind, hbool,
    hint, hbits, hstr]
  by_cases hutf8 : c.str.isUtf8
  · simp [hutf8]
  · simp [hutf8]

/-! ### Programs -/

def envelopeRecord (p : Program) : List Field :=
  [{ name := "magic", item := .text [magic] },
    { name := "symbols", item := .array (p.symbols.map fun s => .text [s]),
      isLeftOut := p.symbols.isEmpty },
    { name := "version", item := .uint version.toNat },
    { name := "constants",
      item := .array (p.constants.map fun v => recordItem (constantRecord (Tagged.ofValue v))) },
    { name := "functions", item := .array (p.functions.map fun f => recordItem (functionRecord f)) }]

lemma written_encode (p : Program) : Written (encode p) (recordItem (envelopeRecord p)) := by
  have hlist : ∀ {α : Type} (xs : List α) (write : α → Text) (item : α → Item),
      (∀ x, Written (write x) (item x)) → Written (ofList (xs.map write)) (.array (xs.map item)) := by
    intro α xs write item hwritten
    apply written_ofList
    rw [List.forall₂_map_left_iff, List.forall₂_map_right_iff, List.forall₂_same]
    exact fun x _ => hwritten x
  have hconstants := hlist p.constants (ofConstant ∘ Tagged.ofValue)
    (fun v => recordItem (constantRecord (Tagged.ofValue v))) fun v => written_constant _
  rw [← List.map_map] at hconstants
  apply written_ofFields
  have hentries : (envelopeRecord p).flatMap Field.entries =
      [(Text.ofString "magic", .text [magic])] ++
      Field.entries ⟨"symbols", .array (p.symbols.map fun s => .text [s]), p.symbols.isEmpty⟩ ++
      [(Text.ofString "version", .uint version.toNat),
        (Text.ofString "constants",
          .array (p.constants.map fun v => recordItem (constantRecord (Tagged.ofValue v)))),
        (Text.ofString "functions",
          .array (p.functions.map fun f => recordItem (functionRecord f)))] := by
    simp only [envelopeRecord, List.flatMap_cons, List.flatMap_nil, List.append_assoc]
    rfl
  rw [hentries]
  apply List.rel_append
  · apply List.rel_append
    · exact .cons ⟨rfl, written_ofText magic⟩ .nil
    · exact unlessEmpty_entries (hlist p.symbols ofText _ written_ofText) _
  · exact .cons ⟨rfl, written_ofNat (n := version.toNat) (by decide)⟩ (.cons ⟨rfl, hconstants⟩
      (.cons ⟨rfl, hlist p.functions ofFunction _ written_function⟩ .nil))

/-- The texts of a program are UTF-8. -/
def textsAreUtf8 (p : Program) : Bool :=
  p.functions.all (fun f => f.name.isUtf8) &&
    p.constants.all (fun v => (Tagged.ofValue v).str.isUtf8) && p.symbols.all Text.isUtf8

/-- The lists of a program are not too long to be read. -/
def listsAreReadable (p : Program) : Bool :=
  p.functions.length ≤ maxElements && p.constants.length ≤ maxElements &&
    p.symbols.length ≤ maxElements

/-- A program that can be read back from its CBOR form. -/
def readable (p : Program) : Bool := listsAreReadable p && textsAreUtf8 p

lemma toList?_array {α β : Type} {read : Item → Option β} {item : α → Item} {value : α → β}
    {accepts : α → Bool} (h : ∀ x, read (item x) = if accepts x then some (value x) else none)
    (xs : List α) :
    toList? read (.array (xs.map item)) =
      if xs.all accepts then some (xs.map value) else none := by
  show (xs.map item).mapM read = _
  induction xs with
  | nil => rfl
  | cons x xs ih =>
    rw [List.map_cons, List.mapM_cons, h, ih, List.all_cons, List.map_cons]
    cases accepts x with
    | false => rfl
    | true => cases xs.all accepts <;> rfl

lemma toEnvelope?_record (p : Program) :
    toEnvelope? (recordItem (envelopeRecord p)) =
      if textsAreUtf8 p then some (Envelope.ofProgram p) else none := by
  have hnodup : ((envelopeRecord p).map Field.name).Nodup := by
    show (["magic", "symbols", "version", "constants", "functions"] : List Text).Nodup
    decide
  have hkeys : ∀ k ∈ (envelopeRecord p).map Field.name,
      k.isUtf8 ∧ matchField envelopeFields (.name k) = some (.name k) := by
    show ∀ k ∈ (["magic", "symbols", "version", "constants", "functions"] : List Text), _
    decide
  have hmagic : field? (recordOf (envelopeRecord p)) (key "magic") [] toText? = some magic :=
    (field?_recordOf hnodup (f := ⟨"magic", .text [magic], false⟩) (by simp [envelopeRecord])
      [] toText?).trans rfl
  have hversion : field? (recordOf (envelopeRecord p)) (key "version") 0 (toNat? 65536) =
      some version.toNat :=
    (field?_recordOf hnodup (f := ⟨"version", .uint version.toNat, false⟩)
      (by simp [envelopeRecord]) 0 (toNat? 65536)).trans rfl
  have hsymbols : field? (recordOf (envelopeRecord p)) (key "symbols") [] (toList? toText?) =
      if p.symbols.all Text.isUtf8 then some p.symbols else none := by
    apply (field?_recordOf hnodup (f := ⟨"symbols", .array (p.symbols.map fun s => .text [s]),
      p.symbols.isEmpty⟩) (by simp [envelopeRecord]) [] (toList? toText?)).trans
    rw [toList?_array toText?_text, List.map_id']
    cases p.symbols <;> rfl
  have hconstants : field? (recordOf (envelopeRecord p)) (key "constants") []
      (toList? toConstant?) =
      if p.constants.all (fun v => (Tagged.ofValue v).str.isUtf8) then
        some (p.constants.map Tagged.ofValue) else none :=
    (field?_recordOf hnodup (f := ⟨"constants", .array (p.constants.map fun v =>
      recordItem (constantRecord (Tagged.ofValue v))), false⟩) (by simp [envelopeRecord])
      [] (toList? toConstant?)).trans
      (toList?_array (fun v => toConstant?_record (Tagged.ofValue v)) p.constants)
  have hfunctions : field? (recordOf (envelopeRecord p)) (key "functions") []
      (toList? toFunction?) =
      if p.functions.all (fun f => f.name.isUtf8) then some p.functions else none := by
    apply (field?_recordOf hnodup (f := ⟨"functions", .array (p.functions.map fun f =>
      recordItem (functionRecord f)), false⟩) (by simp [envelopeRecord])
      [] (toList? toFunction?)).trans
    have hread := toList?_array toFunction?_record p.functions
    rw [List.map_id'] at hread
    exact hread
  unfold toEnvelope? textsAreUtf8
  simp only [toRecord?_recordItem hkeys hnodup, Option.bind_eq_bind, Option.bind_some, hmagic,
    hversion, hsymbols, hconstants, hfunctions]
  cases p.functions.all (fun f => f.name.isUtf8) <;>
    cases p.constants.all (fun v => (Tagged.ofValue v).str.isUtf8) <;>
    cases p.symbols.all Text.isUtf8 <;> rfl

lemma open_ofProgram (p : Program) : (Envelope.ofProgram p).open = .ok p := by
  have hvalue : ∀ v : Value, (Tagged.ofValue v).value? = some v := by
    intro v
    cases v <;> rfl
  have hvalues : ∀ (vs : List Value) (k : Nat) (acc : List Value),
      Envelope.values k acc (vs.map Tagged.ofValue) = .ok (acc.reverse ++ vs) := by
    intro vs
    induction vs with
    | nil => simp [Envelope.values]
    | cons v vs ih => simp [Envelope.values, hvalue, ih]
  have hversion : ¬version < version := by decide
  simp [Envelope.open, Envelope.ofProgram, hvalues, hversion]

lemma withinLimits_envelope (p : Program) :
    withinLimits maxLevels (recordItem (envelopeRecord p)) = listsAreReadable p := by
  have hconstant : ∀ c, withinLimits 30 (recordItem (constantRecord c)) = true := by
    intro c
    have hinteger : withinLimits 29 (integerItem c.int) = true := by
      unfold integerItem
      split_ifs <;> rfl
    rw [withinLimits_record (by simp [constantRecord, maxElements])]
    simp [constantRecord, withinLimits, hinteger]
  have hfunction : ∀ f, withinLimits 30 (recordItem (functionRecord f)) = true := by
    intro f
    have hcode : withinLimits 29 (codeItem f.code) = true := by cases f.code <;> rfl
    rw [withinLimits_record (by simp [functionRecord, maxElements])]
    simp [functionRecord, withinLimits, hcode]
  have hsymbols : (p.symbols.isEmpty || decide (p.symbols.length ≤ maxElements)) =
      decide (p.symbols.length ≤ maxElements) := by
    cases p.symbols <;> simp
  have hlist : ∀ {α : Type} (xs : List α) (item : α → Item), (∀ x, withinLimits 30 (item x) = true) →
      withinLimits 31 (.array (xs.map item)) = decide (xs.length ≤ maxElements) := by
    intro α xs item hitem
    have hall : (xs.map item).all (withinLimits 30) = true := by simp [hitem]
    rw [withinLimits_array, hall, Bool.and_true, List.length_map]
  have htexts := hlist p.symbols (fun s => .text [s]) fun _ => rfl
  have hconstants := hlist p.constants _ fun v => hconstant (Tagged.ofValue v)
  have hfunctions := hlist p.functions _ hfunction
  have hmagic : withinLimits 31 (.text [magic]) = true := rfl
  have hversion : withinLimits 31 (.uint version.toNat) = true := rfl
  show withinLimits (31 + 1) _ = _
  rw [withinLimits_record (by simp [envelopeRecord, maxElements])]
  simp only [envelopeRecord, List.all_cons, List.all_nil, htexts, hconstants, hfunctions, hmagic,
    hversion, hsymbols, Bool.and_true, Bool.true_and, Bool.false_or, listsAreReadable]
  rw [Bool.and_comm, Bool.and_comm (decide (p.constants.length ≤ maxElements))]

/-- Decoding the CBOR form of a program. -/
theorem cbor_decode_encode {p : Program} (h : (encode p).length < 2 ^ 64) :
    decode (encode p) = if readable p then .ok p else .error .malformed := by
  unfold decode readable
  rw [read_written (written_encode p) h, withinLimits_envelope]
  cases listsAreReadable p with
  | false => rfl
  | true =>
    rw [if_pos rfl, Option.bind_some, toEnvelope?_record]
    cases textsAreUtf8 p with
    | false => rfl
    | true =>
      rw [if_pos rfl]
      simp [open_ofProgram, Except.mapError]

end StackCode.Proofs
