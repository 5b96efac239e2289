import StackCode.Proofs.CborRoundTrip
import StackCode.Proofs.MessagePackReading

/-!
# Programs in MessagePack

Decoding the MessagePack form of a program gives that program. A field that is left out keeps the
empty value that it would have been written for.
-/

namespace StackCode.Proofs

open Program Program.MessagePackForm

/-! ### Records -/

/-- Reading a record sets its fields one after the other. -/
lemma toRecord?_entries {α : Type} [Inhabited α] {fields : List Text}
    (set : Text → MessagePack.Item → α → Option α) {items : List (Text × MessagePack.Item)}
    (hnames : ∀ item ∈ items, item.1 ∈ fields) (before : α) :
    toRecord? fields set before (.map (packedEntries items)) =
      items.foldlM (fun a item => set item.1 item.2 a) before := by
  induction items generalizing before with
  | nil => rfl
  | cons item items ih =>
    have hname : fields.contains item.1 = true := by simpa using hnames item (by simp)
    have hset : ((toText? (.str item.1)).bind fun name =>
        if fields.contains name then set name item.2 before else some before) =
          set item.1 item.2 before := by
      simp only [toText?, toBytes?, Option.map_some, Option.getD_some, Option.bind_some, hname,
        if_true]
    have hcons : toRecord? fields set before (.map (packedEntries (item :: items))) =
        (set item.1 item.2 before).bind fun a =>
          toRecord? fields set a (.map (packedEntries items)) := by
      rw [← hset]
      rfl
    rw [hcons, List.foldlM_cons]
    congr 1
    funext a
    exact ih (fun item hitem => hnames item (by simp [hitem])) a

/-- A field that may be left out. -/
def optional (isEmpty : Bool) (name : Text) (i : MessagePack.Item) : List (Text × MessagePack.Item) :=
  if isEmpty then [] else [(name, i)]

/-- Leaving a field out is setting it to what it holds already. -/
lemma foldlM_optional {α : Type} (set : Text → MessagePack.Item → α → Option α) {isEmpty : Bool}
    {name : Text} {i : MessagePack.Item} {a a' : α} (hset : set name i a = some a')
    (hempty : isEmpty = true → a' = a) :
    (optional isEmpty name i).foldlM (fun a item => set item.1 item.2 a) a = some a' := by
  unfold optional
  split_ifs with h
  · rw [hempty h]
    rfl
  · rw [List.foldlM_cons, hset]
    rfl

lemma name_of_mem_optional {isEmpty : Bool} {name : Text} {i : MessagePack.Item}
    {item : Text × MessagePack.Item} (h : item ∈ optional isEmpty name i) : item.1 = name := by
  cases isEmpty <;> simp_all [optional]

lemma packedFields_cons {t name : Text} {i : MessagePack.Item} {fields : List (Text × Text)}
    {items : List (Text × MessagePack.Item)} (hname : name.length < 2 ^ 32) (h : Packed t i)
    (hrest : PackedFields fields items) : PackedFields ((name, t) :: fields) ((name, i) :: items) :=
  .cons ⟨rfl, hname, h⟩ hrest

lemma packedFields_unlessEmpty {t name : Text} {i : MessagePack.Item}
    (hname : name.length < 2 ^ 32) (h : Packed t i) (isEmpty : Bool) :
    PackedFields (unlessEmpty isEmpty name t) (optional isEmpty name i) := by
  unfold unlessEmpty optional
  split_ifs
  · exact .nil
  · exact packedFields_cons hname h .nil

lemma length_unlessEmpty_le (isEmpty : Bool) (name t : Text) :
    (unlessEmpty isEmpty name t).length ≤ 1 := by
  cases isEmpty <;> simp [unlessEmpty]

lemma packed_map {α : Type} {write : α → Text} {item : α → MessagePack.Item} {xs : List α}
    (h : ∀ x ∈ xs, Packed (write x) (item x)) (hcount : xs.length < 2 ^ 32) :
    Packed (MessagePack.ofList (xs.map write)) (.array (xs.map item)) := by
  apply packed_ofList _ (by rwa [List.length_map])
  rw [List.forall₂_map_left_iff, List.forall₂_map_right_iff, List.forall₂_same]
  exact h

/-- The elements of an array that stands where there was none are read on their own. -/
lemma toList?_packed {α β : Type} [Inhabited α] {element : α → MessagePack.Item → Option α}
    {item : β → MessagePack.Item} {value : β → α} {xs : List β}
    (h : ∀ x ∈ xs, element default (item x) = some (value x)) :
    toList? element [] (.array (xs.map item)) = some (xs.map value) := by
  suffices hgen : ∀ k, ((xs.map item).zipIdx k).mapM
      (fun ik => element ([].getD ik.2 default) ik.1) = some (xs.map value) from hgen 0
  induction xs with
  | nil => exact fun _ => rfl
  | cons x xs ih =>
    intro k
    have hx : element ([].getD k default) (item x) = some (value x) := h x (by simp)
    rw [List.map_cons, List.zipIdx_cons, List.mapM_cons, hx,
      ih (fun y hy => h y (by simp [hy])) (k + 1)]
    rfl

lemma toBits?_natCast (n : Nat) : toBits? (.int n) = some (UInt64.ofNat n) := by
  have hmod : ((n : Int) % 2 ^ 64).toNat = n % 2 ^ 64 := by omega
  show some (UInt64.ofNat ((n : Int) % 2 ^ 64).toNat) = _
  rw [hmod]
  exact congrArg some UInt64.ofNat_mod_size

lemma toBits?_toInt (n : Int64) : toBits? (.int n.toInt) = some n.toUInt64 := by
  have htoInt : n.toInt = _ := n.toBitVec.toInt_eq_toNat_cond
  have hlt := n.toBitVec.isLt
  apply congrArg some
  rw [UInt64.ofInt, htoInt]
  apply UInt64.toNat_inj.mp
  rw [UInt64.toNat_ofNat']
  show _ = n.toBitVec.toNat
  split_ifs <;> omega

/-! ### Functions -/

/-- Code as an item; having none is nil. -/
def packedCode : Option Code → MessagePack.Item
  | none => .nil
  | some code => .str code.toList

def functionItems (f : Routine) : List (Text × MessagePack.Item) :=
  [("name", .str f.name), ("locals", .int f.locals.toNat), ("params", .int f.params.toNat),
    ("code", packedCode f.code)]

lemma packed_function {f : Routine} (hname : f.name.length < 2 ^ 32)
    (hcode : f.bytes.size < 2 ^ 32) :
    Packed (ofFunction f) (.map (packedEntries (functionItems f))) := by
  have hpacked : Packed ((f.code.map fun c => MessagePack.ofBytes c.toList).getD MessagePack.nil)
      (packedCode f.code) := by
    unfold Routine.bytes at hcode
    cases hf : f.code with
    | none => exact packed_nil
    | some code =>
      rw [hf] at hcode
      exact packed_ofBytes (by simpa using hcode)
  apply packed_ofFields _ (by simp)
  apply packedFields_cons (by decide) (packed_ofText hname)
  apply packedFields_cons (by decide) (packed_ofUInt16 _)
  apply packedFields_cons (by decide) (packed_ofUInt16 _)
  exact packedFields_cons (by decide) hpacked .nil

lemma toFunction?_packed (f : Routine) :
    toRecord? functionFields setFunction default (.map (packedEntries (functionItems f))) =
      some f := by
  have hnames : ∀ item ∈ functionItems f, item.1 ∈ functionFields := by
    simp [functionItems, functionFields]
  have hcode : toBytes? (packedCode f.code) = some (f.code.map Array.toList) := by
    cases f.code <;> rfl
  have hback : (f.code.map Array.toList).map List.toArray = f.code := by
    cases f.code <;> simp
  rw [toRecord?_entries _ hnames]
  simp +decide [functionItems, setFunction, toText?, toBits?_natCast, hcode, hback]
  simp [toBytes?]

/-! ### Constants -/

def constantItems (c : Tagged) : List (Text × MessagePack.Item) :=
  [(Text.ofString "k", .int c.kind.toNat)] ++ optional (!c.bool) "b" (.bool c.bool) ++
    optional (c.int == 0) "i" (.int c.int.toInt) ++
    optional (c.bits == 0) "f" (.int c.bits.toNat) ++
    optional c.str.isEmpty "s" (.str c.str)

lemma packed_constant {c : Tagged} (hstr : c.str.length < 2 ^ 32) :
    Packed (ofConstant c) (.map (packedEntries (constantItems c))) := by
  apply packed_ofFields
  · apply List.rel_append
    · apply List.rel_append
      · apply List.rel_append
        · apply List.rel_append
          · exact packedFields_cons (by decide) (packed_ofUInt8 _) .nil
          · exact packedFields_unlessEmpty (by decide) (packed_ofBool _) _
        · exact packedFields_unlessEmpty (by decide) (packed_ofInt64 _) _
      · exact packedFields_unlessEmpty (by decide) (packed_ofUInt64 _) _
    · exact packedFields_unlessEmpty (by decide) (packed_ofText hstr) _
  · have hb := length_unlessEmpty_le (!c.bool) "b" (MessagePack.ofBool c.bool)
    have hi := length_unlessEmpty_le (c.int == 0) "i" (MessagePack.ofInt64 c.int)
    have hf := length_unlessEmpty_le (c.bits == 0) "f" (MessagePack.ofUInt64 c.bits)
    have hs := length_unlessEmpty_le c.str.isEmpty "s" (MessagePack.ofText c.str)
    simp only [List.length_append, List.length_singleton]
    omega

lemma toConstant?_packed (c : Tagged) :
    toRecord? constantFields setConstant default (.map (packedEntries (constantItems c))) =
      some c := by
  have hnames : ∀ item ∈ constantItems c, item.1 ∈ constantFields := by
    have hincluded : ∀ name ∈ ["k", "b", "i", "f", "s"].map Text.ofString, name ∈ constantFields :=
      fun _ h => h
    intro item hitem
    apply hincluded
    simp only [constantItems, List.mem_append, List.mem_singleton] at hitem
    rcases hitem with (((rfl | hb) | hi) | hf) | hs
    · simp
    · simp [name_of_mem_optional hb]
    · simp [name_of_mem_optional hi]
    · simp [name_of_mem_optional hf]
    · simp [name_of_mem_optional hs]
  -- the constant after each of its fields
  have hkind : setConstant "k" (.int c.kind.toNat) default = some { kind := c.kind } := by
    simp [setConstant, toBits?_natCast]
    exact ⟨rfl, rfl, rfl, rfl⟩
  have hbool : setConstant "b" (.bool c.bool) { kind := c.kind } =
      some { kind := c.kind, bool := c.bool } := by
    simp +decide [setConstant, toBool?]
  have hint : setConstant "i" (.int c.int.toInt) { kind := c.kind, bool := c.bool } =
      some { kind := c.kind, bool := c.bool, int := c.int } := by
    simp +decide [setConstant, toBits?_toInt]
  have hbits : setConstant "f" (.int c.bits.toNat) { kind := c.kind, bool := c.bool, int := c.int } =
      some { kind := c.kind, bool := c.bool, int := c.int, bits := c.bits } := by
    simp +decide [setConstant, toBits?_natCast]
  have hstr : setConstant "s" (.str c.str)
      { kind := c.kind, bool := c.bool, int := c.int, bits := c.bits } = some c := by
    simp +decide [setConstant, toText?, toBytes?]
  rw [toRecord?_entries _ hnames]
  unfold constantItems
  rw [List.foldlM_append, List.foldlM_append, List.foldlM_append, List.foldlM_append,
    List.foldlM_cons, hkind]
  simp only [List.foldlM_nil, Option.bind_eq_bind, Option.pure_def, Option.bind_some]
  rw [foldlM_optional _ hbool (by cases c.bool <;> simp), Option.bind_some,
    foldlM_optional _ hint (by simp), Option.bind_some, foldlM_optional _ hbits (by simp),
    Option.bind_some, foldlM_optional _ hstr]
  intro h
  rw [List.isEmpty_iff] at h
  rw [← h]

/-! ### Programs -/

/-- A program whose counts and lengths fit the widest header. -/
structure FitsMessagePack (p : Program) : Prop where
  functions : p.functions.length < 2 ^ 32
  constants : p.constants.length < 2 ^ 32
  symbols : p.symbols.length < 2 ^ 32
  function : ∀ f ∈ p.functions, f.name.length < 2 ^ 32 ∧ f.bytes.size < 2 ^ 32
  string : ∀ s, Value.str s ∈ p.constants → s.length < 2 ^ 32
  symbol : ∀ s ∈ p.symbols, s.length < 2 ^ 32

def envelopeItems (p : Program) : List (Text × MessagePack.Item) :=
  ("magic", .str magic) :: ("version", .int version.toNat) ::
    ("functions", .array (p.functions.map fun f => .map (packedEntries (functionItems f)))) ::
    ("constants", .array (p.constants.map fun v =>
      .map (packedEntries (constantItems (Tagged.ofValue v))))) ::
    optional p.symbols.isEmpty "symbols" (.array (p.symbols.map .str))

lemma packed_encode {p : Program} (h : FitsMessagePack p) :
    Packed (MessagePackForm.encode p) (.map (packedEntries (envelopeItems p))) := by
  have hfunctions := packed_map (fun f hf => packed_function (h.function f hf).1 (h.function f hf).2)
    h.functions
  have hconstants : Packed
      (MessagePack.ofList ((p.constants.map Tagged.ofValue).map MessagePackForm.ofConstant))
      (.array (p.constants.map fun v =>
        .map (packedEntries (constantItems (Tagged.ofValue v))))) := by
    rw [List.map_map]
    apply packed_map _ h.constants
    intro v hv
    apply packed_constant
    cases v with
    | str s => exact h.string s hv
    | _ => exact Nat.two_pow_pos 32
  have hsymbols := packed_map (fun s hs => packed_ofText (h.symbol s hs)) h.symbols
  have hmagic : magic.length < 2 ^ 32 := by decide
  apply packed_ofFields
  · apply packedFields_cons (by decide) (packed_ofText hmagic)
    apply packedFields_cons (by decide) (packed_ofUInt16 _)
    apply packedFields_cons (by decide) hfunctions
    apply packedFields_cons (by decide) hconstants
    exact packedFields_unlessEmpty (by decide) hsymbols _
  · have hs := length_unlessEmpty_le (Envelope.ofProgram p).symbols.isEmpty "symbols"
      (MessagePack.ofList ((Envelope.ofProgram p).symbols.map MessagePack.ofText))
    simp only [List.length_append, List.length_cons, List.length_nil]
    omega

lemma toEnvelope?_packed (p : Program) :
    MessagePackForm.toEnvelope? (.map (packedEntries (envelopeItems p))) =
      some (Envelope.ofProgram p) := by
  have hnames : ∀ item ∈ envelopeItems p, item.1 ∈ MessagePackForm.envelopeFields := by
    intro item hitem
    simp only [envelopeItems, List.mem_cons] at hitem
    rcases hitem with rfl | rfl | rfl | rfl | hs
    · simp [MessagePackForm.envelopeFields]
    · simp [MessagePackForm.envelopeFields]
    · simp [MessagePackForm.envelopeFields]
    · simp [MessagePackForm.envelopeFields]
    · simp [MessagePackForm.envelopeFields, name_of_mem_optional hs]
  have hmagic : setEnvelope "magic" (.str magic) {} = some { magic } := by
    simp [setEnvelope, MessagePackForm.toText?, MessagePackForm.toBytes?]
  have hversion : setEnvelope "version" (.int version.toNat) { magic } =
      some { magic, version } := by
    simp +decide [setEnvelope, toBits?_natCast]
  have hfunctions : setEnvelope "functions"
      (.array (p.functions.map fun f => .map (packedEntries (functionItems f))))
      { magic, version } = some { magic, version, functions := p.functions } := by
    simp +decide [setEnvelope, toList?_packed fun f _ => toFunction?_packed f]
  have hconstants : setEnvelope "constants"
      (.array (p.constants.map fun v => .map (packedEntries (constantItems (Tagged.ofValue v)))))
      { magic, version, functions := p.functions } =
      some { magic, version, functions := p.functions
             constants := p.constants.map Tagged.ofValue } := by
    simp +decide [setEnvelope, toList?_packed fun v _ => toConstant?_packed (Tagged.ofValue v)]
  have hsymbols : setEnvelope "symbols" (.array (p.symbols.map .str))
      { magic, version, functions := p.functions
        constants := p.constants.map Tagged.ofValue } = some (Envelope.ofProgram p) := by
    have hread : MessagePackForm.toList? (fun _ => MessagePackForm.toText?) []
        (.array (p.symbols.map .str)) = some (p.symbols.map id) := toList?_packed fun s _ => rfl
    simp +decide [setEnvelope, hread, Envelope.ofProgram]
  -- only the symbols may be left out, and the envelope before them is then the whole one
  unfold MessagePackForm.toEnvelope?
  rw [toRecord?_entries _ hnames]
  unfold envelopeItems
  rw [List.foldlM_cons, hmagic]
  simp only [List.foldlM_cons, Option.bind_eq_bind, Option.bind_some, hversion, hfunctions,
    hconstants]
  apply foldlM_optional _ hsymbols
  intro h
  rw [List.isEmpty_iff] at h
  rw [Envelope.ofProgram, h]

/-- Decoding the MessagePack form of a program. -/
theorem msgpack_decode_encode {p : Program} (h : FitsMessagePack p) :
    MessagePackForm.decode (MessagePackForm.encode p) = .ok p := by
  unfold MessagePackForm.decode
  rw [read_packed (packed_encode h), Option.bind_some, toEnvelope?_packed]
  simp [open_ofProgram, Except.mapError]

end StackCode.Proofs
