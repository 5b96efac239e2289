import StackCode.Loader
import StackCode.Proofs.BinaryRoundTrip
import StackCode.Proofs.EmissionVerifies
import StackCode.Proofs.StoredForms
import StackCode.Proofs.Validity

/-!
# Built programs load

A program that compilation gives is stored in one of three forms. Loading tells the form by itself,
gives the program back, finds nothing to object to in it, and knows the function of every export by
its position in the module.
-/

namespace StackCode.Proofs

open Program

/-! ### Stored forms -/

/-- The program that a stored form gives back. The binary form does not tell empty code from none.
-/
def readBack (p : Program) : Format → Program
  | .binary => { p with functions := p.functions.map dropEmptyCode }
  | .cbor | .msgpack => p

lemma isBinary_of_encode {p : Program} {data : Text} (h : Binary.encode p = .ok data) :
    Binary.isBinary data = true := by
  obtain ⟨fs, cs, ss, -, -, -, rfl⟩ := encode_eq_ok_iff.mp h
  simp only [Binary.isBinary, List.isPrefixOf_iff_prefix, List.append_assoc]
  exact List.prefix_append _ _

lemma load_msgpack (p : Program) :
    Program.load (MessagePackForm.encode p) =
      match MessagePackForm.decode (MessagePackForm.encode p) with
      | .ok q => .ok (q, .msgpack)
      | .error _ => .error (.unrecognised ((MessagePackForm.encode p).take 8)) := by
  obtain ⟨n, t, hn, hencode⟩ := msgpack_encode_eq p
  have hbinary : Binary.isBinary (MessagePackForm.encode p) = false := by
    rw [hencode]
    exact not_isBinary_of_lead (by rw [toNat_lead_add] <;> omega)
  simp only [Program.load, hbinary, cbor_refuses_msgpack]
  rfl

/-- Every form is told from the others and gives the program back. Texts in CBOR are UTF-8 and lists
have a greatest length; lengths in MessagePack are numbers of 32 bits. -/
lemma load_of_store {p : Program} {f : Format} {data : Text} (hstore : p.store f = .ok data)
    (hsize : data.length < 2 ^ 64) (hcbor : f = .cbor → readable p = true)
    (hmsgpack : f = .msgpack → FitsMessagePack p) :
    Program.load data = .ok (readBack p f, f) := by
  cases f with
  | binary =>
    cases hencode : Binary.encode p with
    | error e => simp [store, hencode, Except.mapError] at hstore
    | ok bytes =>
      obtain rfl : bytes = data := by simpa [store, hencode, Except.mapError] using hstore
      simp only [Program.load, isBinary_of_encode hencode, decode_of_encode hencode, if_true,
        readBack]
  | cbor =>
    cases hstore
    rw [load_cbor, cbor_decode_encode hsize, if_pos (hcbor rfl)]
    rfl
  | msgpack =>
    cases hstore
    rw [load_msgpack, msgpack_decode_encode (hmsgpack rfl)]
    rfl

lemma names_readBack (p : Program) (f : Format) :
    (readBack p f).functions.map Routine.name = p.functions.map Routine.name := by
  cases f with
  | binary =>
    rw [readBack, List.map_map]
    rfl
  | cbor => rfl
  | msgpack => rfl

lemma symbols_readBack (p : Program) (f : Format) : (readBack p f).symbols = p.symbols := by
  cases f <;> rfl

lemma SoundRoutine.dropEmptyCode {constants functions : Nat} {r : Routine}
    (h : SoundRoutine constants functions r) :
    SoundRoutine constants functions (dropEmptyCode r) := by
  have hbytes := bytes_dropEmptyCode r
  refine ⟨h.slots_le, ?_, ?_, ?_⟩
  · rw [hbytes]
    exact h.walks
  · rw [hbytes]
    intro i hi
    obtain ⟨hconstant, hslot, hfunction, htarget⟩ := h.instructions i hi
    exact ⟨hconstant, hslot, hfunction, by rwa [hbytes]⟩
  · rw [hbytes]
    exact h.landings

lemma SoundProgram.readBack {p : Program} (h : SoundProgram p) (f : Format) :
    SoundProgram (readBack p f) := by
  cases f with
  | binary =>
    have hlength : (p.functions.map Proofs.dropEmptyCode).length = p.functions.length :=
      List.length_map ..
    refine ⟨?_, ?_, h.constants_le, h.constants_nodup, ?_⟩
    · exact fun hnil => h.nonempty (List.map_eq_nil_iff.mp hnil)
    · exact hlength ▸ h.functions_le
    · intro r hr
      obtain ⟨routine, hroutine, rfl⟩ := List.mem_map.mp hr
      exact hlength ▸ (h.routines routine hroutine).dropEmptyCode
  | cbor => exact h
  | msgpack => exact h

/-! ### Exports -/

lemma indexOf?_eq_idxOf? (p : Program) (name : Text) :
    p.indexOf? name = (p.functions.map Routine.name).idxOf? name := by
  rw [List.idxOf?, List.findIdx?_map, indexOf?]
  congr 1
  funext f
  simp [Bool.beq_eq_decide_eq]

/-- A table of the given symbols, with the positions of their functions. -/
def Links (p : Program) (symbols : List Text) (table : List (Text × Nat)) : Prop :=
  ∀ s, table.lookup s = if s ∈ symbols then p.indexOf? s else none

/-- One more symbol for the table. -/
def link (p : Program) (table : List (Text × Nat)) (symbol : Text) :
    Except Text (List (Text × Nat)) :=
  match p.indexOf? symbol with
  | none => .error symbol
  | some i =>
    .ok (if table.any fun entry => entry.1 = symbol then table else table ++ [(symbol, i)])

lemma exports_eq (p : Program) : p.exports = p.symbols.foldlM (link p) [] := rfl

/-- A symbol that has a function is added, and one that the table has already keeps its entry. -/
lemma Links.link {p : Program} {symbols : List Text} {table : List (Text × Nat)} {symbol : Text}
    (h : Links p symbols table) (hknown : symbol ∈ p.functions.map Routine.name) :
    ∃ table', link p table symbol = .ok table' ∧ Links p (symbols ++ [symbol]) table' := by
  obtain ⟨i, hi⟩ : ∃ i, p.indexOf? symbol = some i := by
    rw [← Option.isSome_iff_exists, indexOf?_eq_idxOf?, List.isSome_idxOf?]
    exact hknown
  have hany : (table.any fun entry => entry.1 = symbol) = true ↔ symbol ∈ symbols := by
    have hkey : (table.any fun entry => entry.1 = symbol) = (table.lookup symbol).isSome := by
      rw [Bool.eq_iff_iff, List.any_eq_true, List.lookup_isSome_iff]
      simp only [decide_eq_true_eq, beq_iff_eq, @eq_comm _ symbol]
    rw [hkey, h symbol]
    by_cases hmem : symbol ∈ symbols
    · simp [hmem, hi]
    · simp [hmem]
  refine ⟨_, by rw [Proofs.link, hi], fun s => ?_⟩
  by_cases hmem : symbol ∈ symbols
  · have hsame : s ∈ symbols ++ [symbol] ↔ s ∈ symbols := by
      rw [List.mem_append, List.mem_singleton]
      exact ⟨fun hs => hs.elim id (fun heq => heq ▸ hmem), .inl⟩
    rw [if_pos (hany.mpr hmem), h s]
    simp only [hsame]
  · rw [if_neg (mt hany.mp hmem), List.lookup_append, h s]
    by_cases hs : s = symbol
    · subst hs
      simp [hmem, hi]
    · have hne : (s == symbol) = false := by simpa using hs
      simp [hs, List.lookup, hne]

/-- The export table of a program whose symbols all name functions. -/
lemma exports_of_known {p : Program}
    (h : ∀ s ∈ p.symbols, s ∈ p.functions.map Routine.name) :
    ∃ table, p.exports = .ok table ∧ Links p p.symbols table := by
  have hlinked : ∀ symbols, (∀ s ∈ symbols, s ∈ p.functions.map Routine.name) →
      ∃ table, symbols.foldlM (link p) [] = .ok table ∧ Links p symbols table := by
    intro symbols
    induction symbols using List.reverseRecOn with
    | nil => exact fun _ => ⟨[], rfl, fun s => by simp⟩
    | append_singleton symbols symbol ih =>
      intro hknown
      obtain ⟨table, htable, hlinks⟩ := ih fun s hs => hknown s (by simp [hs])
      obtain ⟨table', htable', hlinks'⟩ := hlinks.link (hknown symbol (by simp))
      refine ⟨table', ?_, hlinks'⟩
      rw [List.foldlM_append, htable]
      exact bind_eq_ok_iff.mpr ⟨table, rfl, bind_eq_ok_iff.mpr ⟨table', htable', rfl⟩⟩
  exact exports_eq p ▸ hlinked p.symbols h

/-! ### Compiled programs -/

/-- The functions of a compiled program have the names of the module's functions, at the same
positions, and its symbols are the exports. -/
lemma names_of_compile {m : Module} {optimize : Bool} {p : Program}
    (h : (m.compile optimize).result = .ok p) :
    p.functions.map Routine.name = slotNames m.functions ∧ p.symbols = m.exports := by
  obtain ⟨-, hemit⟩ := compile_eq_ok h
  obtain ⟨fs, hslots, hp⟩ := emittedProgram_of_emit hemit
  obtain ⟨gs, routines, e, -, -, rfl⟩ := emit_eq_ok_iff.mp hemit
  refine ⟨?_, by cases optimize <;> rfl⟩
  rw [names_of_emitted hp.routines, ← slotNames_map_some, ← hslots]
  cases optimize with
  | false => rfl
  | true => exact slotNames_optimize m

lemma sound_of_compile {m : Module} {optimize : Bool} {p : Program} (hne : m.functions ≠ [])
    (h : (m.compile optimize).result = .ok p) : SoundProgram p := by
  obtain ⟨-, hemit⟩ := compile_eq_ok h
  obtain ⟨fs, hslots, hp⟩ := emittedProgram_of_emit hemit
  apply (verify_eq_ok_iff p).mp
  apply hp.verify_iff.mpr
  rintro rfl
  cases optimize with
  | false => exact hne hslots
  | true =>
    rw [if_pos rfl, functions_optimize, List.map_nil, List.map_eq_nil_iff] at hslots
    exact hne hslots

/-- The position of an exported function. -/
lemma exists_function_of_export {m : Module} (hm : Valid m) {symbol : Text}
    (h : symbol ∈ m.exports) :
    ∃ i g, (slotNames m.functions).idxOf? symbol = some i ∧ m.functions[i]? = some (some g) ∧
      g.name = symbol := by
  obtain ⟨fs, hfs⟩ := exists_functions_of_filled hm.filled
  have hmem := hm.exports symbol h
  rw [hfs, slotNames_map_some] at hmem ⊢
  obtain ⟨i, hi⟩ := Option.isSome_iff_exists.mp (List.isSome_idxOf?.mpr hmem)
  obtain ⟨hlt, hget, -⟩ := List.idxOf?_eq_some_iff.mp hi
  rw [List.length_map] at hlt
  refine ⟨i, fs[i], hi, ?_, ?_⟩
  · rw [List.getElem?_map, List.getElem?_eq_getElem hlt]
    rfl
  · rwa [List.getElem_map] at hget

/-! ### Loading -/

lemma loadFrom_eq_ok {d : Disk} {name path data : Text} {q : Program} {f : Format}
    {table : List (Text × Nat)} (hread : d.read path = .ok data)
    (hload : Program.load data = .ok (q, f)) (hverify : q.verify = .ok ())
    (hexports : q.exports = .ok table) :
    Loader.loadFrom d name path = .ok ⟨name, path, f, q, table⟩ := by
  simp only [Loader.loadFrom, hread, hload, hverify, hexports, Except.mapError, bind, Except.bind,
    pure, Except.pure]

lemma load_of_loadFrom {l : Loader} {d : Disk} {name path : Text} {loaded : LoadedModule}
    (hnew : l.loaded? name = none) (hresolve : (l.resolver.resolve d.isPresent name).1 = .ok path)
    (h : Loader.loadFrom d name path = .ok loaded) : (l.load d name).1 = .ok loaded := by
  cases hanswer : l.resolver.resolve d.isPresent name with
  | mk result r =>
    obtain rfl : result = .ok path := by simpa [hanswer] using hresolve
    simp only [Loader.load, hnew, hanswer, h]

/-- What compilation gives for a module with a function loads from every stored form: as the same
program, up to empty code in the binary form, which verification accepts, with the exports of the
module and no others, each at the position of its function. -/
theorem built_program_loads {m : Module} {optimize : Bool} {p : Program} {f : Format}
    {formatName data : Text} (hne : m.functions ≠ [])
    (hcompile : (m.compile optimize).result = .ok p)
    (hformat : Format.ofName? formatName = some f) (hstore : p.storeNamed formatName = .ok data)
    (hsize : data.length < 2 ^ 64)
    (hcbor : f = .cbor → Utf8Texts p ∧ m.exports.length ≤ 131072)
    (hmsgpack : f = .msgpack → FitsMessagePack p) :
    Program.load data = .ok (readBack p f, f) ∧ (readBack p f).verify = .ok () ∧
      ∀ (l : Loader) (d : Disk) (name path : Text), l.loaded? name = none →
        (l.resolver.resolve d.isPresent name).1 = .ok path → d.read path = .ok data →
        ∃ loaded, (l.load d name).1 = .ok loaded ∧ loaded.program = readBack p f ∧
          loaded.format = f ∧
          (∀ symbol ∈ m.exports, ∃ i g, loaded.export? symbol = some i ∧
            m.functions[i]? = some (some g) ∧ g.name = symbol) ∧
          ∀ symbol ∉ m.exports, loaded.export? symbol = none := by
  have hvalid := problems_eq_nil_iff.mp (compile_eq_ok hcompile).1
  have hsound := sound_of_compile hne hcompile
  obtain ⟨hnames, hsymbols⟩ := names_of_compile hcompile
  have hreadable : f = .cbor → readable p = true := by
    intro hf
    obtain ⟨hutf8, hexports⟩ := hcbor hf
    have hfunctions := hsound.functions_le
    have hconstants := hsound.constants_le
    have hlimit : Cbor.maxElements = 131072 := rfl
    rw [readable, textsAreUtf8_iff.mpr hutf8, Bool.and_true]
    simp only [listsAreReadable, Bool.and_eq_true, decide_eq_true_eq, hsymbols]
    omega
  have hload : Program.load data = .ok (readBack p f, f) := by
    apply load_of_store _ hsize hreadable hmsgpack
    rw [storeNamed, hformat] at hstore
    exact hstore
  have hverify := (verify_eq_ok_iff _).mpr (hsound.readBack f)
  obtain ⟨table, htable, hlinks⟩ : ∃ table, (readBack p f).exports = .ok table ∧
      Links (readBack p f) (readBack p f).symbols table := by
    apply exports_of_known
    rw [names_readBack, symbols_readBack, hnames, hsymbols]
    exact hvalid.exports
  refine ⟨hload, hverify, fun l d name path hnew hresolve hread => ?_⟩
  have hloaded := load_of_loadFrom hnew hresolve (loadFrom_eq_ok hread hload hverify htable)
  refine ⟨_, hloaded, rfl, rfl, fun symbol hsymbol => ?_, fun symbol hsymbol => ?_⟩
  · obtain ⟨i, g, hi, hg, hname⟩ := exists_function_of_export hvalid hsymbol
    refine ⟨i, g, ?_, hg, hname⟩
    show table.lookup symbol = some i
    rw [hlinks symbol, symbols_readBack, hsymbols, if_pos hsymbol, indexOf?_eq_idxOf?,
      names_readBack, hnames, hi]
  · show table.lookup symbol = none
    rw [hlinks symbol, symbols_readBack, hsymbols, if_neg hsymbol]

lemma compile_countdown : (countdown.compile false).result = .ok countdownProgram := by
  have hvalid : countdown.problems = [] := by decide
  rw [compile_of_problems hvalid]
  exact congrArg (Except.mapError Compile.Error.emit) emit_countdown

/-- A disk with one file, in the first root for modules. -/
def diskWith (data : Text) : Disk where
  tree := ⟨[([Text.ofString "src"], .directory),
    ([Text.ofString "src", Text.ofString "a.velac"], .file data)]⟩

theorem countdown_loads :
    countdown.functions ≠ [] ∧ (countdown.compile false).result = .ok countdownProgram ∧
    Utf8Texts countdownProgram ∧
    ∃ data, countdownProgram.storeNamed "cbor" = .ok data ∧ data.length < 2 ^ 64 ∧
      Program.load data = .ok (countdownProgram, .cbor) ∧
      ∃ loaded, ((⟨Resolver.new "/" "/", []⟩ : Loader).load (diskWith data) "module:a").1 =
          .ok loaded ∧
        loaded.program = countdownProgram ∧ loaded.export? "main" = some 0 ∧
        loaded.export? "next" = none := by
  have hne : countdown.functions ≠ [] := by simp [countdown]
  have hutf8 : Utf8Texts countdownProgram := textsAreUtf8_iff.mp (by decide +kernel)
  have hsize : (CborForm.encode countdownProgram).length < 2 ^ 64 := by decide +kernel
  have hstore : countdownProgram.storeNamed "cbor" = .ok (CborForm.encode countdownProgram) := rfl
  obtain ⟨hload, -, hloader⟩ := built_program_loads (f := .cbor) hne compile_countdown (by decide)
    hstore hsize (fun _ => ⟨hutf8, by decide⟩) (by simp)
  refine ⟨hne, compile_countdown, hutf8, _, hstore, hsize, hload, ?_⟩
  obtain ⟨loaded, hloaded, hprogram, -, hexports, hothers⟩ :=
    hloader ⟨Resolver.new "/" "/", []⟩ (diskWith _) "module:a" "/src/a.velac" rfl rfl rfl
  obtain ⟨i, g, hi, hg, hname⟩ := hexports "main" (by decide)
  refine ⟨loaded, hloaded, hprogram, ?_, hothers "next" (by decide)⟩
  rcases i with _ | _ | i
  · exact hi
  · cases hg
    exact absurd hname (by decide)
  · cases hg

/-! ### Programs that are not read back -/

/-- A module with one function, which does nothing and is exported so many times. -/
def idleModule (times : Nat) : Module where
  exports := List.replicate times "f"
  functions := [some { name := "f" }]

/-- Its function, compiled. -/
def idleRoutine : Routine := { name := "f", code := some #[] }

def idleProgram (times : Nat) : Program where
  functions := [idleRoutine]
  symbols := List.replicate times "f"

lemma compile_idleModule (times : Nat) :
    ((idleModule times).compile false).result = .ok (idleProgram times) := by
  have hknown : ∀ name ∈ (idleModule times).exports, name ∈ [Text.ofString "f"] :=
    fun name hname => List.mem_singleton.mpr (List.eq_of_mem_replicate hname)
  have hvalid : Valid (idleModule times) := by
    refine ⟨by simp [idleModule], by simp [idleModule, slotNames], ?_, hknown⟩
    intro f hf
    obtain rfl : f = { name := "f" } := by simpa [idleModule] using hf
    exact ⟨by decide, by decide, by simp⟩
  have hregistered : Emitter.registered (idleModule times) = .ok [{ name := "f" }] :=
    registered_eq_ok_iff.mpr ⟨rfl, by decide, by simp, hknown⟩
  have hemit : (idleModule times).emit = .ok (idleProgram times) :=
    emit_eq_ok_iff.mpr ⟨_, _, _, hregistered, rfl, rfl⟩
  rw [compile_of_problems (problems_eq_nil_iff.mpr hvalid)]
  exact congrArg (Except.mapError Compile.Error.emit) hemit

lemma length_encode_idleProgram {times : Nat} (h : times ≠ 0) :
    (CborForm.encode (idleProgram times)).length + 3 =
      (CborForm.encode (idleProgram 1)).length + (Cbor.head 4 times).length + 2 * times := by
  have hname : (Cbor.ofText (Text.ofString "f")).length = 2 := by decide
  have hone : (Cbor.head 4 1).length = 1 := by decide
  unfold CborForm.encode CborForm.ofEnvelope
  simp [CborForm.unlessEmpty, Cbor.ofList, Envelope.ofProgram, idleProgram, Cbor.ofFields, h, hname,
    hone]
  omega

lemma utf8Texts_idleProgram (times : Nat) : Utf8Texts (idleProgram times) := by
  have hf : (Text.ofString "f").toByteArray.IsValidUTF8 := isUtf8_iff_valid.mp (by decide)
  refine ⟨by simpa [idleProgram, idleRoutine] using hf, ?_, by simp [idleProgram]⟩
  intro s hs
  rwa [List.eq_of_mem_replicate hs]

lemma load_idleProgram {times : Nat} (hmany : 131072 < times) (hfew : times < 2 ^ 32) :
    ¬∃ result, Program.load (CborForm.encode (idleProgram times)) = .ok result := by
  have hsize : (CborForm.encode (idleProgram times)).length < 2 ^ 64 := by
    have hlength := @length_encode_idleProgram times (by omega)
    have hone : (CborForm.encode (idleProgram 1)).length = 84 := by decide +kernel
    have hhead : (Cbor.head 4 times).length ≤ 9 := by
      unfold Cbor.head
      split_ifs <;> simp
    omega
  have hlong : readable (idleProgram times) = false := by
    have hlimit : Cbor.maxElements = 131072 := rfl
    have hsymbols : ¬times ≤ Cbor.maxElements := by omega
    simp [readable, listsAreReadable, idleProgram, hsymbols]
  rw [load_cbor, cbor_decode_encode hsize, hlong]
  simp

/-- What follows a packed item is not looked at. -/
lemma decode_append {t : Text} {i : MessagePack.Item} (h : Packed t i) (rest : Text) :
    MessagePackForm.decode (t ++ rest) = MessagePackForm.decode t := by
  have hread : MessagePack.read (t ++ rest) = some i := by
    rw [MessagePack.read, h.reads _ rest (by simp), Option.map_some]
  rw [MessagePackForm.decode, MessagePackForm.decode, hread, read_packed h]

/-- The MessagePack form of a program with an idle function up to its count of symbols, which is
zero. -/
def idleHead : Text :=
  MessagePack.ofFields [
    ("magic", MessagePack.ofText magic), ("version", MessagePack.ofUInt16 version),
    ("functions", MessagePack.ofList ([idleRoutine].map MessagePackForm.ofFunction)),
    ("constants", MessagePack.ofList []), ("symbols", 0xDD :: Text.bigEndianBytes 4 0)]

lemma packed_idleHead : Packed idleHead
    (.map (packedEntries (envelopeItems (idleProgram 0) ++
      [(Text.ofString "symbols", MessagePack.Item.array [])]))) := by
  have hfunctions : ∀ f ∈ [idleRoutine],
      Packed (MessagePackForm.ofFunction f) (.map (packedEntries (functionItems f))) := by
    intro f hf
    rw [List.mem_singleton.mp hf]
    exact packed_function (by decide) (by decide)
  have hsymbols : Packed (0xDD :: (Text.bigEndianBytes 4 0 ++ [])) (.array []) :=
    packed_array rfl .nil (by decide)
  have hmagic : magic.length < 2 ^ 32 := by decide
  apply packed_ofFields _ (by decide)
  apply packedFields_cons (by decide) (packed_ofText hmagic)
  apply packedFields_cons (by decide) (packed_ofUInt16 _)
  apply packedFields_cons (by decide) (packed_map hfunctions (by decide))
  apply packedFields_cons (by decide) (packed_ofList .nil (by decide))
  exact packedFields_cons (by decide) hsymbols .nil

lemma encode_idleProgram {times : Nat} (hmany : 65536 ≤ times)
    (hcount : Text.bigEndianBytes 4 times = Text.bigEndianBytes 4 0) :
    MessagePackForm.encode (idleProgram times) =
      idleHead ++ (List.replicate times (MessagePack.ofText "f")).flatten := by
  have hne : times ≠ 0 := by omega
  have hsymbols : MessagePack.ofList (List.replicate times (MessagePack.ofText "f")) =
      0xDD :: Text.bigEndianBytes 4 0 ++
        (List.replicate times (MessagePack.ofText "f")).flatten := by
    unfold MessagePack.ofList
    rw [List.length_replicate]
    dsimp only
    rw [if_neg (by omega), if_neg (by omega), hcount]
  unfold MessagePackForm.encode MessagePackForm.ofEnvelope idleHead
  simp [MessagePackForm.unlessEmpty, Envelope.ofProgram, idleProgram, idleRoutine,
    MessagePack.ofFields, hne, hsymbols]

/-- A count of 2³² is cut to zero. -/
lemma load_packed_idleProgram {times : Nat} (hmany : 65536 ≤ times)
    (hcount : Text.bigEndianBytes 4 times = Text.bigEndianBytes 4 0) :
    Program.load (MessagePackForm.encode (idleProgram times)) = .ok (idleProgram 0, .msgpack) := by
  have hdecode : MessagePackForm.decode (MessagePackForm.encode (idleProgram times)) =
      .ok (idleProgram 0) := by
    rw [encode_idleProgram hmany hcount, decode_append packed_idleHead]
    decide +kernel
  rw [load_msgpack, hdecode]

/-- What no form gives back: the binary form empty code, CBOR more exports than its reader takes in
a list, and MessagePack as many as it has no count for. -/
theorem idle_program_not_read_back :
    (((idleModule 1).compile false).result = .ok (idleProgram 1) ∧
      ∃ data q, (idleProgram 1).store .binary = .ok data ∧ Program.load data = .ok (q, .binary) ∧
        q ≠ idleProgram 1) ∧
    (((idleModule 131073).compile false).result = .ok (idleProgram 131073) ∧
      Utf8Texts (idleProgram 131073) ∧
      ∃ data, (idleProgram 131073).store .cbor = .ok data ∧
        ¬∃ result, Program.load data = .ok result) ∧
    (((idleModule (2 ^ 32)).compile false).result = .ok (idleProgram (2 ^ 32)) ∧
      ∃ data, (idleProgram (2 ^ 32)).store .msgpack = .ok data ∧
        Program.load data = .ok (idleProgram 0, .msgpack)) := by
  refine ⟨⟨compile_idleModule 1, ?_⟩, ⟨compile_idleModule _, utf8Texts_idleProgram _, _, rfl, ?_⟩,
    compile_idleModule _, _, rfl, ?_⟩
  · exact ⟨_, { idleProgram 1 with functions := [{ name := "f" }] }, rfl, by decide +kernel,
      by decide⟩
  · exact load_idleProgram (by norm_num) (by norm_num)
  · exact load_packed_idleProgram (by norm_num) (by decide)

end StackCode.Proofs
