import StackCode.Proofs.Layout

/-!
# Emitted programs

What emission gives if it succeeds: a routine for every function of the module, in order, whose code
is laid out as the pieces of the body, with all names resolved and all jumps at their labels.
-/

namespace StackCode.Proofs

open Emit

/-- Code that is laid out as the pieces: each of them reads as the instruction it denotes, and every
jump leads to its label. -/
structure Lowered (s : Scope) (constants : List Value) (ps : List Piece) (code : Code) : Prop where
  size : code.size = totalSize ps
  reads : ∀ {offset p}, At ps offset p → ¬IsLabel p →
    ∃ i, code.decodeAt offset = .ok i ∧
      Denotes s constants (fun _ name t => LeadsToLabel ps name t) offset p i
  label_unique : ∀ {name offset offset'}, At ps offset (.label name) → At ps offset' (.label name) →
    offset = offset'
  fits : ∀ p ∈ ps, Fits p

lemma Lowered.mono {s : Scope} {constants constants' : List Value} {ps : List Piece} {code : Code}
    (h : Lowered s constants ps code) (hc : constants <+: constants') :
    Lowered s constants' ps code where
  size := h.size
  reads := by
    intro offset p hat hnot
    obtain ⟨i, hi, hd⟩ := h.reads hat hnot
    exact ⟨i, hi, hd.mono hc fun _ _ hl => hl⟩
  label_unique := h.label_unique
  fits := h.fits

lemma Placed.lowered {s : Scope} {ps : List Piece} {e : Emitter} (h : Placed s ps [] e) :
    Lowered s e.pool.values.toList ps e.code where
  size := h.size
  reads := by
    intro offset p hat hnot
    obtain ⟨i, hi, hd⟩ := h.reads hat hnot
    refine ⟨i, hi, hd.mono (List.prefix_refl _) ?_⟩
    rintro name t (hm | hl)
    · cases hm
    · exact hl
  label_unique := by
    intro name offset offset' hat hat'
    have hl := h.labels.mpr hat
    rw [h.labels.mpr hat'] at hl
    exact (Option.some.inj hl).symm
  fits := h.fits

/-! ### One function -/

/-- The pieces of a body. -/
def bodyPieces (body : List Instr) : List Piece := body.flatMap pieces

lemma fits_of_mem_bodyPieces {body : List Instr} {p : Piece} (h : p ∈ bodyPieces body) :
    Fits p := by
  obtain ⟨i, -, hi⟩ := List.mem_flatMap.mp h
  exact fits_of_mem_pieces hi

/-- The names that a body of the function can use. -/
def scopeOf (functions : List Text) (f : Function) : Scope := ⟨functions, f.vars.map Var.name⟩

/-- The emitter when it starts on the body of a function. -/
def opened (e : Emitter) (f : Function) : Emitter where
  pool := e.pool
  scope := scopeOf e.scope.functions f
  function := f.name

lemma placed_opened {e : Emitter} (f : Function) (h : PoolValid e.pool) :
    Placed (scopeOf e.scope.functions f) [] [] (opened e f) := placed_nil _ h rfl rfl

lemma emitBody_eq_ok_iff {e e' : Emitter} {f : Function} :
    e.emitBody f = .ok e' ↔ f.params.length + f.locals.length ≤ 256 ∧
      ∃ e₁, (bodyPieces f.body).foldlM (Emitter.place (scopeOf e.scope.functions f)) (opened e f) =
          .ok e₁ ∧
        e₁.pending.reverse.foldlM (Emitter.patch e₁.code.size) e₁ = .ok e' := by
  unfold Emitter.emitBody
  by_cases hmany : 256 < f.params.length + f.locals.length
  · simp [hmany]
  · simp only [hmany, if_false, placeAll_eq, bind_eq_ok_iff, Nat.not_lt.mp hmany, true_and]
    rfl

/-- Whatever becomes of a function, the emitter then holds its name, and it still knows the
functions of the module. -/
lemma emitBody_leaves (e : Emitter) (f : Function) :
    (emitterLeft (e.emitBody f)).function = f.name ∧
      (emitterLeft (e.emitBody f)).scope.functions = e.scope.functions := by
  unfold Emitter.emitBody
  dsimp only
  split_ifs with hmany
  · exact ⟨rfl, rfl⟩
  · have hsame := SameFunction.bind
      (foldlM_same (fun e i => foldlM_same (fun e p => place_same e.scope e p) e (pieces i))
        (opened e f) f.body)
      fun e => foldlM_same (patch_same e.code.size) e e.pending.reverse
    have hfunctions := congrArg Scope.functions hsame.scope
    exact ⟨hsame.function, hfunctions⟩

lemma emitBody_keeps {e e' : Emitter} {f : Function} (h : e.emitBody f = .ok e') :
    e'.scope.functions = e.scope.functions := by
  have hleaves := (emitBody_leaves e f).2
  rwa [h] at hleaves

lemma emitBody_ok {e e' : Emitter} {f : Function} (hfuns : e.scope.functions.length ≤ 256)
    (hpool : PoolValid e.pool) (h : e.emitBody f = .ok e') :
    f.vars.length ≤ 256 ∧ PoolValid e'.pool ∧ e.pool.values.toList <+: e'.pool.values.toList ∧
      Lowered (scopeOf e.scope.functions f) e'.pool.values.toList (bodyPieces f.body) e'.code := by
  obtain ⟨hle, e₁, he₁, hpatch⟩ := emitBody_eq_ok_iff.mp h
  have hlength : f.vars.length ≤ 256 := by simpa [Function.vars] using hle
  have hvars : (scopeOf e.scope.functions f).vars.length ≤ 256 := by
    simpa [scopeOf] using hlength
  obtain ⟨h₁, hgrow⟩ := (placed_opened f hpool).placePieces
    (fun q hq => fits_of_mem_bodyPieces hq) hvars hfuns he₁
  rw [List.nil_append] at h₁
  rw [h₁.size] at hpatch
  have htodo : Placed (scopeOf e.scope.functions f) (bodyPieces f.body) e₁.pending.reverse e₁ :=
    h₁.congr_todo (by simp)
  obtain ⟨h₂, hsame⟩ := htodo.patchAll hpatch
  refine ⟨hlength, h₂.pool, ?_, h₂.lowered⟩
  rw [hsame]
  exact hgrow

/-- A routine that emission made of a function. -/
structure EmittedRoutine (functions : List Text) (constants : List Value) (f : Function)
    (r : Routine) : Prop where
  name : r.name = f.name
  slots : r.slots = f.vars.length
  slots_le : f.vars.length ≤ 256
  lowered : Lowered (scopeOf functions f) constants (bodyPieces f.body) r.bytes

lemma EmittedRoutine.mono {functions : List Text} {constants constants' : List Value}
    {f : Function} {r : Routine} (h : EmittedRoutine functions constants f r)
    (hc : constants <+: constants') : EmittedRoutine functions constants' f r :=
  ⟨h.name, h.slots, h.slots_le, h.lowered.mono hc⟩

lemma emitFunction_eq_ok_iff {e e' : Emitter} {f : Function} {r : Routine} :
    e.emitFunction f = .ok (r, e') ↔ ∃ e₁, e.emitBody f = .ok e₁ ∧
      r = ⟨f.name, some e₁.code, UInt16.ofNat f.locals.length, UInt16.ofNat f.params.length⟩ ∧
      e' = { e₁ with code := #[] } := by
  unfold Emitter.emitFunction
  cases e.emitBody f with
  | error x => simp
  | ok e₁ => simp [eq_comm]

lemma emitFunction_keeps {e e' : Emitter} {f : Function} {r : Routine}
    (h : e.emitFunction f = .ok (r, e')) : e'.scope.functions = e.scope.functions := by
  obtain ⟨e₁, hb, -, rfl⟩ := emitFunction_eq_ok_iff.mp h
  have hkeeps := emitBody_keeps hb
  exact hkeeps

lemma emitFunction_ok {e e' : Emitter} {f : Function} {r : Routine}
    (hfuns : e.scope.functions.length ≤ 256) (hpool : PoolValid e.pool)
    (h : e.emitFunction f = .ok (r, e')) :
    PoolValid e'.pool ∧ e.pool.values.toList <+: e'.pool.values.toList ∧
      EmittedRoutine e.scope.functions e'.pool.values.toList f r := by
  obtain ⟨e₁, hb, rfl, rfl⟩ := emitFunction_eq_ok_iff.mp h
  obtain ⟨hvars, hpool', hgrow, hlow⟩ := emitBody_ok hfuns hpool hb
  have hlength : f.vars.length = f.params.length + f.locals.length := by simp [Function.vars]
  refine ⟨hpool', hgrow, rfl, ?_, hvars, hlow⟩
  simp only [Routine.slots, UInt16.toNat_ofNat']
  omega

/-! ### All functions -/

lemma emitFunctions_ok {done rs : List Routine} {e e' : Emitter} {fs : List Function}
    (hfuns : e.scope.functions.length ≤ 256) (hpool : PoolValid e.pool)
    (h : e.emitFunctions done fs = .ok (rs, e')) :
    PoolValid e'.pool ∧ e.pool.values.toList <+: e'.pool.values.toList ∧
      ∃ new, rs = done.reverse ++ new ∧
        List.Forall₂ (EmittedRoutine e.scope.functions e'.pool.values.toList) fs new := by
  induction fs generalizing done e with
  | nil =>
    rw [Emitter.emitFunctions] at h
    cases h
    exact ⟨hpool, List.prefix_refl _, [], by simp, .nil⟩
  | cons f fs ih =>
    rw [Emitter.emitFunctions] at h
    obtain ⟨⟨r, e₁⟩, he₁, hrest⟩ := bind_eq_ok_iff.mp h
    obtain ⟨hpool₁, hgrow₁, hr⟩ := emitFunction_ok hfuns hpool he₁
    rw [← emitFunction_keeps he₁] at hfuns hr ⊢
    obtain ⟨hpool₂, hgrow₂, new, rfl, hnew⟩ := ih hfuns hpool₁ hrest
    exact ⟨hpool₂, hgrow₁.trans hgrow₂, r :: new, by simp, .cons (hr.mono hgrow₂) hnew⟩

lemma register_eq_ok_iff {seen : List Text} {done fs : List Function} {position : Nat}
    {slots : List (Option Function)} :
    Emitter.register seen done position slots = .ok fs ↔
      ∃ new, slots = new.map some ∧ fs = done.reverse ++ new ∧
        (new.map Function.name).Nodup ∧ ∀ f ∈ new, f.name ∉ seen := by
  induction slots generalizing seen done position with
  | nil =>
    rw [Emitter.register]
    constructor
    · rintro ⟨⟩
      exact ⟨[], by simp⟩
    · rintro ⟨new, hnew, rfl, -⟩
      rw [eq_comm, List.map_eq_nil_iff] at hnew
      rw [hnew, List.append_nil]
  | cons slot slots ih =>
    cases slot with
    | none =>
      constructor
      · rintro ⟨⟩
      · rintro ⟨_ | ⟨f, new⟩, hnew, -⟩ <;> cases hnew
    | some f =>
      rw [Emitter.register]
      constructor
      · intro h
        split_ifs at h with hseen
        obtain ⟨new, rfl, rfl, hnodup, hfresh⟩ := ih.mp h
        have hf : f.name ∉ seen := by simpa using hseen
        refine ⟨f :: new, by simp, by simp, ?_, ?_⟩
        · rw [List.map_cons, List.nodup_cons]
          refine ⟨?_, hnodup⟩
          intro hmem
          obtain ⟨g, hg, hgname⟩ := List.mem_map.mp hmem
          exact hfresh g hg (by simp [hgname])
        · intro g hg
          rcases List.mem_cons.mp hg with rfl | hg
          · exact hf
          · exact fun hs => hfresh g hg (List.mem_cons_of_mem _ hs)
      · rintro ⟨_ | ⟨g, new⟩, hnew, rfl, hnodup, hfresh⟩
        · cases hnew
        · cases hnew
          rw [List.map_cons, List.nodup_cons] at hnodup
          have hf : f.name ∉ seen := hfresh f (by simp)
          rw [if_neg (by simpa using hf)]
          apply ih.mpr
          refine ⟨new, rfl, by simp, hnodup.2, ?_⟩
          intro g hg hmem
          rcases List.mem_cons.mp hmem with hname | hmem
          · exact hnodup.1 (hname ▸ List.mem_map_of_mem hg)
          · exact hfresh g (by simp [hg]) hmem

/-- A program that emission made of functions. -/
structure EmittedProgram (fs : List Function) (p : Program) : Prop where
  count : fs.length ≤ 256
  names_nodup : (fs.map Function.name).Nodup
  constants_nodup : p.constants.Nodup
  constants_le : p.constants.length ≤ 65536
  routines : List.Forall₂ (EmittedRoutine (fs.map Function.name) p.constants) fs p.functions

lemma EmittedProgram.length_eq {fs : List Function} {p : Program} (h : EmittedProgram fs p) :
    fs.length = p.functions.length := h.routines.length_eq

lemma names_of_emitted {functions : List Text} {constants : List Value} {fs : List Function}
    {rs : List Routine} (h : List.Forall₂ (EmittedRoutine functions constants) fs rs) :
    rs.map Routine.name = fs.map Function.name := by
  induction h with
  | nil => rfl
  | cons hr _ ih => rw [List.map_cons, List.map_cons, hr.name, ih]

lemma EmittedProgram.routine_at {fs : List Function} {p : Program} (h : EmittedProgram fs p)
    {k : Nat} {f : Function} {r : Routine} (hf : fs[k]? = some f) (hr : p.functions[k]? = some r) :
    EmittedRoutine (fs.map Function.name) p.constants f r := by
  obtain ⟨hk, rfl⟩ := List.getElem?_eq_some_iff.mp hf
  obtain ⟨hk', rfl⟩ := List.getElem?_eq_some_iff.mp hr
  exact h.routines.get hk hk'

lemma EmittedProgram.exists_routine {fs : List Function} {p : Program} (h : EmittedProgram fs p)
    {k : Nat} {f : Function} (hf : fs[k]? = some f) :
    ∃ r, p.functions[k]? = some r ∧ EmittedRoutine (fs.map Function.name) p.constants f r := by
  have hk := (List.getElem?_eq_some_iff.mp hf).1
  rw [h.length_eq] at hk
  exact ⟨_, List.getElem?_eq_getElem hk, h.routine_at hf (List.getElem?_eq_getElem hk)⟩

lemma EmittedProgram.exists_function {fs : List Function} {p : Program} (h : EmittedProgram fs p)
    {r : Routine} (hr : r ∈ p.functions) :
    ∃ f ∈ fs, EmittedRoutine (fs.map Function.name) p.constants f r :=
  exists_of_forall₂ h.routines hr

lemma registered_eq_ok_iff {m : Module} {fs : List Function} :
    Emitter.registered m = .ok fs ↔ m.functions = fs.map some ∧ fs.length ≤ 256 ∧
      (fs.map Function.name).Nodup ∧ ∀ name ∈ m.exports, name ∈ fs.map Function.name := by
  have hknown : ∀ gs : List Function,
      (m.exports.find? fun name => gs.all fun f => f.name ≠ name) = none ↔
        ∀ name ∈ m.exports, name ∈ gs.map Function.name := by
    intro gs
    simp [List.find?_eq_none]
  unfold Emitter.registered
  dsimp only
  by_cases hmany : 256 < m.functions.length
  · rw [if_pos hmany]
    constructor
    · rintro ⟨⟩
    · rintro ⟨hslots, hcount, -⟩
      rw [hslots, List.length_map] at hmany
      omega
  rw [if_neg hmany]
  constructor
  · intro h
    obtain ⟨gs, hgs, hexports⟩ := bind_eq_ok_iff.mp h
    obtain ⟨new, hslots, hnew, hnodup, -⟩ := register_eq_ok_iff.mp hgs
    rw [List.reverse_nil, List.nil_append] at hnew
    subst hnew
    have hlength : m.functions.length = gs.length := by rw [hslots, List.length_map]
    split at hexports
    · cases hexports
    · next hnone =>
      cases hexports
      exact ⟨hslots, by omega, hnodup, (hknown _).mp hnone⟩
  · rintro ⟨hslots, hcount, hnodup, hexports⟩
    refine bind_eq_ok_iff.mpr ⟨fs, ?_, ?_⟩
    · exact register_eq_ok_iff.mpr ⟨fs, hslots, by simp, hnodup, by simp⟩
    · rw [(hknown fs).mpr hexports]

/-- A new emitter that knows the functions of a module. -/
abbrev emitterOf (fs : List Function) : Emitter where
  scope := { functions := fs.map Function.name }

lemma emit_eq_ok_iff {m : Module} {p : Program} :
    m.emit = .ok p ↔ ∃ fs routines e, Emitter.registered m = .ok fs ∧
      (emitterOf fs).emitFunctions [] fs = .ok (routines, e) ∧
      p = ⟨routines, e.pool.values.toList, m.exports⟩ := by
  unfold Module.emit Emitter.emit
  dsimp only
  cases Emitter.registered m with
  | error e => simp
  | ok fs =>
    cases hfs : (emitterOf fs).emitFunctions [] fs with
    | error x => simp [hfs]
    | ok result =>
      obtain ⟨routines, e⟩ := result
      simp [hfs, eq_comm]

/-- Emission gives a program of the functions of the module. -/
theorem emittedProgram_of_emit {m : Module} {p : Program} (h : m.emit = .ok p) :
    ∃ fs, m.functions = fs.map some ∧ EmittedProgram fs p := by
  obtain ⟨fs, routines, e, hreg, hfs, rfl⟩ := emit_eq_ok_iff.mp h
  obtain ⟨hslots, hcount, hnodup, -⟩ := registered_eq_ok_iff.mp hreg
  obtain ⟨hpool, -, new, rfl, hall⟩ :=
    emitFunctions_ok (by simpa using hcount) poolValid_empty hfs
  have hsize := hpool.size_le
  unfold Pool.capacity at hsize
  exact ⟨fs, hslots, hcount, hnodup, hpool.nodup, by simpa using hsize, by simpa using hall⟩

end StackCode.Proofs
