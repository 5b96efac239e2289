import StackCode.Proofs.EmissionVerifies

/-!
# Assignments as two instructions

An assignment that holds the instruction for its value can be written as that instruction with a
store after it. Both shapes are lowered to the same pieces, and of a body emission sees the pieces
only. So neither offsets nor labels nor constants tell the shapes apart, and a body that cannot be
emitted fails in the same way.
-/

namespace StackCode.Proofs

open Emit

/-! ### Bodies -/

/-- The second body is the first one with any of its assignments written as two instructions. The
value is that of an instruction which pushes one. -/
inductive SplitBody : List Instr → List Instr → Prop
  | nil : SplitBody [] []
  | keep (i : Instr) {body body' : List Instr} (h : SplitBody body body') :
    SplitBody (i :: body) (i :: body')
  | split (name : Text) {inner : Instr} (hpush : inner.stackEffect.2 = 1)
      {body body' : List Instr} (h : SplitBody body body') :
    SplitBody (.assign name inner :: body) (inner :: .store name :: body')

lemma pieces_assign (name : Text) {inner : Instr} (hpush : inner.stackEffect.2 = 1) :
    pieces (.assign name inner) = pieces inner ++ pieces (.store name) := by
  have hvalue : inner ≠ .missing := by
    rintro rfl
    exact absurd hpush (by decide)
  conv_lhs => rw [pieces, if_neg hvalue, if_neg (not_not.mpr hpush)]
  rfl

lemma SplitBody.pieces_eq {body body' : List Instr} (h : SplitBody body body') :
    bodyPieces body = bodyPieces body' := by
  unfold bodyPieces
  induction h with
  | nil => rfl
  | keep i _ ih => rw [List.flatMap_cons, List.flatMap_cons, ih]
  | split name hpush _ ih =>
    rw [List.flatMap_cons, pieces_assign name hpush, ih, List.flatMap_cons, List.flatMap_cons,
      List.append_assoc]

/-! ### Functions -/

def SplitFunction (f g : Function) : Prop :=
  ∃ body, SplitBody f.body body ∧ g = { f with body }

/-- Whatever the emitter holds, the pieces of the body decide what becomes of it. -/
lemma emitBody_split {f g : Function} (h : SplitFunction f g) (e : Emitter) :
    e.emitBody f = e.emitBody g := by
  obtain ⟨body, hbody, rfl⟩ := h
  have hpieces : f.body.flatMap pieces = body.flatMap pieces := hbody.pieces_eq
  unfold Emitter.emitBody
  simp only [placeAll_eq, hpieces]
  rfl

lemma emitFunction_split {f g : Function} (h : SplitFunction f g) (e : Emitter) :
    e.emitFunction f = e.emitFunction g := by
  unfold Emitter.emitFunction
  rw [emitBody_split h]
  obtain ⟨body, -, rfl⟩ := h
  rfl

lemma emitFunctions_split {fs gs : List Function} (h : List.Forall₂ SplitFunction fs gs)
    (done : List Routine) (e : Emitter) : e.emitFunctions done fs = e.emitFunctions done gs := by
  induction h generalizing done e with
  | nil => rfl
  | cons hfg _ ih =>
    rw [Emitter.emitFunctions, Emitter.emitFunctions, emitFunction_split hfg]
    simp only [ih]

lemma names_split {fs gs : List Function} (h : List.Forall₂ SplitFunction fs gs) :
    fs.map Function.name = gs.map Function.name := by
  induction h with
  | nil => rfl
  | cons hfg _ ih =>
    obtain ⟨body, -, rfl⟩ := hfg
    rw [List.map_cons, List.map_cons, ih]

/-! ### Modules -/

/-- The second module is the first one with any of its assignments written as two instructions. -/
def SplitModule (m m' : Module) : Prop :=
  ∃ functions, List.Forall₂ (Option.Rel SplitFunction) m.functions functions ∧
    m' = { m with functions }

/-- Results that fail in the same way, or give functions that differ in the shape of assignments. -/
inductive SplitResult : Except Error (List Function) → Except Error (List Function) → Prop
  | error (e : Error) : SplitResult (.error e) (.error e)
  | ok {fs gs : List Function} (h : List.Forall₂ SplitFunction fs gs) :
    SplitResult (.ok fs) (.ok gs)

lemma register_split {slots slots' : List (Option Function)}
    (h : List.Forall₂ (Option.Rel SplitFunction) slots slots') {done done' : List Function}
    (hdone : List.Forall₂ SplitFunction done done') (seen : List Text) (position : Nat) :
    SplitResult (Emitter.register seen done position slots)
      (Emitter.register seen done' position slots') := by
  induction h generalizing seen done done' position with
  | nil => exact .ok (List.forall₂_reverse_iff.mpr hdone)
  | @cons slot slot' slots slots' hslot _ ih =>
    cases hslot with
    | none => exact .error _
    | @some f g hfg =>
      have hname : g.name = f.name := by
        obtain ⟨body, -, rfl⟩ := hfg
        rfl
      rw [Emitter.register, Emitter.register, hname]
      split_ifs with hseen
      · exact .error _
      · exact ih (.cons hfg hdone) _ _

lemma registered_split {m m' : Module} (h : SplitModule m m') :
    SplitResult (Emitter.registered m) (Emitter.registered m') := by
  obtain ⟨functions, hfunctions, rfl⟩ := h
  have hsame := register_split hfunctions .nil [] 0
  unfold Emitter.registered
  dsimp only
  rw [hfunctions.length_eq]
  split_ifs with hmany
  · exact .error _
  · generalize Emitter.register [] [] 0 m.functions = result at hsame ⊢
    generalize Emitter.register [] [] 0 functions = result' at hsame ⊢
    cases hsame with
    | error e => exact .error e
    | @ok fs gs hfs =>
      -- an export is looked up among the names
      have hfind : (fun name => fs.all fun f => f.name ≠ name) =
          fun name => gs.all fun f => f.name ≠ name := by
        funext name
        simpa [List.all_map, Function.comp_def] using
          congrArg (List.all · (· ≠ name)) (names_split hfs)
      simp only [bind, Except.bind, hfind]
      split
      · exact .error _
      · exact .ok hfs

/-- An assignment and the two instructions it stands for cannot be told apart by emission: any
number of assignments may be written either way, and the module gives the same program or fails with
the same error. An emitter is left in the same state, too. -/
theorem assignment_shapes_emit_alike {m m' : Module} (h : SplitModule m m') :
    m.emit = m'.emit ∧ ∀ e : Emitter, e.emit m = e.emit m' := by
  have hemit : ∀ e : Emitter, e.emit m = e.emit m' := by
    intro e
    have hexports : m'.exports = m.exports := by
      obtain ⟨functions, -, rfl⟩ := h
      rfl
    have hsame := registered_split h
    unfold Emitter.emit
    generalize Emitter.registered m = result at hsame ⊢
    generalize Emitter.registered m' = result' at hsame ⊢
    cases hsame with
    | error cause => rfl
    | @ok fs gs hfs => simp only [emitFunctions_split hfs, names_split hfs, hexports]
  exact ⟨congrArg Prod.fst (hemit {}), hemit⟩

/-- The module `countdown`, with a store after each value instead of assignments. -/
def countdownStores : Module where
  name := "countdown"
  exports := ["main"]
  functions := [
    some {
      name := "main"
      params := [⟨"n", []⟩]
      locals := [⟨"s", []⟩]
      body := [
        .const (.int 2), .const (.int 3), .binary .add, .store "s",
        .label "top", .load "n", .const (.int 0), .binary .gt, .jumpIf "end",
        .load "n", .call "next" 1, .store "s",
        .load "n", .const (.int 1), .binary .sub, .store "n", .jump "top",
        .label "end", .declare "s" [], .load "s", .ret, .load "n", .ret] },
    some {
      name := "next"
      params := [⟨"x", []⟩]
      body := [.load "x", .const (.int 1), .binary .add, .store "x", .load "x", .ret] }]

theorem countdownStores_emit :
    SplitModule countdown countdownStores ∧ countdown ≠ countdownStores ∧
      countdownStores.emit = .ok countdownProgram := by
  have hsplit : SplitModule countdown countdownStores := by
    refine ⟨countdownStores.functions,
      .cons (.some ⟨_, ?_, rfl⟩) (.cons (.some ⟨_, ?_, rfl⟩) .nil), rfl⟩
    all_goals
      -- an assignment is split, all else is kept
      repeat' first
        | exact SplitBody.nil
        | refine SplitBody.split _ rfl ?_
        | refine SplitBody.keep _ ?_
  refine ⟨hsplit, by decide, ?_⟩
  rw [← (assignment_shapes_emit_alike hsplit).1]
  exact emit_countdown

end StackCode.Proofs
