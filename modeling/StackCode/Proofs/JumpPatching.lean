import StackCode.Proofs.CodeReading

/-!
# Patching jumps

Code that is built from its start is a sequence of opcodes, each followed by the operands it calls
for. A patch writes into the operand of one jump, so the opcodes stay where they are: reading finds
the same instructions, and only the patched one leads elsewhere.
-/

namespace StackCode.Proofs

/-! ### Building code -/

/-- What is added to code at once. The opcodes are bytes, and not all of them need to be defined. -/
inductive Emission where
  | plain (op : UInt8)
  | byte (op operand : UInt8)
  | word (op : UInt8) (operand : UInt16)
  | call (function argc : UInt8)
  | jump (op : UInt8)

namespace Emission

def appendTo (code : Code) : Emission → Code
  | plain op => code.emit op
  | byte op operand => code.emitByte op operand
  | word op operand => code.emitWord op operand
  | call function argc => code.emitCall function argc
  | jump op => code.emitJump op

def op : Emission → UInt8
  | plain op | byte op _ | word op _ | jump op => op
  | call _ _ => Opcode.call.byte

/-- The number of operand bytes that are written. -/
def operands : Emission → Nat
  | plain _ => 0
  | byte _ _ => 1
  | word _ _ | call _ _ | jump _ => 2

/-- The number of operand bytes that readers look for. -/
def expected (op : UInt8) : Nat := (Opcode.ofByte? op).elim 0 Opcode.operandLength

def isJump : Emission → Bool
  | jump _ => true
  | _ => false

/-- The operands fit the opcode: they are as long as it says, and what is to be patched is the
distance of a jump. -/
def wellMatched : Emission → Bool
  | plain op => expected op = 0
  | byte op _ => expected op = 1
  | word op _ => expected op = 2
  | call _ _ => true
  | jump op => (Opcode.ofByte? op).any Opcode.isJump

end Emission

def built (es : List Emission) : Code := es.foldl Emission.appendTo #[]

/-- The placeholders of the jumps that are added to `code`, each right behind its opcode. -/
def placeholders (code : Code) : List Emission → List Nat
  | [] => []
  | e :: es => (if e.isJump then [code.size + 1] else []) ++ placeholders (e.appendTo code) es

/-- The code after an attempt to patch it. An attempt that fails leaves it as it is. -/
def patched (code : Code) (patch : Nat × Int) : Code :=
  match code.patchJump patch.1 patch.2 with
  | .ok code' => code'
  | .error _ => code

/-- The instruction with the given jump target if its operand is at the placeholder. -/
def retargeted (hole : Nat) (target : Int) (i : Instruction) : Instruction :=
  if i.offset + 1 = hole then
    { i with jump := target - (hole + 2 : Nat), target := target }
  else i

section

variable {code code' start : Code} {e : Emission} {es : List Emission} {hole other : Nat}
  {target : Int} {op : Opcode}

/-! ### The layout of built code -/

lemma Emission.exists_appendTo (code : Code) (e : Emission) :
    ∃ rest : List UInt8, rest.length = e.operands ∧
      e.appendTo code = code ++ (e.op :: rest).toArray := by
  cases e with
  | plain op => exact ⟨[], rfl, emit_eq code op⟩
  | byte op operand => exact ⟨_, rfl, emitByte_eq code op operand⟩
  | word op operand => exact ⟨_, rfl, emitWord_eq code op operand⟩
  | call function argc => exact ⟨_, rfl, emitCall_eq code function argc⟩
  | jump op => exact ⟨_, rfl, emitJump_eq code op⟩

lemma Emission.size_appendTo (code : Code) (e : Emission) :
    (e.appendTo code).size = code.size + 1 + e.operands := by
  obtain ⟨rest, hrest, happend⟩ := e.exists_appendTo code
  rw [happend]
  simp [hrest]
  omega

lemma exists_foldl_appendTo (code : Code) (es : List Emission) :
    ∃ more : Array UInt8, es.foldl Emission.appendTo code = code ++ more := by
  induction es generalizing code with
  | nil => exact ⟨#[], by simp⟩
  | cons e es ih =>
    obtain ⟨rest, -, happend⟩ := e.exists_appendTo code
    obtain ⟨more, hmore⟩ := ih (e.appendTo code)
    refine ⟨(e.op :: rest).toArray ++ more, ?_⟩
    rw [List.foldl_cons, hmore, happend, Array.append_assoc]

/-- The code goes on behind `start` with the opcodes of these emissions, each one followed by room
for its operands. What the operands are is left open, so that a patch keeps the layout. -/
def Laid (code start : Code) : List Emission → Prop
  | [] => code.size = start.size
  | e :: es => code.getD start.size 0 = e.op ∧ Laid code (e.appendTo start) es

lemma laid_foldl (start : Code) (es : List Emission) :
    Laid (es.foldl Emission.appendTo start) start es := by
  induction es generalizing start with
  | nil => rfl
  | cons e es ih =>
    refine ⟨?_, ih (e.appendTo start)⟩
    obtain ⟨rest, -, happend⟩ := e.exists_appendTo start
    obtain ⟨more, hmore⟩ := exists_foldl_appendTo (e.appendTo start) es
    have hfirst := getD_append_end start ((e.op :: rest).toArray ++ more) 0
    rw [List.foldl_cons, hmore, happend, Array.append_assoc]
    rw [Nat.add_zero] at hfirst
    rw [hfirst]
    simp

lemma Laid.size_le (h : Laid code start es) : start.size ≤ code.size := by
  induction es generalizing start with
  | nil => exact h.ge
  | cons e es ih =>
    have hle := ih h.2
    rw [e.size_appendTo] at hle
    omega

/-! ### Where the placeholders are -/

lemma mem_placeholders_cons :
    hole ∈ placeholders code (e :: es) ↔
      (e.isJump ∧ hole = code.size + 1) ∨ hole ∈ placeholders (e.appendTo code) es := by
  rw [placeholders, List.mem_append]
  cases e.isJump <;> simp

lemma Emission.operands_of_isJump (h : e.isJump) : e.operands = 2 := by
  cases e <;> simp_all [Emission.isJump, Emission.operands]

lemma size_lt_placeholder (h : hole ∈ placeholders code es) : code.size < hole := by
  induction es generalizing code with
  | nil => cases h
  | cons e es ih =>
    rcases mem_placeholders_cons.mp h with ⟨-, rfl⟩ | h
    · omega
    · have hlt := ih h
      rw [e.size_appendTo] at hlt
      omega

lemma placeholders_apart (h : hole ∈ placeholders code es) (h' : other ∈ placeholders code es)
    (hlt : hole < other) : hole + 3 ≤ other := by
  induction es generalizing code with
  | nil => cases h
  | cons e es ih =>
    rcases mem_placeholders_cons.mp h with ⟨hjump, rfl⟩ | h <;>
      rcases mem_placeholders_cons.mp h' with ⟨hjump', rfl⟩ | h'
    · omega
    · have hbehind := size_lt_placeholder h'
      rw [e.size_appendTo, e.operands_of_isJump hjump] at hbehind
      omega
    · have hbehind := size_lt_placeholder h
      rw [e.size_appendTo] at hbehind
      omega
    · exact ih h h'

/-- A placeholder is either still to come or lies behind. In both cases an opcode that stands where
the emissions start is not part of it. -/
def Clear (hole : Nat) (code : Code) (es : List Emission) : Prop :=
  hole ∈ placeholders code es ∨ hole + 2 ≤ code.size

lemma Clear.tail (h : Clear hole code (e :: es)) : Clear hole (e.appendTo code) es := by
  rcases h with h | h
  · rcases mem_placeholders_cons.mp h with ⟨hjump, rfl⟩ | h
    · right
      rw [e.size_appendTo, e.operands_of_isJump hjump]
    · exact .inl h
  · right
    rw [e.size_appendTo]
    omega

/-- The placeholder is that of the emission, or none of the bytes of the emission belong to it. -/
lemma Clear.head (h : Clear hole code (e :: es)) :
    (e.isJump ∧ hole = code.size + 1) ∨
      code.size + 1 + e.operands < hole ∨ hole + 2 ≤ code.size := by
  rcases h with h | h
  · rcases mem_placeholders_cons.mp h with hself | h
    · exact .inl hself
    · have hbehind := size_lt_placeholder h
      rw [e.size_appendTo] at hbehind
      exact .inr (.inl hbehind)
  · exact .inr (.inr h)

/-- Bytes at a placeholder are no part of the layout. -/
lemma Laid.congr (h : Laid code start es) (hclear : Clear hole start es)
    (hsize : code'.size = code.size)
    (hsame : ∀ k, k ≠ hole → k ≠ hole + 1 → code'.getD k 0 = code.getD k 0) :
    Laid code' start es := by
  induction es generalizing start with
  | nil => exact hsize.trans h
  | cons e es ih =>
    refine ⟨?_, ih h.2 hclear.tail⟩
    rw [← h.1]
    rcases hclear.head with ⟨-, hhole⟩ | hhole | hhole <;> exact hsame _ (by omega) (by omega)

lemma Laid.patched {patch : Nat × Int} (h : Laid code start es)
    (hpatch : patch.1 ∈ placeholders start es) :
    Laid (patched code patch) start es := by
  unfold Proofs.patched
  split
  · rename_i code' hok
    exact h.congr (.inl hpatch) (size_of_patchJump hok) fun k => getD_of_patchJump hok
  · exact h

/-- Any number of patches keeps the layout. -/
lemma Laid.patches {patches : List (Nat × Int)} (h : Laid code start es)
    (hpatches : ∀ patch ∈ patches, patch.1 ∈ placeholders start es) :
    Laid (patches.foldl Proofs.patched code) start es := by
  induction patches generalizing code with
  | nil => exact h
  | cons patch patches ih =>
    apply ih
    · exact h.patched (hpatches patch (by simp))
    · exact fun other hother => hpatches other (by simp [hother])

/-! ### Reading laid code -/

lemma Emission.isJump_op (h : e.wellMatched) (hjump : e.isJump) :
    ∃ op, Opcode.ofByte? e.op = some op ∧ op.isJump := by
  cases e with
  | jump op => exact (Option.any_eq_true _ _).mp h
  | plain | byte | word | call => cases hjump

lemma Emission.operands_eq (h : e.wellMatched) (hop : Opcode.ofByte? e.op = some op) :
    e.operands = op.operandLength := by
  cases e with
  | plain b | byte b _ | word b _ =>
    have hlength : Emission.expected b = _ := of_decide_eq_true h
    rw [Emission.expected, show Opcode.ofByte? b = some op from hop] at hlength
    exact hlength.symm
  | call function argc =>
    obtain rfl : Opcode.call = op := Option.some.inj hop
    rfl
  | jump b =>
    obtain ⟨op', hop', hjump⟩ := Emission.isJump_op h rfl
    obtain rfl : op' = op := Option.some.inj (hop'.symm.trans hop)
    exact (operandLength_of_isJump hjump).symm

lemma Laid.decodeAt (h : Laid code start (e :: es)) (hmatched : e.wellMatched)
    (hop : Opcode.ofByte? e.op = some op) :
    code.decodeAt start.size = .ok (code.instruction start.size op) := by
  have hroom := h.2.size_le
  rw [e.size_appendTo, e.operands_eq hmatched hop] at hroom
  refine decodeAt_eq_ok_iff.mpr ⟨op, by rw [h.1, hop], ?_, rfl⟩
  rw [Opcode.length]
  omega

lemma Laid.decodeAt_undefined (h : Laid code start (e :: es))
    (hop : Opcode.ofByte? e.op = none) :
    code.decodeAt start.size = .error (.unknownOpcode start.size e.op) := by
  have hroom := h.2.size_le
  rw [e.size_appendTo] at hroom
  unfold Code.decodeAt
  rw [if_neg (by omega)]
  simp only [Int.toNat_natCast, h.1, hop]

/-- At a placeholder stands the operand of a jump. -/
lemma Laid.exists_jump (h : Laid code start es) (hmatched : ∀ e ∈ es, e.wellMatched)
    (hhole : hole ∈ placeholders start es) :
    ∃ offset i, hole = offset + 1 ∧ code.decodeAt offset = .ok i ∧ i.op.isJump := by
  induction es generalizing start with
  | nil => cases hhole
  | cons e es ih =>
    rcases mem_placeholders_cons.mp hhole with ⟨hjump, rfl⟩ | hhole
    · have he := hmatched e (by simp)
      obtain ⟨op, hop, hopjump⟩ := e.isJump_op he hjump
      exact ⟨start.size, _, rfl, h.decodeAt he hop, by rwa [instruction_op]⟩
    · exact ih h.2 (fun e' he' => hmatched e' (by simp [he'])) hhole

lemma decodeAt_patchJump {offset : Nat} {i : Instruction}
    (hpatch : code.patchJump (offset + 1 : Nat) target = .ok code')
    (hd : code.decodeAt offset = .ok i) (hjump : i.op.isJump) :
    code'.decodeAt offset = .ok (retargeted (offset + 1) target i) := by
  rw [decodeAt_patchJump_self hpatch hd hjump]
  obtain ⟨op, -, -, rfl⟩ := decodeAt_eq_ok_iff.mp hd
  rw [instruction_op] at hjump
  simp [retargeted, Code.instruction, hjump, Nat.add_assoc]

/-- Reading an instruction of patched code. -/
lemma Laid.instruction_patchJump (h : Laid code start (e :: es)) (hmatched : e.wellMatched)
    (hclear : Clear hole start (e :: es))
    (hpatch : code.patchJump hole target = .ok code') (hop : Opcode.ofByte? e.op = some op) :
    code'.instruction start.size op = retargeted hole target (code.instruction start.size op) := by
  have hlength := e.operands_eq hmatched hop
  rcases hclear.head with ⟨hjump, rfl⟩ | hbytes
  · obtain ⟨op', hop', hopjump⟩ := e.isJump_op hmatched hjump
    obtain rfl : op' = op := Option.some.inj (hop'.symm.trans hop)
    have hself := decodeAt_patchJump hpatch (h.decodeAt hmatched hop) (by rwa [instruction_op])
    have hlaid := h.congr hclear (size_of_patchJump hpatch) fun k => getD_of_patchJump hpatch
    rwa [hlaid.decodeAt hmatched hop, Except.ok.injEq] at hself
  · rw [retargeted, instruction_offset, if_neg (by omega)]
    apply instruction_congr
    intro k hk
    rw [Opcode.length] at hk
    exact getD_of_patchJump hpatch (by omega) (by omega)

/-- Walking patched code passes the same offsets, so only the patched jump is listed with another
target. -/
lemma Laid.walkFrom_patchJump (h : Laid code start es) (hmatched : ∀ e ∈ es, e.wellMatched)
    (hclear : Clear hole start es) (hpatch : code.patchJump hole target = .ok code') (fuel : Nat)
    (acc : List Instruction) :
    code'.walkFrom fuel start.size (acc.map (retargeted hole target)) =
      ((code.walkFrom fuel start.size acc).1.map (retargeted hole target),
        (code.walkFrom fuel start.size acc).2) := by
  have hsize := size_of_patchJump hpatch
  induction es generalizing start fuel acc with
  | nil =>
    have hend : code.size = start.size := h
    cases fuel <;> simp [Code.walkFrom, hsize, hend]
  | cons e es ih =>
    cases fuel with
    | zero => simp [Code.walkFrom]
    | succ fuel =>
      have hroom := h.2.size_le
      rw [e.size_appendTo] at hroom
      have hlaid := h.congr hclear hsize fun k => getD_of_patchJump hpatch
      rw [Code.walkFrom, Code.walkFrom, if_neg (by omega), if_neg (by omega)]
      have he := hmatched e (by simp)
      cases hop : Opcode.ofByte? e.op with
      | none => simp [h.decodeAt_undefined hop, hlaid.decodeAt_undefined hop]
      | some op =>
        have hnext : start.size + op.length = (e.appendTo start).size := by
          rw [e.size_appendTo, e.operands_eq he hop, Opcode.length]
          omega
        have hrec := ih h.2 (fun e' he' => hmatched e' (by simp [he'])) hclear.tail fuel
          (code.instruction start.size op :: acc)
        rw [List.map_cons, ← h.instruction_patchJump he hclear hpatch hop, ← hnext] at hrec
        simpa only [h.decodeAt he hop, hlaid.decodeAt he hop, Instruction.length, instruction_op]
          using hrec

/-! ### Patches -/

/-- The distance of the jump fits into sixteen bits. -/
def WithinReach (hole : Nat) (target : Int) : Prop :=
  -32768 ≤ target - (hole + 2 : Nat) ∧ target - (hole + 2 : Nat) ≤ 32767

/-- The bytes of a patch. -/
def written (code : Code) (hole : Nat) (target : Int) : Code :=
  let word := UInt16.ofInt (target - (hole + 2 : Nat))
  (code.setIfInBounds hole (word >>> 8).toUInt8).setIfInBounds (hole + 1) word.toUInt8

lemma size_written (code : Code) (hole : Nat) (target : Int) :
    (written code hole target).size = code.size := by
  simp [written]

lemma patchJump_within (hroom : hole + 2 ≤ code.size) (h : WithinReach hole target) :
    code.patchJump hole target = .ok (written code hole target) :=
  patchJump_eq_ok_iff.mpr ⟨h, hroom, rfl⟩

lemma patchJump_beyond (code : Code) (h : ¬WithinReach hole target) :
    code.patchJump hole target =
      .error (.outOfRange (.ofInt (target - (hole + 2 : Nat))) (.ofInt (hole - 1))) := by
  have hcast : ((hole + 2 : Nat) : Int) = (hole : Int) + 2 := by omega
  unfold WithinReach at h
  unfold Code.patchJump
  rw [if_pos (by omega), hcast]

lemma patched_within (hroom : hole + 2 ≤ code.size) (h : WithinReach hole target) :
    patched code (hole, target) = written code hole target := by
  simp only [patched, patchJump_within hroom h]

lemma patched_beyond (code : Code) (h : ¬WithinReach hole target) :
    patched code (hole, target) = code := by
  simp only [patched, patchJump_beyond code h]

lemma written_comm (code : Code) (hapart : hole + 2 ≤ other ∨ other + 2 ≤ hole)
    (target target' : Int) :
    written (written code hole target) other target' =
      written (written code other target') hole target := by
  simp only [written]
  -- the second byte is moved past both bytes of the other patch, then the first one
  rw [Array.setIfInBounds_comm _ _ (show hole + 1 ≠ other by omega),
    Array.setIfInBounds_comm _ _ (show hole + 1 ≠ other + 1 by omega),
    Array.setIfInBounds_comm _ _ (show hole ≠ other by omega),
    Array.setIfInBounds_comm _ _ (show hole ≠ other + 1 by omega)]

/-- Patches of different jumps may be made in any order. -/
lemma patched_comm (hroom : hole + 2 ≤ code.size) (hroom' : other + 2 ≤ code.size)
    (hapart : hole + 2 ≤ other ∨ other + 2 ≤ hole) (target target' : Int) :
    patched (patched code (hole, target)) (other, target') =
      patched (patched code (other, target')) (hole, target) := by
  by_cases h : WithinReach hole target <;> by_cases h' : WithinReach other target'
  · rw [patched_within hroom h, patched_within hroom' h', patched_within (by rwa [size_written]) h',
      patched_within (by rwa [size_written]) h, written_comm code hapart]
  · rw [patched_beyond code h', patched_beyond _ h']
  · rw [patched_beyond code h, patched_beyond _ h]
  · rw [patched_beyond code h, patched_beyond code h', patched_beyond code h]

end

/-- Patching is exact and local. A jump of built code, whatever was patched before, can be led to a
target exactly if its distance has sixteen bits. Then it leads there, no byte elsewhere changes, and
walking lists the same instructions but for the target. A patch that fails changes nothing, and
patches of different jumps may be made in any order. -/
theorem patch_exact_and_local {es : List Emission} (hes : ∀ e ∈ es, e.wellMatched)
    {earlier : List (Nat × Int)} (hearlier : ∀ patch ∈ earlier, patch.1 ∈ placeholders #[] es)
    {hole : Nat} (hhole : hole ∈ placeholders #[] es) (target : Int) :
    let code := earlier.foldl patched (built es)
    let distance := target - (hole + 2 : Nat)
    ((∃ code', code.patchJump hole target = .ok code') ↔ -32768 ≤ distance ∧ distance ≤ 32767) ∧
    (∀ code', code.patchJump hole target = .ok code' →
      (∃ i, code.decodeAt (hole - 1) = .ok i ∧ i.op.isJump ∧
        code'.decodeAt (hole - 1) = .ok { i with jump := distance, target := target }) ∧
      (∀ k, k ≠ hole → k ≠ hole + 1 → code'[k]? = code[k]?) ∧
      code'.walk = (code.walk.1.map (retargeted hole target), code.walk.2)) ∧
    (∀ e, code.patchJump hole target = .error e →
      e = .outOfRange (.ofInt distance) (.ofInt (hole - 1)) ∧ patched code (hole, target) = code) ∧
    (∀ other ∈ placeholders #[] es, other ≠ hole → ∀ target',
      patched (patched code (hole, target)) (other, target') =
        patched (patched code (other, target')) (hole, target)) := by
  intro code distance
  have hlaid : Laid code #[] es := (laid_foldl #[] es).patches hearlier
  have hroom : ∀ p ∈ placeholders #[] es, p + 2 ≤ code.size := by
    intro p hp
    obtain ⟨offset, i, rfl, hi, hjump⟩ := hlaid.exists_jump hes hp
    have hend := end_le_of_decodeAt hi
    rw [Instruction.length, Opcode.length, operandLength_of_isJump hjump] at hend
    omega
  refine ⟨⟨?_, fun h => ⟨_, patchJump_within (hroom hole hhole) h⟩⟩, ?_, ?_, ?_⟩
  · rintro ⟨code', hok⟩
    exact (patchJump_eq_ok_iff.mp hok).1
  · intro code' hok
    obtain ⟨offset, i, rfl, hi, hjump⟩ := hlaid.exists_jump hes hhole
    have hoffset : ((offset + 1 : Nat) : Int) - 1 = (offset : Int) := by omega
    rw [hoffset]
    refine ⟨⟨i, hi, hjump, ?_⟩, ?_, ?_⟩
    · rw [decodeAt_patchJump hok hi hjump, retargeted, if_pos (by rw [offset_of_decodeAt hi])]
    · intro k hk hk'
      obtain ⟨-, -, rfl⟩ := patchJump_eq_ok_iff.mp hok
      rw [Array.getElem?_setIfInBounds_ne hk'.symm, Array.getElem?_setIfInBounds_ne hk.symm]
    · have hwalk := hlaid.walkFrom_patchJump hes (.inl hhole) hok code.size []
      rw [Code.walk, size_of_patchJump hok]
      exact hwalk
  · intro e herror
    by_cases h : WithinReach hole target
    · rw [patchJump_within (hroom hole hhole) h] at herror
      cases herror
    · rw [patchJump_beyond code h] at herror
      cases herror
      exact ⟨rfl, patched_beyond code h⟩
  · intro other hother hne target'
    apply patched_comm (hroom hole hhole) (hroom other hother)
    rcases Nat.lt_or_gt_of_ne hne with hlt | hlt
    · have hapart := placeholders_apart hother hhole hlt
      omega
    · have hapart := placeholders_apart hhole hother hlt
      omega

/-- Two jumps that cross each other. -/
def crossingJumps : List Emission := [.jump 0x80, .byte 0x20 5, .jump 0x81, .plain 0xF0]

/-- With the second jump led back to the start, the first one still takes the greatest distance. -/
theorem crossing_jumps_patched :
    (∀ e ∈ crossingJumps, e.wellMatched) ∧ placeholders #[] crossingJumps = [1, 6] ∧
    ∃ code', (patched (built crossingJumps) (6, 0)).patchJump 1 32770 = .ok code' ∧
      (∃ i, code'.decodeAt 0 = .ok i ∧ i.target = 32770) ∧
      code'.walk.1.map Instruction.target = [32770, 0, 0, 0] ∧ code'.walk.2 = none := by
  have hes : ∀ e ∈ crossingJumps, e.wellMatched := by decide
  have hearlier : ∀ patch ∈ [(6, (0 : Int))], patch.1 ∈ placeholders #[] crossingJumps := by decide
  obtain ⟨hreach, hlocal, -, -⟩ :=
    patch_exact_and_local hes hearlier (show 1 ∈ placeholders #[] crossingJumps by decide) 32770
  obtain ⟨code', hok⟩ := hreach.mpr (by decide)
  obtain ⟨⟨i, -, -, hi⟩, -, hwalk⟩ := hlocal code' hok
  refine ⟨hes, by decide, code', hok, ⟨_, hi, rfl⟩, ?_, ?_⟩
  · rw [hwalk]
    decide
  · rw [hwalk]
    decide

end StackCode.Proofs
