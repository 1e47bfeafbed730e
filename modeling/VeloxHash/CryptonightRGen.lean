import VeloxHash.CryptonightRTemplate
import VeloxHash.V4RandomMathInit

/-! The compiler of random math: templates copied one behind the other, with the constants of `ADD`
written over, the product narrowed for one processor, and the count of a rotation loaded only
where the count register may hold something else. -/

namespace VeloxHash.CryptonightRGen

open CodeBuffer EncodedMachine Splice V4RandomMath CryptonightRTemplate WordArithmetic
open X86Machine (State Register extended fields rex signExtend)

inductive Assembly
  | none | auto | intel | ryzen | bulldozer
  deriving DecidableEq, Repr

section Compiler

/-- The code so far, and the register that the last count was loaded from while it is believed
unchanged. -/
structure Emission where
  out : List UInt8 := []
  prevRotSrc : Option Nat := none

def templateIndex (inst : V4Instruction) : Nat :=
  let opcode := if inst.opcode = .mul then inst.opcode.toNat else inst.opcode.toNat + 2
  opcode ||| inst.dstIndex <<< v4OpcodeBits |||
    (if inst.srcIndex = 8 then inst.dstIndex else inst.srcIndex) <<< (v4OpcodeBits + v4DstIndexBits)

variable (is64Bit : Bool) (asm : Assembly)

/-- The load of the count. -/
def addMov (e : Emission) (inst : V4Instruction) : Emission :=
  if inst.opcode.IsRotation ∧ e.prevRotSrc ≠ some inst.srcIndex then
    { out := e.out ++ assemble encode (instructionMov (templateIndex inst))
      prevRotSrc := some inst.srcIndex }
  else e

/-- The template, without its first byte where the product is narrowed: the prefix `48` is skipped
and `49` becomes `41`. -/
def addTemplate (out : List UInt8) (inst : V4Instruction) : List UInt8 :=
  let code := assemble encode (instruction (templateIndex inst))
  if asm = .bulldozer ∧ inst.opcode = .mul ∧ ¬is64Bit then
    (if code.head? = some 0x49 then out ++ [0x41] else out) ++ code.tail
  else out ++ code

def addInstruction (e : Emission) (inst : V4Instruction) : Emission :=
  let e := addMov e inst
  let prevRotSrc := if some inst.dstIndex = e.prevRotSrc then none else e.prevRotSrc
  let out := addTemplate is64Bit asm e.out inst
  if inst.opcode = .add then
    { out := splice out (out.length - 4 - if is64Bit then 3 else 0) (le inst.c.toNat 4)
      prevRotSrc := if is64Bit then none else prevRotSrc }
  else { out, prevRotSrc }

/-- The code for the instructions before the first `RET`. -/
def addRandomMath (code : List V4Instruction) : List UInt8 :=
  ((code.takeWhile (·.opcode ≠ .ret)).foldl (addInstruction is64Bit asm) {}).out

end Compiler

section Lines

variable (asm : Assembly)

/-- The instructions that are run for one of a program. -/
def movLines (prev : Option Nat) (i : V4Instruction) : List Instr :=
  if i.opcode.IsRotation ∧ prev ≠ some i.srcIndex then [.word .mov rcx (regOf i.srcIndex)] else []

def bodyLines (i : V4Instruction) : List Instr :=
  match i.opcode with
  | .mul => [.imul (asm ≠ .bulldozer) (regOf i.dstIndex) (regOf i.srcIndex)]
  | .add => [.word .add (regOf i.dstIndex) (regOf i.srcIndex), .addImm (regOf i.dstIndex) i.c]
  | .sub => [.word .sub (regOf i.dstIndex) (regOf i.srcIndex)]
  | .ror => [.rotate false (regOf i.dstIndex)]
  | .rol => [.rotate true (regOf i.dstIndex)]
  | .xor => [.word .xor (regOf i.dstIndex) (regOf i.srcIndex)]
  | .ret => []

/-- The register that the count comes from after an instruction. -/
def source (prev : Option Nat) (i : V4Instruction) : Option Nat :=
  let prev := if i.opcode.IsRotation then some i.srcIndex else prev
  if prev = some i.dstIndex then none else prev

def lines : Option Nat → List V4Instruction → List Instr
  | _, [] => []
  | prev, i :: rest => movLines prev i ++ (bodyLines asm i ++ lines (source prev i) rest)

end Lines

section Emitted

variable {asm : Assembly} {i : V4Instruction}

/-- The three fields of a template's number. -/
theorem index_fields {o d k : Nat} (ho : o < 8) (hd : d < 4) (hk : k < 8) :
    let c := o ||| d <<< 3 ||| k <<< 5
    c % 8 = o ∧ c / 8 % 4 = d ∧ c / 32 = k := by
  have hall : ∀ (o k : Fin 8) (d : Fin 4),
      let c := o.val ||| d.val <<< 3 ||| k.val <<< 5
      c % 8 = o ∧ c / 8 % 4 = d ∧ c / 32 = k := by
    decide +kernel
  exact hall ⟨o, ho⟩ ⟨k, hk⟩ ⟨d, hd⟩

/-- The template of an instruction, before its constant is written. -/
theorem instruction_template (h : i.Valid) :
    instruction (templateIndex i) = bodyLines .none { i with c := 2147483647 } := by
  obtain ⟨hret, hdst, hsrc, hdistinct, hconstant⟩ := h
  obtain ⟨opcode, dst, src, c⟩ := i
  dsimp only at *
  have hopcode : (if opcode = .mul then opcode.toNat else opcode.toNat + 2) < 8 := by
    cases opcode <;> simp [Opcode.toNat] at hret ⊢
  have hslot : (if src = 8 then dst else src) < 8 := by split <;> omega
  obtain ⟨hop, hd, hk⟩ := index_fields hopcode hdst hslot
  have hsource (hlinear : ¬opcode.IsLinear) : (if src = 8 then dst else src) = src :=
    if_neg (hconstant hlinear).ne
  unfold instruction templateIndex
  simp only [v4OpcodeBits, v4DstIndexBits, hop, hd, hk]
  cases opcode with
  | ret => exact absurd rfl hret
  | add | sub | xor =>
    have hne : src ≠ dst := hdistinct (by decide)
    by_cases h8 : src = 8 <;> simp [Opcode.toNat, bodyLines, h8, hne]
  | mul | ror | rol => simp [Opcode.toNat, bodyLines, hsource (by decide)]

theorem instructionMov_template (h : i.Valid) (hrotation : i.opcode.IsRotation) :
    instructionMov (templateIndex i) = [.word .mov rcx (regOf i.srcIndex)] := by
  have hsrc : i.srcIndex < 8 := h.constant (by rcases hrotation with h | h <;> rw [h] <;> decide)
  have hdst := h.dst
  obtain ⟨opcode, dst, src, c⟩ := i
  dsimp only at *
  have hopcode : (if opcode = .mul then opcode.toNat else opcode.toNat + 2) < 8 := by
    rcases hrotation with rfl | rfl <;> decide
  obtain ⟨hop, -, hk⟩ := index_fields hopcode hdst hsrc
  unfold instructionMov templateIndex
  simp only [if_neg hsrc.ne, v4OpcodeBits, v4DstIndexBits, hop, hk]
  rcases hrotation with rfl | rfl <;> rfl

theorem extended_regOf {j : Nat} (h : j < 4) : extended (regOf j) = false := by
  interval_cases j <;> rfl

/-- Narrowing the template of a product gives the product of low halves. -/
theorem narrowed {dst src : Register} (h : extended dst = false) (out : List UInt8) :
    (if (encode (.imul true dst src)).head? = some 0x49 then out ++ [0x41] else out) ++
        (encode (.imul true dst src)).tail = out ++ encode (.imul false dst src) := by
  have hrex : rex dst 0 src = if extended src then 0x49 else 0x48 := by
    unfold rex
    rw [h]
    cases extended src <;> rfl
  simp only [encode, narrowPrefix, hrex]
  cases extended src <;> simp

theorem addTemplate_eq (h : i.Valid) (out : List UInt8) :
    addTemplate false asm out i =
      out ++ assemble encode (bodyLines asm { i with c := 2147483647 }) := by
  unfold addTemplate
  rw [instruction_template h]
  by_cases hmul : i.opcode = .mul
  · simp only [bodyLines, hmul]
    by_cases hasm : asm = .bulldozer
    · simpa [hasm] using narrowed (extended_regOf h.dst) out
    · simp [hasm]
  · rw [if_neg fun hc => hmul hc.2.1]
    obtain ⟨opcode, dst, src, c⟩ := i
    cases opcode <;> first | rfl | exact absurd rfl hmul

/-- The constant is the last four bytes. -/
theorem splice_constant (out : List UInt8) (dst src : Register) (c d : UInt32) :
    let code := out ++ assemble encode [.word .add dst src, .addImm dst d]
    splice code (code.length - 4) (le c.toNat 4) =
      out ++ assemble encode [.word .add dst src, .addImm dst c] := by
  intro code
  have hcode : code = (out ++ encode (.word .add dst src) ++ [rex 0 0 dst, 0x81, fields 3 0 dst]) ++
      le d.toNat 4 := by
    simp [code, encode]
  have hlength : code.length - 4 =
      (out ++ encode (.word .add dst src) ++ [rex 0 0 dst, 0x81, fields 3 0 dst]).length := by
    rw [hcode, List.length_append, length_le, Nat.add_sub_cancel]
  rw [hlength, hcode, splice, List.take_left, List.drop_eq_nil_of_le (by simp; omega)]
  simp [encode]

theorem addInstruction_eq (h : i.Valid) (e : Emission) :
    addInstruction false asm e i =
      ⟨e.out ++ assemble encode (movLines e.prevRotSrc i ++ bodyLines asm i),
        source e.prevRotSrc i⟩ := by
  have hmov : addMov e i = ⟨e.out ++ assemble encode (movLines e.prevRotSrc i),
      if i.opcode.IsRotation then some i.srcIndex else e.prevRotSrc⟩ := by
    unfold addMov movLines
    split
    · rename_i hload
      rw [instructionMov_template h hload.1, if_pos hload.1]
    · rename_i hkeep
      split
      · rename_i hrotation
        rw [← not_not.mp fun hne => hkeep ⟨hrotation, hne⟩]
        simp
      · simp
  have hsource : source e.prevRotSrc i =
      if some i.dstIndex = (if i.opcode.IsRotation then some i.srcIndex else e.prevRotSrc) then none
      else if i.opcode.IsRotation then some i.srcIndex else e.prevRotSrc := by
    simp only [source, eq_comm]
  unfold addInstruction
  rw [hmov, hsource]
  dsimp only
  rw [addTemplate_eq h, assemble_append, ← List.append_assoc]
  obtain ⟨opcode, dst, src, c⟩ := i
  by_cases hadd : opcode = .add
  · subst hadd
    rw [if_pos rfl]
    exact congrArg (Emission.mk · _) (splice_constant _ (regOf dst) (regOf src) c 2147483647)
  · rw [if_neg hadd]
    cases opcode <;> first | rfl | exact absurd rfl hadd

theorem foldl_addInstruction {body : List V4Instruction} (h : ∀ i ∈ body, i.Valid) (e : Emission) :
    (body.foldl (addInstruction false asm) e).out =
      e.out ++ assemble encode (lines asm e.prevRotSrc body) := by
  induction body generalizing e with
  | nil => simp [lines]
  | cons i body ih =>
    rw [List.foldl_cons, addInstruction_eq (h i List.mem_cons_self),
      ih fun j hj => h j (List.mem_cons_of_mem i hj)]
    simp [lines]

end Emitted

section Execution

variable {asm : Assembly} {i : V4Instruction} {prev : Option Nat} {r : Registers} {s : State}

/-- The low halves are the registers of the interpreter, and the count register holds the value
that was loaded into it. -/
structure Holds (prev : Option Nat) (r : Registers) (s : State) : Prop where
  low : ∀ j < 9, (s.gpr (regOf j)).toUInt32 = r j
  count : ∀ b, prev = some b → (s.gpr rcx).toUInt32 = r b

theorem regOf_injective {j k : Nat} (hj : j < 9) (hk : k < 9) (h : regOf j = regOf k) : j = k := by
  have hall : ∀ j k : Fin 9, regOf j = regOf k → j = k := by decide
  exact congrArg Fin.val (hall ⟨j, hj⟩ ⟨k, hk⟩ h)

theorem regOf_ne_rcx {j : Nat} (h : j < 9) : regOf j ≠ rcx := by
  have hall : ∀ j : Fin 9, regOf j ≠ rcx := by decide
  exact hall ⟨j, h⟩

theorem low_count (x : UInt64) : x.toUInt8.toNat % 32 = x.toUInt32.toNat % 32 := by
  rw [UInt64.toNat_toUInt8, UInt64.toNat_toUInt32]
  omega

theorem toNat_shift (x : UInt32) : (x % 32).toNat % 32 = x.toNat % 32 ∧
    ((32 - x % 32) % 32).toNat % 32 = (32 - x.toNat % 32) % 32 := by
  have hmod : (x % 32).toNat = x.toNat % 32 := UInt32.toNat_mod ..
  have hlt := Nat.mod_lt x.toNat (show 32 > 0 by decide)
  have hsub : ((32 : UInt32) - x % 32).toNat = 32 - x.toNat % 32 := by
    rw [UInt32.toNat_sub_of_le _ _ (by rw [UInt32.le_iff_toNat_le, hmod]; exact hlt.le), hmod]
    rfl
  refine ⟨by rw [hmod, Nat.mod_mod], ?_⟩
  rw [UInt32.toNat_mod, hsub]
  exact Nat.mod_mod _ _

/-- The rotation of the processor is that of the interpreter. -/
theorem turned_eq (x : UInt32) {c : UInt64} {src : UInt32} (h : c.toUInt32 = src) :
    turned false x c.toUInt8 = rotateRight x (src % 32) ∧
      turned true x c.toUInt8 = rotateLeft x (src % 32) := by
  have hcount := low_count c
  rw [h] at hcount
  obtain ⟨hshift, hback⟩ := toNat_shift src
  constructor <;> apply UInt32.toNat.inj
  · change (x.toBitVec.rotateRight (c.toUInt8.toNat % 32)).toNat = _
    rw [hcount, BitVec.toNat_rotateRight, rotateRight, UInt32.toNat_or, UInt32.toNat_shiftLeft,
      UInt32.toNat_shiftRight, hshift, hback, Nat.mod_mod]
    exact (rotation_halves_right x.toNat _ x.toNat_lt (Nat.mod_lt _ (by decide))).symm
  · change (x.toBitVec.rotateLeft (c.toUInt8.toNat % 32)).toNat = _
    rw [hcount, BitVec.toNat_rotateLeft, rotateLeft, UInt32.toNat_or, UInt32.toNat_shiftLeft,
      UInt32.toNat_shiftRight, hshift, hback, Nat.mod_mod]
    exact (rotation_halves x.toNat _ x.toNat_lt (Nat.mod_lt _ (by decide))).symm

theorem low_signExtend (c : UInt32) : (signExtend c).toUInt32 = c := by
  apply UInt32.eq_of_toBitVec_eq
  change (c.toBitVec.signExtend 64).setWidth 32 = c.toBitVec
  ext k hk
  rw [BitVec.getElem_setWidth, BitVec.getLsbD_signExtend]
  simp [hk, show k < 64 by omega, BitVec.getLsbD_eq_getElem]

/-- A new value of a variable. -/
theorem Holds.update (h : Holds prev r s) {t : State} {dst : Nat} (hdst : dst < 4) {x : UInt64}
    {v : UInt32} (hgpr : t.gpr = Function.update s.gpr (regOf dst) x) (hx : x.toUInt32 = v) :
    Holds (if prev = some dst then none else prev) (Function.update r dst v) t where
  low j hj := by
    rw [hgpr]
    by_cases heq : j = dst
    · rw [heq, Function.update_self, Function.update_self, hx]
    · have hne : regOf j ≠ regOf dst := fun hc => heq (regOf_injective hj (by omega) hc)
      rw [Function.update_of_ne hne, Function.update_of_ne heq, h.low j hj]
  count b hb := by
    split at hb
    · exact absurd hb nofun
    · rename_i hne
      have hb' : b ≠ dst := fun hc => hne (hc ▸ hb)
      rw [hgpr, Function.update_of_ne (regOf_ne_rcx (by omega)).symm, Function.update_of_ne hb']
      exact h.count b hb

/-- The load of a count that is not there yet. -/
theorem Holds.mov (h : Holds prev r s) (hi : i.Valid) (hrotation : i.opcode.IsRotation) :
    Holds (some i.srcIndex) r (block processor encode (movLines prev i) s) := by
  unfold movLines
  split
  · refine ⟨fun j hj => ?_, ?_⟩
    · change (Function.update s.gpr rcx _ (regOf j)).toUInt32 = _
      rw [Function.update_of_ne (regOf_ne_rcx hj)]
      exact h.low j hj
    · rintro _ ⟨⟩
      change (Function.update s.gpr rcx _ rcx).toUInt32 = _
      rw [Function.update_self]
      exact h.low _ (Nat.lt_succ_of_le hi.src)
  · rename_i hkeep
    rw [← not_not.mp fun hne => hkeep ⟨hrotation, hne⟩]
    exact h

/-- The template computes what the interpreter computes. -/
theorem Holds.body (h : Holds prev r s) (hi : i.Valid)
    (hcount : i.opcode.IsRotation → prev = some i.srcIndex) :
    Holds (if prev = some i.dstIndex then none else prev) (v4Exec i r)
      (block processor encode (bodyLines asm i) s) := by
  have hd := h.low i.dstIndex (by have := hi.dst; omega)
  have hs := h.low i.srcIndex (Nat.lt_succ_of_le hi.src)
  have hdst := hi.dst
  have hret := hi.opcode
  obtain ⟨opcode, dst, src, c⟩ := i
  dsimp only at hd hs hdst hcount hret
  cases opcode with
  | ret => exact absurd rfl hret
  | mul =>
    cases asm with
    | bulldozer => exact h.update hdst rfl (by rw [UInt32.toUInt32_toUInt64, hd, hs])
    | _ => exact h.update hdst rfl (by rw [UInt64.toUInt32_mul, hd, hs])
  | add =>
    refine h.update hdst (x := s.gpr (regOf dst) + s.gpr (regOf src) + signExtend c) ?_ ?_
    · change Function.update (Function.update s.gpr (regOf dst) _) (regOf dst)
        (Function.update s.gpr (regOf dst) _ (regOf dst) + signExtend c) = _
      rw [Function.update_idem, Function.update_self]
      rfl
    · rw [UInt64.toUInt32_add, UInt64.toUInt32_add, low_signExtend, hd, hs, UInt32.add_assoc]
  | sub => exact h.update hdst rfl (by simp only [WordOp.apply, UInt64.toUInt32_sub]; rw [hd, hs])
  | xor => exact h.update hdst rfl (by simp only [WordOp.apply, UInt64.toUInt32_xor]; rw [hd, hs])
  | ror =>
    have hturn := turned_eq (r dst) (h.count src (hcount (by decide)))
    exact h.update hdst rfl (by rw [UInt32.toUInt32_toUInt64, hd, hturn.1])
  | rol =>
    have hturn := turned_eq (r dst) (h.count src (hcount (by decide)))
    exact h.update hdst rfl (by rw [UInt32.toUInt32_toUInt64, hd, hturn.2])

theorem Holds.instruction (h : Holds prev r s) (hi : i.Valid) :
    Holds (source prev i) (v4Exec i r)
      (block processor encode (bodyLines asm i) (block processor encode (movLines prev i) s)) := by
  by_cases hrotation : i.opcode.IsRotation
  · have hsource : source prev i = if some i.srcIndex = some i.dstIndex then none
        else some i.srcIndex := by
      simp only [source, if_pos hrotation]
    rw [hsource]
    exact (h.mov hi hrotation).body hi fun _ => rfl
  · have hsource : source prev i = if prev = some i.dstIndex then none else prev := by
      simp only [source, if_neg hrotation]
    have hmov : movLines prev i = [] := if_neg fun hc => hrotation hc.1
    rw [hsource, hmov]
    exact h.body hi fun hc => absurd hc hrotation

theorem Holds.lines (h : Holds prev r s) {body : List V4Instruction} (hbody : ∀ i ∈ body, i.Valid) :
    Holds (body.foldl source prev) (body.foldl (fun r i => v4Exec i r) r)
      (block processor encode (lines asm prev body) s) := by
  induction body generalizing prev r s with
  | nil => exact h
  | cons i body ih =>
    rw [CryptonightRGen.lines, block_append, block_append]
    exact ih (h.instruction (hbody i List.mem_cons_self)) fun j hj =>
      hbody j (List.mem_cons_of_mem i hj)

theorem lines_append (prev : Option Nat) (body rest : List V4Instruction) :
    lines asm prev (body ++ rest) = lines asm prev body ++ lines asm (body.foldl source prev) rest := by
  induction body generalizing prev with
  | nil => rfl
  | cons i body ih => simp [lines, ih]

/-- The only registers that the code writes. -/
def Written (q : Register) : Prop := q = rcx ∨ ∃ j < 4, q = regOf j

/-- The register that a line writes. -/
def target : Instr → Register
  | .word _ dst _ | .imul _ dst _ | .addImm dst _ | .rotate _ dst => dst

theorem mem_lines {body : List V4Instruction} (hbody : ∀ i ∈ body, i.Valid) :
    ∀ l ∈ lines asm prev body, l.Encodable ∧ Written (target l) := by
  induction body generalizing prev with
  | nil => exact nofun
  | cons i body ih =>
    intro l hl
    have hdst := (hbody i List.mem_cons_self).dst
    rw [lines, List.mem_append, List.mem_append] at hl
    rcases hl with hl | hl | hl
    · unfold movLines at hl
      split at hl
      · obtain rfl := List.mem_singleton.mp hl
        exact ⟨trivial, .inl rfl⟩
      · exact absurd hl List.not_mem_nil
    · have hvariable : Written (regOf i.dstIndex) := .inr ⟨_, hdst, rfl⟩
      unfold bodyLines at hl
      split at hl <;> simp only [List.mem_cons, List.not_mem_nil, or_false] at hl
      · subst hl
        refine ⟨?_, hvariable⟩
        cases asm
        case bulldozer => exact extended_regOf hdst
        all_goals exact trivial
      · rcases hl with rfl | rfl <;> exact ⟨trivial, hvariable⟩
      all_goals subst hl; exact ⟨trivial, hvariable⟩
    · exact ih (fun j hj => hbody j (List.mem_cons_of_mem i hj)) l hl

theorem block_frame {ls : List Instr} {q : Register} (h : ∀ l ∈ ls, q ≠ target l) (s : State) :
    (block processor encode ls s).gpr q = s.gpr q := by
  induction ls generalizing s with
  | nil => rfl
  | cons l ls ih =>
    rw [block_cons, ih fun k hk => h k (List.mem_cons_of_mem l hk)]
    have hne := h l List.mem_cons_self
    rcases l with _ | ⟨wide, _, _⟩ | _ | _
    case imul => cases wide <;> exact Function.update_of_ne hne _ _
    all_goals exact Function.update_of_ne hne _ _

end Execution

section Correctness

variable {asm : Assembly} {code : List V4Instruction} {r : Registers} {s : State}

/-- What the generator makes: valid instructions up to a `RET`, not more than the interpreter runs. -/
structure Program (code : List V4Instruction) : Prop where
  valid : ∀ i ∈ code.takeWhile (·.opcode ≠ .ret), i.Valid
  size : (code.takeWhile (·.opcode ≠ .ret)).length ≤ numInstructionsMax

/-- The low halves hold the registers of the interpreter. -/
def Related (r : Registers) (s : State) : Prop := ∀ j < 9, (s.gpr (regOf j)).toUInt32 = r j

/-- The interpreter on the first instructions of a program. -/
theorem v4RandomMath_take (h : Program code) (k : Nat) :
    v4RandomMath (code.take k) r =
      ((code.takeWhile (·.opcode ≠ .ret)).take k).foldl (fun r i => v4Exec i r) r := by
  have hsize : ((code.takeWhile (·.opcode ≠ .ret)).take k).length ≤ 70 :=
    (List.length_take_le' ..).trans h.size
  rw [v4RandomMath, ← List.take_takeWhile, ← List.take_takeWhile, List.take_of_length_le hsize]

theorem v4RandomMath_eq (h : Program code) :
    v4RandomMath code r = (code.takeWhile (·.opcode ≠ .ret)).foldl (fun r i => v4Exec i r) r := by
  have hall := v4RandomMath_take (r := r) h code.length
  rwa [List.take_length, List.take_takeWhile, List.take_length] at hall

theorem bodyLines_rotation {i : V4Instruction} (hrotation : i.opcode.IsRotation) :
    bodyLines asm i = [.rotate (i.opcode == .rol) (regOf i.dstIndex)] := by
  unfold bodyLines
  rcases hrotation with h | h <;> rw [h] <;> rfl

/-- Code that lies at the program counter leaves the registers of the interpreter and touches no
register but the four variables and the count. On the way every rotation finds the value of its
source in the count register. -/
theorem code_computes (asm : Assembly) (code : List V4Instruction) (r : Registers) (s : State)
    (h : Program code) (hrelated : Related r s)
    (hcode : read s.memory s.rip (addRandomMath false asm code).length =
      addRandomMath false asm code) :
    ∃ t, processor.Reaches s t ∧ t.rip = s.rip + (addRandomMath false asm code).length ∧
      Related (v4RandomMath code r) t ∧ (∀ q, ¬Written q → t.gpr q = s.gpr q) ∧
      ∀ k (hk : k < (code.takeWhile (·.opcode ≠ .ret)).length),
        let i := (code.takeWhile (·.opcode ≠ .ret))[k]
        i.opcode.IsRotation → ∃ u, processor.Reaches s u ∧ processor.Reaches u t ∧
          (∃ n, processor.step u =
            some (processor.exec (.rotate (i.opcode == .rol) (regOf i.dstIndex)) n u)) ∧
          Related (v4RandomMath (code.take k) r) u ∧
          (u.gpr rcx).toUInt32 = v4RandomMath (code.take k) r i.srcIndex := by
  have hvalid := h.valid
  have hout : addRandomMath false asm code =
      assemble encode (lines asm none (code.takeWhile (·.opcode ≠ .ret))) := by
    rw [addRandomMath, foldl_addInstruction hvalid]
    rfl
  rw [hout] at hcode ⊢
  rw [v4RandomMath_eq h]
  simp only [v4RandomMath_take h]
  generalize code.takeWhile (·.opcode ≠ .ret) = body at *
  have hstart : Holds none r s := ⟨hrelated, nofun⟩
  have hlines (l : Instr) (hl : l ∈ lines asm none body) := mem_lines hvalid l hl
  have hstraight : ∀ l ∈ lines asm none body, processor.Straight l := fun l _ => straight l
  have hencodes : ∀ l ∈ lines asm none body, processor.Encodes (encode l) l :=
    fun l hl => encodes (hlines l hl).1
  refine ⟨block processor encode (lines asm none body) s, reaches_block hencodes hstraight hcode,
    pc_block hstraight, (hstart.lines hvalid).low, fun q hq => ?_, fun k hk hrotation => ?_⟩
  · refine block_frame (fun l hl hc => hq ?_) s
    rw [hc]
    exact (hlines l hl).2
  -- the code before the rotation, and the code from the rotation on
  have hi := hvalid body[k] (List.getElem_mem hk)
  have hsplit : body = body.take k ++ body[k] :: body.drop (k + 1) := by
    rw [List.getElem_cons_drop, List.take_append_drop]
  generalize body[k] = i at *
  obtain ⟨front, hfront⟩ : ∃ front, front =
      lines asm none (body.take k) ++ movLines ((body.take k).foldl source none) i := ⟨_, rfl⟩
  have hback : lines asm none body = front ++ .rotate (i.opcode == .rol) (regOf i.dstIndex) ::
      lines asm (source ((body.take k).foldl source none) i) (body.drop (k + 1)) := by
    conv_lhs => rw [hsplit]
    rw [lines_append, lines, bodyLines_rotation hrotation, hfront, List.append_assoc]
    rfl
  rw [hback] at hcode hstraight hencodes ⊢
  obtain ⟨hfirst, hsecond, hnext⟩ := reaches_between hencodes hstraight hcode
  rw [assemble_cons] at hnext
  have hholds : Holds (some i.srcIndex) ((body.take k).foldl (fun r i => v4Exec i r) r)
      (block processor encode front s) := by
    rw [hfront, block_append]
    exact (hstart.lines fun j hj => hvalid j (List.mem_of_mem_take hj)).mov hi hrotation
  have hstep := step_of_encodes (hencodes _ (List.mem_append_right _ List.mem_cons_self))
    (read_append hnext).1
  exact ⟨_, hfirst, hsecond, ⟨_, hstep⟩, hholds.low, hholds.count _ rfl⟩

theorem code_computes_rotation :
    let code : List V4Instruction := [⟨.ror, 0, 1, 0⟩, ⟨.add, 1, 8, 5⟩, ⟨.rol, 2, 1, 0⟩, ⟨.ret, 0, 0, 0⟩]
    let s : State := ⟨fun q => .ofNat q, fun _ _ => 0,
      write (fun _ => 0) 0 (addRandomMath false .intel code), 0⟩
    ∃ t, processor.Reaches s t ∧ Related (v4RandomMath code fun j => (s.gpr (regOf j)).toUInt32) t := by
  intro code s
  have hbody : code.takeWhile (·.opcode ≠ .ret) =
      [⟨.ror, 0, 1, 0⟩, ⟨.add, 1, 8, 5⟩, ⟨.rol, 2, 1, 0⟩] := by decide
  have hprogram : Program code := by
    refine ⟨?_, by rw [hbody]; decide⟩
    rw [hbody]
    intro i hi
    simp only [List.mem_cons, List.not_mem_nil, or_false] at hi
    rcases hi with rfl | rfl | rfl <;> exact ⟨by decide, by decide, by decide, by decide, by decide⟩
  obtain ⟨t, hreaches, -, hrelated, -⟩ :=
    code_computes .intel code _ s hprogram (fun _ _ => rfl) (by decide +kernel)
  exact ⟨t, hreaches, hrelated⟩

/-- What the generator returns is a program. -/
theorem program_of_generated {firstPhase : Nat} {body : List V4Instruction}
    (h : V4RandomMathInit.Generated firstPhase body) : Program (body ++ [⟨.ret, 0, 0, 0⟩]) := by
  have hbody : (body ++ [(⟨.ret, 0, 0, 0⟩ : V4Instruction)]).takeWhile (·.opcode ≠ .ret) = body := by
    rw [List.takeWhile_append_of_pos fun i hi => decide_eq_true (h.valid i hi).opcode]
    simp
  exact ⟨hbody.symm ▸ h.valid, hbody.symm ▸ h.size.2⟩

end Correctness

end VeloxHash.CryptonightRGen
