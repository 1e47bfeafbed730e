import VeloxHash.JitRounding

/-! The compiled program and the interpreted program side by side. The processor decodes the
rounding-mode changes and the branches from the bytes of the finished buffer. What the other
instructions do to registers and scratchpad is a parameter that both machines share: none of
them reads or writes the control word, the stack or the program counter. -/

namespace VeloxHash.JitExecution

open Randomx CodeBuffer CodeBuffer.Store JitCompilerX86 BytecodeMachine JitLayout JitBranchTarget
  JitRounding

/-- The effect of the instruction at an index on the registers and the scratchpad, under the
control word where it rounds; `turn` is the work between two passes over the program. -/
structure Datapath (D : Type*) where
  plain : Nat → D → D
  round : Nat → UInt32 → D → D
  reg : D → Fin 8 → UInt64
  setReg : D → Fin 8 → UInt64 → D
  turn : D → D

def rotr64 (x : UInt64) (c : Nat) : UInt64 := ⟨x.toBitVec.rotateRight c⟩

variable {D : Type*}

section Interpreter

/-- `rounded` lists the instructions that rounded, the latest first, with the control word
each of them ran under. -/
structure Interpreter (D : Type*) where
  pc : Int
  mxcsr : UInt32
  data : D
  rounded : List (Int × UInt32) := []

/-- `rx_set_rounding_mode`. -/
def setRoundingMode (mode : UInt32) : UInt32 := 0x9FC0 ||| shl32 mode 13

variable (dp : Datapath D)

def readSource (ibc : InstructionByteCode) (data : D) : UInt64 :=
  match ibc.isrc with
  | .reg r => dp.reg data r
  | .imm => ibc.imm
  | .zero => 0

/-- `exe_CBRANCH`. -/
def exeCbranch (ibc : InstructionByteCode) (s : Interpreter D) : Interpreter D :=
  let v := dp.reg s.data ibc.idst + ibc.imm
  { s with
    data := dp.setReg s.data ibc.idst v
    pc := if v &&& ibc.memMask.toUInt64 = 0 then ibc.target.toInt else s.pc }

/-- `exe_CFROUND`. -/
def exeCfround (ibc : InstructionByteCode) (s : Interpreter D) : Interpreter D :=
  { s with
    mxcsr := setRoundingMode (rotr64 (readSource dp ibc s.data) ibc.imm.toNat % 4).toUInt32 }

def executeInstruction (ibc : InstructionByteCode) (s : Interpreter D) : Interpreter D :=
  match ibc.type with
  | .cbranch => exeCbranch dp ibc s
  | .cfround => exeCfround dp ibc s
  | .nop => s
  | type =>
    if type.rounds then
      { s with
        data := dp.round s.pc.toNat s.mxcsr s.data
        rounded := (s.pc, s.mxcsr) :: s.rounded }
    else
      { s with data := dp.plain s.pc.toNat s.data }

/-- One round of the loop in `executeBytecode`, entered again after the program's last
instruction. -/
def interpret (bytecode : List InstructionByteCode) (s : Interpreter D) :
    Option (Interpreter D) :=
  if s.pc = bytecode.length then
    some { s with pc := 0, data := dp.turn s.data }
  else
    bytecode[s.pc.toNat]?.map fun ibc =>
      let s := executeInstruction dp ibc s
      { s with pc := s.pc + 1 }

end Interpreter

section Processor

/-- `slot` is `[rsp+32]`, where the code for AMD keeps the last mode. -/
structure Processor (D : Type*) where
  pc : Nat
  mxcsr : UInt32
  slot : UInt32
  data : D
  rounded : List (Int × UInt32) := []

/-- The words the prologue puts at `[rsp]`. -/
def controlWord (offset : UInt32) : UInt32 :=
  if offset = 0 then 0x9FC0 else if offset = 4 then 0xBFC0 else if offset = 8 then 0xDFC0
  else 0xFFC0

inductive RoundCode
  | skip
  | load (reg : Nat) (rotate : Nat) (cached : Bool)
  deriving DecidableEq, Repr

def longNopLength : List UInt8 → Nat
  | 0x0F :: 0x1F :: 0x44 :: _ => 5
  | 0x0F :: 0x1F :: 0x80 :: _ => 7
  | 0x0F :: 0x1F :: 0x84 :: _ => 8
  | 0x66 :: 0x0F :: 0x1F :: 0x84 :: _ => 9
  | _ => 0

/-- At most `n` no-ops and nothing else. -/
def onlyNops : Nat → List UInt8 → Bool
  | _, [] => true
  | 0, _ => false
  | n + 1, bytes => onlyNops n (bytes.drop (longNopLength bytes))

/-- `and eax, 12`, then `ldmxcsr [rsp+rax]`, plain or behind `cmp eax, [rsp+32]; je` and
followed by `mov [rsp+32], eax`. -/
def decodeLoad : List UInt8 → Option Bool
  | [0x83, 0xE0, 0x0C, 0x0F, 0xAE, 0x14, 0x04] => some false
  | [0x83, 0xE0, 0x0C, 0x3B, 0x44, 0x24, 0x20, 0x74, 0x0A, 0x0F, 0xAE, 0x14, 0x04, 0xEB, 0x00,
      0x89, 0x44, 0x24, 0x20] => some true
  | _ => none

/-- `mov rax, r; ror rax, c` or `rorx rax, r, c`. -/
def decodeRotate : List UInt8 → Option (Nat × Nat × List UInt8)
  | 0x49 :: 0x8B :: modRM :: 0x48 :: 0xC1 :: 0xC8 :: c :: rest =>
    if modRM.toNat / 8 = 24 then some (modRM.toNat % 8, c.toNat, rest) else none
  | 0xC4 :: 0xC3 :: 0xFB :: 0xF0 :: modRM :: c :: rest =>
    if modRM.toNat / 8 = 24 then some (modRM.toNat % 8, c.toNat, rest) else none
  | _ => none

def decodeRound (bytes : List UInt8) : Option RoundCode :=
  if onlyNops 3 bytes then some .skip
  else (decodeRotate bytes).bind fun (reg, c, rest) => (decodeLoad rest).map (.load reg c)

variable (dp : Datapath D)

def runRound (code : RoundCode) (s : Processor D) : Processor D :=
  match code with
  | .skip => s
  | .load reg c cached =>
    let eax := (rotr64 (dp.reg s.data (.ofNat 8 reg)) c).toUInt32 &&& 12
    if cached then
      if eax = s.slot then s else { s with mxcsr := controlWord eax, slot := eax }
    else
      { s with mxcsr := controlWord eax }

/-- A taken branch continues at the displacement from its end. -/
def runBranch (branch : Branch) (s : Processor D) : Processor D :=
  let v := dp.reg s.data (.ofNat 8 branch.reg) + signExtend2sCompl (.ofNat branch.addend)
  { s with
    data := dp.setReg s.data (.ofNat 8 branch.reg) v
    pc :=
      if v &&& signExtend2sCompl (.ofNat branch.mask) = 0 then
        (s.pc + branch.length + branch.displacement).toNat
      else s.pc + branch.length }

/-- The instruction whose code begins at a position. -/
def codeAt (b : Build) (pc : Nat) : Option Nat :=
  (List.range b.instrs.length).find? fun c => b.start c == pc && pc < b.start (c + 1)

/-- Run the code at the program counter: instruction `c`, which ends where `c + 1` begins. -/
def runCode (b : Build) (code : Memory) (c : Nat) (s : Processor D) : Option (Processor D) :=
  (b.instrs[c]?.map b.config.instructionType).bind fun type =>
    match type with
    | .cbranch => (branchAt code s.pc).map fun branch => runBranch dp branch s
    | .cfround =>
      (decodeRound (read code s.pc (b.start (c + 1) - s.pc))).map fun round =>
        { runRound dp round s with pc := b.start (c + 1) }
    | .nop => some { s with pc := b.start (c + 1) }
    | type =>
      some <| if type.rounds then
        { s with
          data := dp.round c s.mxcsr s.data
          rounded := (c, s.mxcsr) :: s.rounded
          pc := b.start (c + 1) }
      else
        { s with data := dp.plain c s.data, pc := b.start (c + 1) }

/-- Behind the program the fixed code closes the loop. -/
def process (b : Build) (code : Memory) (s : Processor D) : Option (Processor D) :=
  if s.pc = b.start b.instrs.length then
    some { s with pc := b.start 0, data := dp.turn s.data }
  else
    (codeAt b s.pc).bind fun c => runCode dp b code c s

end Processor

section Handlers

variable (host : Host) (config : Config) (instr : Instruction) (s : Jit) (i : Int) (usage : Usage)

@[simp] theorem memoryOperand_type (type : InstructionType) :
    (memoryOperand config instr type).type = type := by
  unfold memoryOperand
  split <;> rfl

@[simp] theorem registerOrImm_type (type : InstructionType) (imm : UInt64) :
    (registerOrImm instr type imm).type = type := by
  unfold registerOrImm
  split <;> rfl

/-- Code is empty exactly where the interpreter compiles a no-op. -/
theorem handler_empty_iff (type : InstructionType) (hbranch : type ≠ .cbranch)
    (hround : type ≠ .cfround) (hnop : type ≠ .nop) :
    (handler host config instr type s).codePos = s.codePos ↔
      (compileType config instr i usage type).1.type = .nop := by
  cases type with
  | cbranch | cfround | nop => contradiction
  | imulRcp =>
    rw [handler, compileType, hImulRcp, compileImulRcp]
    cases isZeroOrPowerOf2 instr.imm32 with
    | true => simp
    | false =>
      simp only [Bool.false_eq_true, if_false, Bool.not_false, if_true]
      split <;> simp [integerHandler]
  | iswapR =>
    rw [handler, compileType, hIswapR, compileIswapR]
    split <;> simp [integerHandler]
  | imulhR =>
    cases hbmi : host.hasBMI2 <;>
      simp [handler, hbmi, hImulhRBmi2, hImulhR, integerHandler, compileType, registerOperand]
  | imulhM =>
    cases hbmi : host.hasBMI2 with
    | false => simp [handler, hbmi, hImulhM, highMemoryHandler, integerHandler, compileType]
    | true =>
      simp only [handler, hbmi, if_true, hImulhMBmi2, integerHandler, compileType]
      split <;> simp
  | iaddM | isubM | ixorM =>
    simp only [handler, hIaddM, hIsubM, hIxorM, memoryHandler, integerHandler, compileType]
    split <;> simp
  | ismulhM => simp [handler, hIsmulhM, highMemoryHandler, integerHandler, compileType]
  | irorR | irolR =>
    simp only [handler, hIrorR, hIrolR, rotateHandler, integerHandler, compileType]
    split <;> simp
  | isubR | imulR | imulM | ixorR =>
    simp only [handler, hIsubR, hImulR, hImulM, hIxorR, integerHandler, compileType]
    split <;> simp
  | iaddRs | ismulhR | inegR =>
    simp [handler, hIaddRs, hIsmulhR, hInegR, integerHandler, compileType, compileIaddRs,
      registerOperand]
  | fswapR | fscalR | istore =>
    simp [handler, hFswapR, hFscalR, hIstore, compileType, compileFswapR, compileIstore]
  | faddR | faddM | fsubR | fsubM | fmulR | fdivM | fsqrtR =>
    simp [handler, hFaddR, hFaddM, hFsubR, hFsubM, hFmulR, hFdivM, hFsqrtR, roundingHandler,
      compileType, floatMemoryOperand]

/-- Only `IMUL_RCP` and `ISWAP_R` compile to another type, and never to one that rounds,
branches or changes the mode. -/
theorem compileType_type (type : InstructionType) :
    (compileType config instr i usage type).1.type = type ∨
      (type = .imulRcp ∨ type = .iswapR) ∧
        ((compileType config instr i usage type).1.type = .imulR ∨
          (compileType config instr i usage type).1.type = .nop) := by
  cases type with
  | imulRcp =>
    refine .inr ⟨.inl rfl, ?_⟩
    rw [compileType, compileImulRcp]
    split
    · exact .inl rfl
    · exact .inr rfl
  | iswapR =>
    rw [compileType, compileIswapR]
    split
    · exact .inl rfl
    · exact .inr ⟨.inr rfl, .inr rfl⟩
  | iaddM | isubM | imulM | imulhM | ismulhM | ixorM => exact .inl (memoryOperand_type ..)
  | isubR | imulR | ixorR | irorR | irolR => exact .inl (registerOrImm_type ..)
  | _ => exact .inl rfl


end Handlers

theorem rotr64_testBit (x : UInt64) {c j : Nat} (hc : c < 64) (hj : j < 64) :
    (rotr64 x c).toNat.testBit j = x.toNat.testBit ((c + j) % 64) := by
  change (x.toBitVec.rotateRight c).getLsbD j = x.toBitVec.getLsbD ((c + j) % 64)
  rw [BitVec.getLsbD_rotateRight, Nat.mod_eq_of_lt hc]
  by_cases h : j < 64 - c
  · rw [decide_eq_true h, cond_true, Nat.mod_eq_of_lt (by omega)]
  · rw [decide_eq_false h, cond_false, decide_eq_true hj, Bool.true_and]
    congr 1
    omega

/-- The compiled rotation leaves the mode in bits 2 and 3, ready to index the control words. -/
theorem rotated_mode (x : UInt64) {c c' : Nat} (hc : c < 64) (hc' : c' = (c + 62) % 64) :
    ((rotr64 x c').toUInt32 &&& 12).toNat = (rotr64 x c % 4).toNat * 2 ^ 2 := by
  apply Nat.eq_of_testBit_eq
  intro j
  rw [UInt32.toNat_and, Nat.testBit_and, UInt64.toNat_toUInt32, Nat.testBit_mod_two_pow,
    UInt64.toNat_mod, show (4 : UInt64).toNat = 2 ^ 2 from rfl, Nat.testBit_mul_two_pow,
    Nat.testBit_mod_two_pow, show (12 : UInt32).toNat = 12 from rfl]
  rcases Nat.lt_or_ge j 2 with hlow | hlow
  · have hbit : (12 : Nat).testBit j = false := by interval_cases j <;> rfl
    simp [hbit, show ¬ 2 ≤ j by omega]
  · rcases Nat.lt_or_ge j 4 with hmid | hhigh
    · have hbit : (12 : Nat).testBit j = true := by interval_cases j <;> rfl
      rw [hbit, rotr64_testBit x (by omega) (by omega), rotr64_testBit x hc (by omega)]
      simp only [hlow, decide_true, Bool.true_and, Bool.and_true, show j < 32 by omega,
        show j - 2 < 2 by omega]
      congr 1
      omega
    · rw [Nat.testBit_lt_two_pow (show 12 < 2 ^ j from lt_of_lt_of_le (by decide)
        (Nat.pow_le_pow_right (by decide) hhigh))]
      simp [show ¬ j - 2 < 2 by omega]

theorem controlWord_eq (x : UInt64) {c c' : Nat} (hc : c < 64) (hc' : c' = (c + 62) % 64) :
    controlWord ((rotr64 x c').toUInt32 &&& 12) = setRoundingMode (rotr64 x c % 4).toUInt32 := by
  have hmode := rotated_mode x hc hc'
  have hlt : (rotr64 x c % 4).toNat < 4 := by
    rw [UInt64.toNat_mod]
    exact Nat.mod_lt _ (by decide)
  generalize (rotr64 x c').toUInt32 &&& 12 = eax at hmode
  generalize rotr64 x c % 4 = mode at hmode hlt
  obtain ⟨m, rfl⟩ : ∃ m : Fin 4, mode = .ofNat m :=
    ⟨⟨mode.toNat, hlt⟩, UInt64.toNat_inj.mp (by simp)⟩
  obtain rfl : eax = .ofNat (m * 4) := UInt32.toNat_inj.mp (by
    rw [hmode, UInt32.toNat_ofNat', UInt64.toNat_ofNat']
    omega)
  revert m
  decide

theorem signExtend_addend (instr : Instruction) :
    signExtend2sCompl (branchAddend instr) = branchImm instr := by
  have hbits : ∀ shift : Fin 16,
      signExtend2sCompl (shl32 (shl32 1 (.ofNat jumpOffset)) (.ofNat shift)) =
          (1 <<< UInt64.ofNat jumpOffset) <<< UInt64.ofNat shift ∧
        signExtend2sCompl (rotl32 (~~~shl32 1 (.ofNat (jumpOffset - 1))) (.ofNat shift)) =
          ~~~((1 <<< UInt64.ofNat (jumpOffset - 1)) <<< UInt64.ofNat shift) := by decide
  obtain ⟨hor, hand⟩ := hbits ⟨instr.getModCond, instr.getModCond_lt⟩
  have hsplit (a b c : UInt32) : signExtend2sCompl ((a ||| b) &&& c) =
      (signExtend2sCompl a ||| signExtend2sCompl b) &&& signExtend2sCompl c :=
    UInt64.toBitVec_inj.mp (by simp [signExtend2sCompl])
  simp only [branchAddend, branchImm] at hor hand ⊢
  rw [hsplit, hor, hand]

theorem signExtend_mask (instr : Instruction) :
    signExtend2sCompl (branchMask instr) =
      (conditionMask <<< UInt32.ofNat instr.getModCond).toUInt64 := by
  have hbits : ∀ shift : Fin 16, signExtend2sCompl (shl32 conditionMask (.ofNat shift)) =
      (conditionMask <<< UInt32.ofNat shift).toUInt64 := by decide
  exact hbits ⟨instr.getModCond, instr.getModCond_lt⟩

theorem decodeRound_nops (host : Host) : decodeRound (roundNops host) = some .skip := by
  unfold roundNops
  cases host.hasBMI2 <;> cases host.amd <;> rfl

theorem toNat_roundRotate (instr : Instruction) :
    (roundRotate instr).toNat = (instr.imm32.toNat % 64 + 62) % 64 := by
  have hmask (x : UInt32) : (x &&& 63).toNat = x.toNat % 64 := by
    rw [UInt32.toNat_and]
    exact Nat.and_two_pow_sub_one_eq_mod _ 6
  have hlt := Nat.mod_lt instr.imm32.toNat (show 0 < 64 by decide)
  rw [roundRotate, hmask, UInt32.toNat_sub, hmask, show (2 : UInt32).toNat = 2 from rfl]
  omega

theorem code_movRegister (r : Fin 8) :
    (put32 (0x00C08B49 + shl32 (reg32 r) 16) 3).code = [0x49, 0x8B, 0xC0 + UInt8.ofNat r] := by
  revert r
  decide

theorem code_ror (c : Fin 64) :
    (put32 (0x00C8C148 + shl32 (.ofNat c) 24) 4).code = [0x48, 0xC1, 0xC8, UInt8.ofNat c] := by
  revert c
  decide

theorem code_rorx (r : Fin 8) (c : Fin 64) :
    (put64 (0xC0F0FBC3C4 ||| shl64 (reg64 r) 32 ||| shl64 (UInt32.ofNat c).toUInt64 40) 6).code =
      [0xC4, 0xC3, 0xFB, 0xF0, 0xC0 + UInt8.ofNat r, UInt8.ofNat c] := by
  revert r c
  decide +kernel

theorem decodeLoad_tail (host : Host) :
    decodeLoad (CodeBuffer.code (roundTail host)) = some host.amd := by
  unfold roundTail
  cases host.amd <;> rfl

theorem decodeRound_load {bytes rest : List UInt8} {reg c : Nat} {cached : Bool}
    (hnops : onlyNops 3 bytes = false) (hrotate : decodeRotate bytes = some (reg, c, rest))
    (hload : decodeLoad rest = some cached) :
    decodeRound bytes = some (.load reg c cached) := by
  rw [decodeRound, hnops, hrotate]
  simp [hload]

theorem decodeRound_code (host : Host) (instr : Instruction) :
    decodeRound (CodeBuffer.code (roundCode host instr)) =
      some (.load instr.src (roundRotate instr).toNat host.amd) := by
  have hlt : (roundRotate instr).toNat < 64 := by
    rw [toNat_roundRotate]
    exact Nat.mod_lt _ (by decide)
  obtain ⟨c, hc⟩ : ∃ c : Fin 64, roundRotate instr = .ofNat c :=
    ⟨⟨_, hlt⟩, UInt32.toNat_inj.mp (by simp)⟩
  have hreg := modRM_reg instr.src
  have hcount : (UInt8.ofNat c.val).toNat = (roundRotate instr).toNat := by
    rw [hc, UInt8.toNat_ofNat', UInt32.toNat_ofNat']
    omega
  unfold roundCode
  cases host.hasBMI2 with
  | false =>
    have hcode : CodeBuffer.code (roundStores host instr) =
        0x49 :: 0x8B :: (0xC0 + UInt8.ofNat instr.src) :: 0x48 :: 0xC1 :: 0xC8 :: UInt8.ofNat c ::
          CodeBuffer.code (roundTail host) := by
      rw [roundStores, CodeBuffer.code, List.flatMap_append, List.flatMap_cons, List.flatMap_cons,
        code_movRegister, hc, code_ror]
      rfl
    rw [if_neg (by decide), hcode]
    refine decodeRound_load rfl ?_ (decodeLoad_tail host)
    rw [decodeRotate, if_pos hreg.1, hreg.2, hcount]
  | true =>
    have hcode : CodeBuffer.code (roundStoresBmi2 host instr) =
        0xC4 :: 0xC3 :: 0xFB :: 0xF0 :: (0xC0 + UInt8.ofNat instr.src) :: UInt8.ofNat c ::
          CodeBuffer.code (roundTail host) := by
      rw [roundStoresBmi2, CodeBuffer.code, List.flatMap_cons, hc, code_rorx]
      rfl
    rw [if_pos rfl, hcode]
    refine decodeRound_load rfl ?_ (decodeLoad_tail host)
    rw [decodeRotate, if_pos hreg.1, hreg.2, hcount]

/-- Code that is not empty is found where it begins. -/
theorem codeAt_start (b : Build) {c : Nat} (hc : c < b.instrs.length)
    (hne : b.start c ≠ b.start (c + 1)) : codeAt b (b.start c) = some c := by
  have hlt : b.start c < b.start (c + 1) := lt_of_le_of_ne (b.start_succ c).1 hne
  have hmem : (codeAt b (b.start c)).isSome := by
    rw [codeAt, List.find?_isSome]
    exact ⟨c, List.mem_range.mpr hc, by simp [hlt]⟩
  obtain ⟨c', hc'⟩ := Option.isSome_iff_exists.mp hmem
  have hfound := List.find?_some hc'
  simp only [Bool.and_eq_true, beq_iff_eq, decide_eq_true_eq] at hfound
  rcases Nat.lt_trichotomy c c' with h | rfl | h
  · have := b.start_mono (show c + 1 ≤ c' from h)
    omega
  · exact hc'
  · have := b.start_mono (show c' + 1 ≤ c from h)
    omega

end VeloxHash.JitExecution
