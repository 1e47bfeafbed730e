import VeloxHash.RandomxProgram

/-! The bytecode compiler of the reference interpreter. Pointers into the register
file become names of registers; a field that an instruction type does not set keeps
its default here and is never read by the executor of that type. -/

namespace VeloxHash.BytecodeMachine

open Randomx

/-- Where `isrc` points. -/
inductive IntSource
  | reg (r : Fin 8)
  | imm
  | zero
  deriving DecidableEq, Repr

/-- Where `fdst` and `fsrc` point. -/
inductive FloatRegister
  | f (r : Fin 4)
  | e (r : Fin 4)
  | a (r : Fin 4)
  deriving DecidableEq, Repr

structure InstructionByteCode where
  type : InstructionType
  idst : Fin 8 := 0
  fdst : FloatRegister := .f 0
  isrc : IntSource := .zero
  fsrc : FloatRegister := .a 0
  imm : UInt64 := 0
  target : Int16 := 0
  shift : Nat := 0
  memMask : UInt32 := 0
  deriving DecidableEq

/-- `registerUsage`: the last instruction that wrote each register. -/
abbrev Usage := Fin 8 → Int

def signExtend2sCompl (x : UInt32) : UInt64 := ⟨x.toBitVec.signExtend 64⟩

/-- `r % RegisterCountFlt`. -/
def floatIndex (r : Fin 8) : Fin 4 := ⟨r.val % 4, Nat.mod_lt _ (by decide)⟩

/-- One round of the long division in `randomx_reciprocal`. -/
def reciprocalRound (divisor : Nat) (state : Nat × Nat) : Nat × Nat :=
  if state.2 ≥ divisor - state.2 then
    (state.1 * 2 + 1, state.2 * 2 - divisor)
  else
    (state.1 * 2, state.2 * 2)

/-- `randomx_reciprocal`; `bsr` rounds of `Nat.log2 divisor + 1`. -/
def randomxReciprocal (divisor : UInt32) : UInt64 :=
  let d := divisor.toNat
  .ofNat ((reciprocalRound d)^[Nat.log2 d + 1] (2 ^ 63 / d, 2 ^ 63 % d)).1

section Compile

variable (config : Config) (instr : Instruction) (i : Int) (usage : Usage)

/-- The integer source shared by the register instructions: the register, or the
immediate when source and destination coincide. -/
def registerOrImm (type : InstructionType) (imm : UInt64) : InstructionByteCode :=
  if instr.src ≠ instr.dst then
    { type, idst := instr.dst, isrc := .reg instr.src }
  else
    { type, idst := instr.dst, isrc := .imm, imm }

/-- The memory operand shared by the integer memory instructions. -/
def memoryOperand (type : InstructionType) : InstructionByteCode :=
  if instr.src ≠ instr.dst then
    { type, idst := instr.dst, imm := signExtend2sCompl instr.imm32, isrc := .reg instr.src
      memMask := config.addressMask instr.getModMem }
  else
    { type, idst := instr.dst, imm := signExtend2sCompl instr.imm32, isrc := .zero
      memMask := config.scratchpadL3Mask }

def registerOperand (type : InstructionType) : InstructionByteCode :=
  { type, idst := instr.dst, isrc := .reg instr.src }

/-- The memory operand of the floating-point instructions. -/
def floatMemoryOperand (type : InstructionType) (fdst : FloatRegister) : InstructionByteCode :=
  { type, fdst, isrc := .reg instr.src, memMask := config.addressMask instr.getModMem
    imm := signExtend2sCompl instr.imm32 }

def compileIaddRs : InstructionByteCode where
  type := .iaddRs
  idst := instr.dst
  isrc := .reg instr.src
  shift := instr.getModShift
  imm := if instr.dst ≠ registerNeedsDisplacement then 0 else signExtend2sCompl instr.imm32

def compileImulRcp : InstructionByteCode × Usage :=
  if !isZeroOrPowerOf2 instr.imm32 then
    ({ type := .imulR, idst := instr.dst, imm := randomxReciprocal instr.imm32, isrc := .imm },
      Function.update usage instr.dst i)
  else
    ({ type := .nop }, usage)

def compileIswapR : InstructionByteCode × Usage :=
  if instr.src ≠ instr.dst then
    ({ type := .iswapR, idst := instr.dst, isrc := .reg instr.src },
      Function.update (Function.update usage instr.dst i) instr.src i)
  else
    ({ type := .nop }, usage)

def compileFswapR : InstructionByteCode where
  type := .fswapR
  fdst := if instr.dst.val < 4 then .f (floatIndex instr.dst) else .e (floatIndex instr.dst)

def branchImm : UInt64 :=
  let shift := UInt64.ofNat instr.getModCond
  (signExtend2sCompl instr.imm32 ||| (1 <<< UInt64.ofNat jumpOffset) <<< shift) &&&
    ~~~((1 <<< UInt64.ofNat (jumpOffset - 1)) <<< shift)

def compileCbranch : InstructionByteCode × Usage :=
  ({ type := .cbranch
     idst := instr.dst
     target := .ofInt (usage instr.dst)
     imm := branchImm instr
     memMask := conditionMask <<< UInt32.ofNat instr.getModCond },
    fun _ => i)

def compileCfround : InstructionByteCode where
  type := .cfround
  isrc := .reg instr.src
  imm := (instr.imm32 &&& 63).toUInt64

def compileIstore : InstructionByteCode where
  type := .istore
  idst := instr.dst
  isrc := .reg instr.src
  imm := signExtend2sCompl instr.imm32
  memMask :=
    if instr.getModCond < storeL3Condition then config.addressMask instr.getModMem
    else config.scratchpadL3Mask

/-- The branch of `compileInstruction` for one instruction type. -/
def compileType : InstructionType → InstructionByteCode × Usage
  | .iaddRs => (compileIaddRs instr, Function.update usage instr.dst i)
  | .iaddM => (memoryOperand config instr .iaddM, Function.update usage instr.dst i)
  | .isubR =>
    (registerOrImm instr .isubR (signExtend2sCompl instr.imm32), Function.update usage instr.dst i)
  | .isubM => (memoryOperand config instr .isubM, Function.update usage instr.dst i)
  | .imulR =>
    (registerOrImm instr .imulR (signExtend2sCompl instr.imm32), Function.update usage instr.dst i)
  | .imulM => (memoryOperand config instr .imulM, Function.update usage instr.dst i)
  | .imulhR => (registerOperand instr .imulhR, Function.update usage instr.dst i)
  | .imulhM => (memoryOperand config instr .imulhM, Function.update usage instr.dst i)
  | .ismulhR => (registerOperand instr .ismulhR, Function.update usage instr.dst i)
  | .ismulhM => (memoryOperand config instr .ismulhM, Function.update usage instr.dst i)
  | .imulRcp => compileImulRcp instr i usage
  | .inegR => ({ type := .inegR, idst := instr.dst }, Function.update usage instr.dst i)
  | .ixorR =>
    (registerOrImm instr .ixorR (signExtend2sCompl instr.imm32), Function.update usage instr.dst i)
  | .ixorM => (memoryOperand config instr .ixorM, Function.update usage instr.dst i)
  | .irorR =>
    (registerOrImm instr .irorR instr.imm32.toUInt64, Function.update usage instr.dst i)
  | .irolR =>
    (registerOrImm instr .irolR instr.imm32.toUInt64, Function.update usage instr.dst i)
  | .iswapR => compileIswapR instr i usage
  | .fswapR => (compileFswapR instr, usage)
  | .faddR =>
    ({ type := .faddR, fdst := .f (floatIndex instr.dst), fsrc := .a (floatIndex instr.src) }, usage)
  | .faddM => (floatMemoryOperand config instr .faddM (.f (floatIndex instr.dst)), usage)
  | .fsubR =>
    ({ type := .fsubR, fdst := .f (floatIndex instr.dst), fsrc := .a (floatIndex instr.src) }, usage)
  | .fsubM => (floatMemoryOperand config instr .fsubM (.f (floatIndex instr.dst)), usage)
  | .fscalR => ({ type := .fscalR, fdst := .f (floatIndex instr.dst) }, usage)
  | .fmulR =>
    ({ type := .fmulR, fdst := .e (floatIndex instr.dst), fsrc := .a (floatIndex instr.src) }, usage)
  | .fdivM => (floatMemoryOperand config instr .fdivM (.e (floatIndex instr.dst)), usage)
  | .fsqrtR => ({ type := .fsqrtR, fdst := .e (floatIndex instr.dst) }, usage)
  | .cbranch => compileCbranch instr i usage
  | .cfround => (compileCfround instr, usage)
  | .istore => (compileIstore config instr, usage)
  | .nop => ({ type := .nop }, usage)

/-- `compileInstruction`; `none` is `UNREACHABLE`. -/
def compileInstruction : Option (InstructionByteCode × Usage) :=
  (Config.select config.frequency InstructionType.all instr.opcode.toNat).map (compileType config instr i usage)

theorem compileInstruction_eq :
    compileInstruction config instr i usage =
      some (compileType config instr i usage (config.instructionType instr)) := by
  rw [compileInstruction, config.select_instructionType, Option.map_some]

end Compile

/-- `beginCompilation`. -/
def beginCompilation : Usage := fun _ => -1

/-- The loop of `compileProgram` from instruction `i` on. -/
def compileFrom (config : Config) (i : Nat) (usage : Usage) :
    List Instruction → Option (List InstructionByteCode × Usage)
  | [] => some ([], usage)
  | instr :: rest => do
    let (ibc, usage) ← compileInstruction config instr i usage
    let (bytecode, usage) ← compileFrom config (i + 1) usage rest
    return (ibc :: bytecode, usage)

def compileProgram {config : Config} (program : Program config) :
    Option (List InstructionByteCode × Usage) :=
  compileFrom config 0 beginCompilation program.instructions

/-- `compileFrom` with the types it reads off the handler table. -/
def compiled (config : Config) (i : Nat) (usage : Usage) :
    List Instruction → List InstructionByteCode × Usage
  | [] => ([], usage)
  | instr :: rest =>
    let head := compileType config instr i usage (config.instructionType instr)
    let tail := compiled config (i + 1) head.2 rest
    (head.1 :: tail.1, tail.2)

theorem compileFrom_eq (config : Config) (i : Nat) (usage : Usage) (instrs : List Instruction) :
    compileFrom config i usage instrs = some (compiled config i usage instrs) := by
  induction instrs generalizing i usage with
  | nil => rfl
  | cons instr rest ih =>
    rw [compileFrom, compileInstruction_eq]
    simp only [Option.bind_eq_bind, Option.bind_some, ih, compiled]
    rfl

theorem compiled_append (config : Config) (i : Nat) (usage : Usage) (xs ys : List Instruction) :
    compiled config i usage (xs ++ ys) =
      let front := compiled config i usage xs
      let back := compiled config (i + xs.length) front.2 ys
      (front.1 ++ back.1, back.2) := by
  induction xs generalizing i usage with
  | nil => rfl
  | cons x xs ih =>
    simp only [List.cons_append, compiled, ih, List.length_cons, Nat.add_assoc, Nat.add_comm 1]

theorem length_compiled (config : Config) (i : Nat) (usage : Usage) (instrs : List Instruction) :
    (compiled config i usage instrs).1.length = instrs.length := by
  induction instrs generalizing i usage with
  | nil => rfl
  | cons instr rest ih => simp only [compiled, List.length_cons, ih]

/-- `registerUsage` after a list of instructions. -/
def usageAfter (config : Config) (instrs : List Instruction) : Usage :=
  (compiled config 0 beginCompilation instrs).2

theorem usageAfter_append (config : Config) (instrs : List Instruction) (instr : Instruction) :
    usageAfter config (instrs ++ [instr]) =
      (compileType config instr instrs.length (usageAfter config instrs)
        (config.instructionType instr)).2 := by
  simp only [usageAfter, compiled_append, compiled, Nat.zero_add]

/-- The bytecode of an instruction is compiled with the usage its predecessors left. -/
theorem compiled_getElem? (config : Config) (instrs : List Instruction) (k : Nat) :
    (compiled config 0 beginCompilation instrs).1[k]? =
      instrs[k]?.map fun instr =>
        (compileType config instr k (usageAfter config (instrs.take k))
          (config.instructionType instr)).1 := by
  cases h : instrs[k]? with
  | none =>
    rw [List.getElem?_eq_none_iff] at h
    exact List.getElem?_eq_none (by rwa [length_compiled])
  | some instr =>
    obtain ⟨hk, hget⟩ := List.getElem?_eq_some_iff.mp h
    have hsplit : instrs = instrs.take k ++ instr :: instrs.drop (k + 1) := by
      rw [← hget, List.getElem_cons_drop, List.take_append_drop]
    have hlen : (instrs.take k).length = k := List.length_take_of_le hk.le
    conv_lhs => rw [hsplit, compiled_append]
    simp only [hlen, compiled, Nat.zero_add, Option.map_some]
    rw [List.getElem?_append_right (by rw [length_compiled, hlen]), length_compiled, hlen,
      Nat.sub_self]
    rfl

/-- The registers an instruction takes over in `registerUsage`. -/
def touches (type : InstructionType) (instr : Instruction) (r : Fin 8) : Bool :=
  match type with
  | .iaddRs | .iaddM | .isubR | .isubM | .imulR | .imulM | .imulhR | .imulhM | .ismulhR
  | .ismulhM | .inegR | .ixorR | .ixorM | .irorR | .irolR => r == instr.dst
  | .imulRcp => !isZeroOrPowerOf2 instr.imm32 && r == instr.dst
  | .iswapR => instr.src != instr.dst && (r == instr.dst || r == instr.src)
  | .cbranch => true
  | _ => false

theorem compileType_usage (config : Config) (instr : Instruction) (i : Int) (usage : Usage)
    (type : InstructionType) (r : Fin 8) :
    (compileType config instr i usage type).2 r =
      if touches type instr r then i else usage r := by
  cases type with
  | imulRcp =>
    cases h : isZeroOrPowerOf2 instr.imm32 <;>
      simp [compileType, compileImulRcp, touches, h, Function.update_apply]
  | iswapR =>
    by_cases h : instr.src = instr.dst
    · simp [compileType, compileIswapR, touches, h]
    · by_cases hdst : r = instr.dst <;> by_cases hsrc : r = instr.src <;>
        simp [compileType, compileIswapR, touches, h, hdst, hsrc, Function.update_apply]
  | _ => simp [compileType, touches, compileCbranch, Function.update_apply]

end VeloxHash.BytecodeMachine
