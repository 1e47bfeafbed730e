import VeloxHash.FinNumerals
import Mathlib.Data.List.Basic
import Mathlib.Tactic

/-! RandomX programs and the configuration both program engines read. -/

namespace VeloxHash.Randomx

inductive InstructionType
  | iaddRs | iaddM | isubR | isubM | imulR | imulM | imulhR | imulhM | ismulhR | ismulhM
  | imulRcp | inegR | ixorR | ixorM | irorR | irolR | iswapR
  | fswapR | faddR | faddM | fsubR | fsubM | fscalR | fmulR | fdivM | fsqrtR
  | cbranch | cfround | istore | nop
  deriving DecidableEq, Repr

namespace InstructionType

/-- The order in which `Apply` fills the handler table and `compileInstruction`
subtracts the frequencies. -/
def all : List InstructionType :=
  [iaddRs, iaddM, isubR, isubM, imulR, imulM, imulhR, imulhM, ismulhR, ismulhM,
    imulRcp, inegR, ixorR, ixorM, irorR, irolR, iswapR,
    fswapR, faddR, faddM, fsubR, fsubM, fscalR, fmulR, fdivM, fsqrtR,
    cbranch, cfround, istore, nop]

/-- The instructions whose result depends on the rounding mode. -/
def rounds : InstructionType → Bool
  | faddR | faddM | fsubR | fsubM | fmulR | fdivM | fsqrtR => true
  | _ => false

end InstructionType

/-- `class Instruction` for the programs at hand, whose registers are below 8. -/
structure Instruction where
  opcode : UInt8
  dst : Fin 8
  src : Fin 8
  mod : UInt8
  imm32 : UInt32
  deriving DecidableEq, Repr

namespace Instruction

def getModMem (instr : Instruction) : Fin 4 := ⟨instr.mod.toNat % 4, Nat.mod_lt _ (by decide)⟩

def getModShift (instr : Instruction) : Nat := instr.mod.toNat / 4 % 4

def getModCond (instr : Instruction) : Nat := instr.mod.toNat / 16

theorem getModCond_lt (instr : Instruction) : instr.getModCond < 16 := by
  have := instr.mod.toNat_lt
  unfold getModCond
  omega

end Instruction

def registerNeedsDisplacement : Fin 8 := 5
def registerNeedsSib : Fin 8 := 4
def storeL3Condition : Nat := 14
def jumpOffset : Nat := 8
/-- `ConditionMask_Calculated`, with `JumpBits` 8. -/
def conditionMask : UInt32 := 0xFF00
def programMaxSize : Nat := 280

/-- `isZeroOrPowerOf2` at a 32-bit divisor. -/
def isZeroOrPowerOf2 (x : UInt32) : Bool := x.toUInt64 &&& (x.toUInt64 - 1) == 0

/-- The fields of `RandomX_ConfigurationBase` that shape code. -/
structure Config where
  programSize : Nat
  scratchpadL1Size : UInt32
  scratchpadL2Size : UInt32
  scratchpadL3Size : UInt32
  frequency : InstructionType → Nat
  programSize_le : programSize ≤ programMaxSize
  frequency_sum : (InstructionType.all.map frequency).sum = 256

namespace Config

/-- `AddressMask_Calculated`, as `Apply` fills it. -/
def addressMask (config : Config) (modMem : Fin 4) : UInt32 :=
  if modMem = 0 then (config.scratchpadL2Size / 8 - 1) * 8 else (config.scratchpadL1Size / 8 - 1) * 8

def scratchpadL3Mask (config : Config) : UInt32 := (config.scratchpadL3Size / 8 - 1) * 8

def baseFrequency : InstructionType → Nat
  | .iaddRs => 16 | .iaddM => 7 | .isubR => 16 | .isubM => 7 | .imulR => 16 | .imulM => 4
  | .imulhR => 4 | .imulhM => 1 | .ismulhR => 4 | .ismulhM => 1 | .imulRcp => 8 | .inegR => 2
  | .ixorR => 15 | .ixorM => 5 | .irorR => 8 | .irolR => 2 | .iswapR => 4
  | .fswapR => 4 | .faddR => 16 | .faddM => 5 | .fsubR => 16 | .fsubM => 5 | .fscalR => 6
  | .fmulR => 32 | .fdivM => 4 | .fsqrtR => 6
  | .cbranch => 25 | .cfround => 1 | .istore => 16 | .nop => 0

/-- `RandomX_ConfigurationMonero`; Safex and Yada differ in Argon2 parameters only. -/
def monero : Config where
  programSize := 256
  scratchpadL1Size := 16384
  scratchpadL2Size := 262144
  scratchpadL3Size := 2097152
  frequency := baseFrequency
  programSize_le := by decide
  frequency_sum := by decide

def wownero : Config where
  programSize := 256
  scratchpadL1Size := 16384
  scratchpadL2Size := 131072
  scratchpadL3Size := 1048576
  frequency
    | .iaddRs => 25 | .irorR => 10 | .irolR => 0 | .fswapR => 8 | .faddR => 20 | .fsubR => 20
    | .fmulR => 20 | .cbranch => 16 | t => baseFrequency t
  programSize_le := by decide
  frequency_sum := by decide

def arqma : Config where
  programSize := 256
  scratchpadL1Size := 16384
  scratchpadL2Size := 131072
  scratchpadL3Size := 262144
  frequency := baseFrequency
  programSize_le := by decide
  frequency_sum := by decide

def graft : Config where
  programSize := 280
  scratchpadL1Size := 16384
  scratchpadL2Size := 262144
  scratchpadL3Size := 2097152
  frequency
    | .irorR => 7 | .irolR => 3 | t => baseFrequency t
  programSize_le := by decide
  frequency_sum := by decide

/-- The handler table: `for (; k < freq_sum; ++k) engine[k] = handler`, one type after another. -/
def engine (config : Config) : List InstructionType :=
  InstructionType.all.flatMap fun t => List.replicate (config.frequency t) t

/-- The chain of comparisons in `compileInstruction`; `none` is its `UNREACHABLE`. -/
def select (frequency : InstructionType → Nat) : List InstructionType → Nat → Option InstructionType
  | [], _ => none
  | t :: rest, opcode =>
    if opcode < frequency t then some t else select frequency rest (opcode - frequency t)

theorem select_eq_table (frequency : InstructionType → Nat) (ts : List InstructionType)
    (opcode : Nat) :
    select frequency ts opcode = (ts.flatMap fun t => List.replicate (frequency t) t)[opcode]? := by
  induction ts generalizing opcode with
  | nil => rfl
  | cons t rest ih =>
    rw [select, List.flatMap_cons, List.getElem?_append, List.length_replicate]
    split
    · rename_i h
      rw [List.getElem?_replicate, if_pos h]
    · exact ih _

theorem length_engine (config : Config) : config.engine.length = 256 := by
  rw [engine, List.length_flatMap, ← config.frequency_sum]
  simp only [List.length_replicate]

/-- The entry of the handler table for an instruction. -/
def instructionType (config : Config) (instr : Instruction) : InstructionType :=
  config.engine.get ⟨instr.opcode.toNat, by
    rw [length_engine]
    exact instr.opcode.toNat_lt⟩

/-- Both engines read the same type off an opcode. -/
theorem select_instructionType (config : Config) (instr : Instruction) :
    select config.frequency InstructionType.all instr.opcode.toNat =
      some (config.instructionType instr) := by
  rw [select_eq_table, instructionType, List.get_eq_getElem]
  exact List.getElem?_eq_getElem _

end Config

/-- The part of a program's buffer that a configuration uses. -/
structure Program (config : Config) where
  instructions : List Instruction
  length_eq : instructions.length = config.programSize

namespace Program

variable {config : Config}

theorem length_le (program : Program config) : program.instructions.length ≤ programMaxSize :=
  program.length_eq ▸ config.programSize_le

end Program

end VeloxHash.Randomx
