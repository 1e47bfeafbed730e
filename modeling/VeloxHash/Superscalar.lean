import VeloxHash.BytecodeExecution

/-! Superscalar programs and their interpreter. -/

namespace VeloxHash.Superscalar

open Randomx BytecodeMachine

inductive SuperscalarInstructionType
  | isubR | ixorR | iaddRs | imulR | irorC | iaddC7 | ixorC7 | iaddC8 | ixorC8 | iaddC9 | ixorC9
  | imulhR | ismulhR | imulRcp
  deriving DecidableEq, Repr

namespace SuperscalarInstructionType

/-- The types in the order of their numbers. -/
def all : List SuperscalarInstructionType :=
  [isubR, ixorR, iaddRs, imulR, irorC, iaddC7, ixorC7, iaddC8, ixorC8, iaddC9, ixorC9,
    imulhR, ismulhR, imulRcp]

end SuperscalarInstructionType

/-- `(SuperscalarInstructionType)instr.opcode`; `none` is the `UNREACHABLE` of the switches. -/
def superscalarType (instr : Instruction) : Option SuperscalarInstructionType :=
  SuperscalarInstructionType.all[instr.opcode.toNat]?

/-- What `generateSuperscalar` makes sure of. -/
structure Valid (instr : Instruction) : Prop where
  known : (superscalarType instr).isSome
  iaddRs : superscalarType instr = some .iaddRs → instr.dst ≠ registerNeedsDisplacement
  irorC : superscalarType instr = some .irorC → 1 ≤ instr.imm32.toNat ∧ instr.imm32.toNat ≤ 63
  imulRcp : superscalarType instr = some .imulRcp → isZeroOrPowerOf2 instr.imm32 = false

abbrev Registers := Fin 8 → UInt64

/-- What each case of the switch assigns to `r[instr.dst]`. -/
def superscalarResult (instr : Instruction) (dst src : UInt64) :
    SuperscalarInstructionType → UInt64
  | .isubR => dst - src
  | .ixorR => dst ^^^ src
  | .iaddRs => dst + src <<< .ofNat instr.getModShift
  | .imulR => dst * src
  | .irorC => rotr64 dst instr.imm32.toNat
  | .iaddC7 | .iaddC8 | .iaddC9 => dst + signExtend2sCompl instr.imm32
  | .ixorC7 | .ixorC8 | .ixorC9 => dst ^^^ signExtend2sCompl instr.imm32
  | .imulhR => mulh dst src
  | .ismulhR => smulh dst src
  | .imulRcp => dst * randomxReciprocal instr.imm32

def executeInstruction (r : Registers) (instr : Instruction) : Registers :=
  match superscalarType instr with
  | some type =>
    Function.update r instr.dst (superscalarResult instr (r instr.dst) (r instr.src) type)
  | none => r

def executeSuperscalar (r : Registers) (prog : List Instruction) : Registers :=
  prog.foldl executeInstruction r

theorem executeInstruction_eq {instr : Instruction} {type : SuperscalarInstructionType}
    (h : superscalarType instr = some type) (r : Registers) :
    executeInstruction r instr =
      Function.update r instr.dst (superscalarResult instr (r instr.dst) (r instr.src) type) := by
  rw [executeInstruction, h]

end VeloxHash.Superscalar
