import Mathlib.Data.List.Basic
import Mathlib.Logic.Function.Basic

/-! The random math of CryptoNight-R: its instructions and their interpreter, on four variable
and five constant registers of 32 bits. -/

namespace VeloxHash.V4RandomMath

def totalLatency : Nat := 15 * 3

def numInstructionsMin : Nat := 60

/-- The final `RET` does not count. -/
def numInstructionsMax : Nat := 70

def aluCountMul : Nat := 1

def aluCount : Nat := 3

inductive Opcode where
  | mul | add | sub | ror | rol | xor | ret
  deriving DecidableEq, Repr

namespace Opcode

def toNat : Opcode → Nat
  | mul => 0
  | add => 1
  | sub => 2
  | ror => 3
  | rol => 4
  | xor => 5
  | ret => 6

def IsRotation (o : Opcode) : Prop := o = ror ∨ o = rol

instance : DecidablePred IsRotation := fun _ => inferInstanceAs (Decidable (_ ∨ _))

/-- The operations whose two operands are never one register. -/
def IsLinear (o : Opcode) : Prop := o = add ∨ o = sub ∨ o = xor

instance : DecidablePred IsLinear := fun _ => inferInstanceAs (Decidable (_ ∨ _))

end Opcode

def v4OpcodeBits : Nat := 3

def v4DstIndexBits : Nat := 2

def v4SrcIndexBits : Nat := 3

structure V4Instruction where
  opcode : Opcode
  dstIndex : Nat
  srcIndex : Nat
  c : UInt32
  deriving DecidableEq, Repr

namespace V4Instruction

/-- What an instruction of a program may be. The constant register 8 stands for the operand of an
operation that would take its own target. -/
structure Valid (i : V4Instruction) : Prop where
  opcode : i.opcode ≠ .ret
  dst : i.dstIndex < 4
  src : i.srcIndex ≤ 8
  distinct : i.opcode.IsLinear → i.srcIndex ≠ i.dstIndex
  constant : ¬i.opcode.IsLinear → i.srcIndex < 8

end V4Instruction

section Interpreter

abbrev Registers := Nat → UInt32

def rotateRight (x : UInt32) (shift : UInt32) : UInt32 :=
  x >>> shift ||| x <<< ((32 - shift) % 32)

def rotateLeft (x : UInt32) (shift : UInt32) : UInt32 :=
  x <<< shift ||| x >>> ((32 - shift) % 32)

/-- One case of the interpreter's switch but `RET`. -/
def v4Exec (op : V4Instruction) (r : Registers) : Registers :=
  let src := r op.srcIndex
  let dst := r op.dstIndex
  match op.opcode with
  | .mul => Function.update r op.dstIndex (dst * src)
  | .add => Function.update r op.dstIndex (dst + (src + op.c))
  | .sub => Function.update r op.dstIndex (dst - src)
  | .ror => Function.update r op.dstIndex (rotateRight dst (src % 32))
  | .rol => Function.update r op.dstIndex (rotateLeft dst (src % 32))
  | .xor => Function.update r op.dstIndex (dst ^^^ src)
  | .ret => r

/-- The unrolled interpreter: so many instructions at most, up to the first `RET`. -/
def v4RandomMath (code : List V4Instruction) (r : Registers) : Registers :=
  ((code.take 70).takeWhile (·.opcode ≠ .ret)).foldl (fun r op => v4Exec op r) r

end Interpreter

end VeloxHash.V4RandomMath
