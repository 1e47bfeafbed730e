import VeloxHash.CodeBuffer
import VeloxHash.Superscalar

/-! `generateSuperscalarHash` of the A64 compiler: for each program a jump over a pool of literals,
the pool and the instructions, between pieces of assembly that are copied. -/

namespace VeloxHash.JitCompilerA64

open CodeBuffer Randomx BytecodeMachine Superscalar

section Constants

def b : UInt32 := 0x14000000
def eor : UInt32 := 0xCA000000
def add : UInt32 := 0x8B000000
def sub : UInt32 := 0xCB000000
def mul : UInt32 := 0x9B007C00
def umulh : UInt32 := 0x9BC07C00
def smulh : UInt32 := 0x9B407C00
def movz : UInt32 := 0xD2800000
def movn : UInt32 := 0x92800000
def movk : UInt32 := 0xF2800000
def addImmLo : UInt32 := 0x91000000
def addImmHi : UInt32 := 0x91400000
def ldrLiteral : UInt32 := 0x58000000
def rorImm : UInt32 := 0x93C00000
def movReg : UInt32 := 0xAA0003E0

def cacheAccesses : Nat := 8
def superscalarMaxLatency : Nat := 170

end Constants

/-- The code buffer at address `code`, and the members that the emission changes. The buffer is far
smaller than 2^32 bytes, so positions are numbers. -/
structure Emitter where
  code : Nat
  memory : Memory
  codePos : Nat
  num32bitLiterals : Nat

namespace Emitter

variable (e : Emitter)

/-- `memcpy(code + codePos, bytes, n); codePos += n`. -/
def append (bytes : List UInt8) : Emitter :=
  { e with
    memory := write e.memory (e.code + e.codePos) bytes
    codePos := e.codePos + bytes.length }

def emit32 (v : UInt32) : Emitter := e.append (le v.toNat 4)

def emit64 (v : UInt64) : Emitter := e.append (le v.toNat 8)

/-- `emit32` at another position. -/
def patch32 (pos : Nat) (v : UInt32) : Emitter :=
  { e with memory := write e.memory (e.code + pos) (le v.toNat 4) }

end Emitter

section Immediates

variable (imulRcpLiteralsEnd : Nat)

def isNegative (imm : UInt32) : Bool := imm.toBitVec.msb

def emitMovImmediate (dst imm : UInt32) (e : Emitter) : Emitter :=
  if imm < 0x10000 then e.emit32 (movz ||| dst ||| imm <<< 5)
  else if e.num32bitLiterals < 64 then
    let n := UInt32.ofNat e.num32bitLiterals
    let e := if isNegative imm then
        e.emit32 ((0x4E042C00 : UInt32) ||| dst ||| (n / 4) <<< 5 ||| (n % 4) <<< 19)
      else e.emit32 ((0x0E043C00 : UInt32) ||| dst ||| (n / 4) <<< 5 ||| (n % 4) <<< 19)
    let e := e.patch32 (imulRcpLiteralsEnd + 4 * e.num32bitLiterals) imm
    { e with num32bitLiterals := e.num32bitLiterals + 1 }
  else
    let e := if isNegative imm then e.emit32 (movn ||| dst ||| (0x200000 : UInt32) ||| (~~~imm >>> 16) <<< 5)
      else e.emit32 (movz ||| dst ||| (0x200000 : UInt32) ||| (imm >>> 16) <<< 5)
    e.emit32 (movk ||| dst ||| (imm &&& 0xFFFF) <<< 5)

def emitAddImmediate (dst src imm : UInt32) (e : Emitter) : Emitter :=
  if imm < 0x1000000 then
    let immLo := imm &&& 0xFFF
    let immHi := imm >>> 12
    if immLo ≠ 0 ∧ immHi ≠ 0 then
      (e.emit32 (addImmLo ||| dst ||| src <<< 5 ||| immLo <<< 10)).emit32
        (addImmHi ||| dst ||| dst <<< 5 ||| immHi <<< 10)
    else if immLo ≠ 0 then e.emit32 (addImmLo ||| dst ||| src <<< 5 ||| immLo <<< 10)
    else e.emit32 (addImmHi ||| dst ||| src <<< 5 ||| immHi <<< 10)
  else
    (emitMovImmediate imulRcpLiteralsEnd 20 imm e).emit32 (add ||| dst ||| src <<< 5 ||| 0x140000)

end Immediates

section Programs

def tmpReg : UInt32 := 12

/-- `SuperscalarProgram` as far as the compiler reads it. -/
structure Program where
  instructions : List Instruction
  addressRegister : Fin 8

/-- The pieces of the assembly. The first instruction of `prefetch` is replaced. -/
structure Assembly where
  calcDatasetItem : List UInt8
  prefetch : List UInt8
  replaced : 4 ≤ prefetch.length
  mix : List UInt8
  storeResult : List UInt8

def isRcp (instr : Instruction) : Bool := superscalarType instr == some .imulRcp

variable (imulRcpLiteralsEnd : Nat)

/-- One turn of the second loop, with `literal_pos`. -/
def emitInstruction (instr : Instruction) : Nat × Emitter → Nat × Emitter
  | (literalPos, e) =>
    let src := UInt32.ofNat instr.src
    let dst := UInt32.ofNat instr.dst
    match superscalarType instr with
    | some .isubR => (literalPos, e.emit32 (sub ||| dst ||| dst <<< 5 ||| src <<< 16))
    | some .ixorR => (literalPos, e.emit32 (eor ||| dst ||| dst <<< 5 ||| src <<< 16))
    | some .iaddRs =>
      (literalPos, e.emit32 (add ||| dst ||| dst <<< 5 ||| UInt32.ofNat instr.getModShift <<< 10 |||
        src <<< 16))
    | some .imulR => (literalPos, e.emit32 (mul ||| dst ||| dst <<< 5 ||| src <<< 16))
    | some .irorC =>
      (literalPos, e.emit32 (rorImm ||| dst ||| dst <<< 5 ||| (instr.imm32 &&& 63) <<< 10 |||
        dst <<< 16))
    | some .iaddC7 | some .iaddC8 | some .iaddC9 =>
      (literalPos, emitAddImmediate imulRcpLiteralsEnd dst dst instr.imm32 e)
    | some .ixorC7 | some .ixorC8 | some .ixorC9 =>
      (literalPos, (emitMovImmediate imulRcpLiteralsEnd tmpReg instr.imm32 e).emit32
        (eor ||| dst ||| dst <<< 5 ||| tmpReg <<< 16))
    | some .imulhR => (literalPos, e.emit32 (umulh ||| dst ||| dst <<< 5 ||| src <<< 16))
    | some .ismulhR => (literalPos, e.emit32 (smulh ||| dst ||| dst <<< 5 ||| src <<< 16))
    | some .imulRcp =>
      let offset := (UInt32.ofNat literalPos - UInt32.ofNat e.codePos) / 4 &&& 0x7FFFF
      (literalPos + 8, (e.emit32 (ldrLiteral ||| tmpReg ||| offset <<< 5)).emit32
        (mul ||| dst ||| dst <<< 5 ||| tmpReg <<< 16))
    | none => (literalPos, e)

def emitLiteral (e : Emitter) (instr : Instruction) : Emitter :=
  if isRcp instr then e.emit64 (randomxReciprocal instr.imm32) else e

/-- The literals, the jump over them, and the instructions. -/
def emitProgram (prog : List Instruction) (e : Emitter) : Emitter :=
  let jmpPos := e.codePos
  let e := { e with codePos := e.codePos + 4 }
  let e := prog.foldl emitLiteral e
  let e := e.patch32 jmpPos (b ||| UInt32.ofNat ((e.codePos - jmpPos) / 4))
  (prog.foldl (fun s instr => emitInstruction imulRcpLiteralsEnd instr s) (jmpPos + 4, e)).2

variable (asm : Assembly) (log2CacheSize : UInt32)

def emitPrefetch (e : Emitter) : Emitter :=
  let e := e.emit32 ((0x92400000 : UInt32) ||| (11 : UInt32) ||| (0x140 : UInt32) |||
    (log2CacheSize - 1) <<< 10)
  e.append (asm.prefetch.drop 4)

/-- One turn of the outer loop. -/
def emitCacheAccess (e : Emitter) (prog : Program) : Emitter :=
  let e := emitPrefetch asm log2CacheSize e
  let e := emitProgram imulRcpLiteralsEnd prog.instructions e
  let e := e.append asm.mix
  e.emit32 (movReg ||| (10 : UInt32) ||| UInt32.ofNat prog.addressRegister <<< 16)

/-- What stands in front of the outer loop. -/
def emitItem (codeSize : Nat) (e : Emitter) : Emitter :=
  let e := { e with codePos := codeSize }
  let e := e.append asm.calcDatasetItem
  { e with num32bitLiterals := 64 }

def generateSuperscalarHash (codeSize : Nat) (programs : List Program) (e : Emitter) : Emitter :=
  let e := emitItem asm codeSize e
  let e := (programs.take cacheAccesses).foldl
    (emitCacheAccess imulRcpLiteralsEnd asm log2CacheSize) e
  e.append asm.storeResult

def calcDatasetItemSize : Nat :=
  asm.calcDatasetItem.length +
  cacheAccesses * (asm.prefetch.length + 4 + (superscalarMaxLatency * 3 + 2) * 16 +
    asm.mix.length + 4) +
  asm.storeResult.length

end Programs

end VeloxHash.JitCompilerA64
