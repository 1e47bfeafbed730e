import VeloxHash.CodeBuffer
import VeloxHash.RandomxProgram

/-! The x86 program compiler. A handler is the list of its stores, in the order and with
the cursor moves of the source, together with what it notes in the compiler's state. -/

namespace VeloxHash.JitCompilerX86

open Randomx CodeBuffer CodeBuffer.Store

/-- What the processor offers, the VM flags, and the places the assembler gave to the
fixed part of the code. `imulRcpStorage` is the first of 16 immediates, 11 bytes apart. -/
structure Host where
  hasBMI2 : Bool
  hasXOP : Bool
  jccErratum : Bool
  amd : Bool
  codePosFirst : Nat
  imulRcpStorage : Nat
  storage_below : imulRcpStorage + 16 * 11 ≤ codePosFirst

structure Jit where
  code : Memory
  codePos : Nat
  registerUsage : Fin 8 → Int
  prevCFROUND : Int
  prevFPOperation : Int
  imulRcpStorage : Nat
  imulRcpStorageUsed : Nat

namespace Jit

def put (s : Jit) (stores : List Store) : Jit :=
  { s with code := emit s.code s.codePos stores, codePos := s.codePos + size stores }

/-- `registerUsage[r] = pos`. -/
def use (s : Jit) (r : Fin 8) : Jit :=
  { s with registerUsage := Function.update s.registerUsage r s.codePos }

/-- "mark all registers as used". -/
def useAll (s : Jit) : Jit := { s with registerUsage := fun _ => s.codePos }

/-- `memcpy(p + t, nops, n)`. -/
def patch (s : Jit) (t : Int) (nops : List UInt8) : Jit :=
  { s with code := write s.code t.toNat nops }

end Jit

def reg32 (r : Fin 8) : UInt32 := .ofNat r
def reg64 (r : Fin 8) : UInt64 := .ofNat r

def shl32 (x n : UInt32) : UInt32 := x <<< n
def shl64 (x n : UInt64) : UInt64 := x <<< n

def putByte (b : UInt8) : Store := put [b]

section Operands

variable (config : Config) (instr : Instruction)

/-- `add_table >> (src * 4) & 0xf`: the length of `lea` with or without a SIB byte. -/
def addTable (src : Fin 8) : Fin 5 :=
  let table := 0x33333333 + shl32 1 (reg32 registerNeedsSib * 4)
  .ofNat 5 ((table >>> (reg32 src * 4)) &&& 0xf).toNat

def genAddressReg (rax : Bool) (src : Fin 8) : List Store :=
  [put32 ((if rax then 0x24808d41 else 0x24888d41) + shl32 (reg32 src) 16) (addTable src),
    put32 instr.imm32 4,
    if rax then putByte 0x25 else put32 0xe181 2,
    put32 (config.addressMask instr.getModMem) 4]

def genAddressRegDst : List Store :=
  [put32 (0x24808d41 + shl32 (reg32 instr.dst) 16) (if instr.dst = registerNeedsSib then 4 else 3),
    put32 instr.imm32 4,
    putByte 0x25,
    put32 (if instr.mod.toNat < storeL3Condition * 16 then config.addressMask instr.getModMem
      else config.scratchpadL3Mask) 4]

def genAddressImm : List Store := [put32 (instr.imm32 &&& config.scratchpadL3Mask) 4]

end Operands

/-- The integer handlers: emit, then note the end of the code as the last use of `dst`. -/
def integerHandler (dst : Fin 8) (stores : List Store) (s : Jit) : Jit := (s.put stores).use dst

/-- The handlers of the instructions that read the rounding mode. -/
def roundingHandler (stores : List Store) (s : Jit) : Jit :=
  { s with prevFPOperation := s.codePos }.put stores

/-- `randomx_reciprocal_fast`: `div` of `2^bsr : 0` by the divisor. -/
def randomxReciprocalFast (divisor : UInt32) : UInt64 :=
  .ofNat (2 ^ (64 + Nat.log2 divisor.toNat) / divisor.toNat)

section Handlers

variable (host : Host) (config : Config) (instr : Instruction)

def hIaddRs : Jit → Jit :=
  let dst := reg32 instr.dst
  let sib := shl32 (.ofNat instr.getModShift) 6 ||| shl32 (reg32 instr.src) 3 ||| dst
  let k := if instr.dst = registerNeedsDisplacement then 0xac8d4f else 0x048d4f + shl32 dst 19
  integerHandler instr.dst
    [put32 (k ||| shl32 sib 24) 4,
      put32 instr.imm32 (if instr.dst = registerNeedsDisplacement then 4 else 0)]

/-- The handlers whose opcode takes a register or a scratchpad operand through `rax`. -/
def memoryHandler (viaRegister viaImm : UInt32) : Jit → Jit :=
  let dst := reg32 instr.dst
  integerHandler instr.dst <|
    if instr.src ≠ instr.dst then
      genAddressReg config instr true instr.src ++ [put32 (viaRegister + shl32 dst 19) 4]
    else
      put32 (viaImm + shl32 dst 19) 3 :: genAddressImm config instr

def hIaddM : Jit → Jit := memoryHandler config instr 0x0604034c 0x86034c

def hIsubR : Jit → Jit :=
  let dst := reg32 instr.dst
  integerHandler instr.dst <|
    if instr.src ≠ instr.dst then
      [put32 (0xc02b4d + shl32 dst 19 + shl32 (reg32 instr.src) 16) 3]
    else
      [put32 (0xe88149 + shl32 dst 16) 3, put32 instr.imm32 4]

def hIsubM : Jit → Jit := memoryHandler config instr 0x06042b4c 0x862b4c

def hImulR : Jit → Jit :=
  let dst := reg32 instr.dst
  integerHandler instr.dst <|
    if instr.src ≠ instr.dst then
      [put32 (0xc0af0f4d + shl32 (dst * 8 + reg32 instr.src) 24) 4]
    else
      [put32 (0xc0694d + shl32 (shl32 dst 3 + dst) 16) 3, put32 instr.imm32 4]

def hImulM : Jit → Jit :=
  integerHandler instr.dst <|
    if instr.src ≠ instr.dst then
      genAddressReg config instr true instr.src ++
        [put64 (0x0604af0f4c + shl64 (reg64 instr.dst) 27) 5]
    else
      put32 (0x86af0f4c + shl32 (reg32 instr.dst) 27) 4 :: genAddressImm config instr

def hImulhR : Jit → Jit :=
  let dst := reg32 instr.dst
  integerHandler instr.dst
    [put32 (0xc08b49 + shl32 dst 16) 3, put32 (0xe0f749 + shl32 (reg32 instr.src) 16) 3,
      put32 (0xc28b4c + shl32 dst 19) 3]

def hImulhRBmi2 : Jit → Jit :=
  let dst := reg32 instr.dst
  integerHandler instr.dst
    [put32 (0xC4D08B49 + shl32 dst 16) 4,
      put32 (0xC0F6FB42 + shl32 dst 27 + shl32 (reg32 instr.src) 24) 4]

/-- `h_IMULH_M` and `h_ISMULH_M`, which differ in the multiplication they encode. -/
def highMemoryHandler (viaRegister viaImm : UInt64) : Jit → Jit :=
  let dst := reg64 instr.dst
  integerHandler instr.dst <|
    (if instr.src ≠ instr.dst then
      genAddressReg config instr false instr.src ++ [put64 (viaRegister + shl64 dst 16) 7]
    else
      put64 (viaImm + shl64 dst 16) 6 :: genAddressImm config instr) ++
    [put32 (0xc28b4c + shl32 (reg32 instr.dst) 19) 3]

def hImulhM : Jit → Jit := highMemoryHandler config instr 0x0e24f748c08b49 0xa6f748c08b49

def hImulhMBmi2 : Jit → Jit :=
  let dst := reg64 instr.dst
  integerHandler instr.dst <|
    if instr.src ≠ instr.dst then
      genAddressReg config instr false instr.src ++
        [put32 (0xC4D08B49 + shl32 (reg32 instr.dst) 16) 4, put64 (0x0E04F6FB62 + shl64 dst 27) 5]
    else
      [put64 (0x86F6FB62C4D08B49 + shl64 dst 16 + shl64 dst 59) 8,
        put32 (instr.imm32 &&& config.scratchpadL3Mask) 4]

def hIsmulhR : Jit → Jit :=
  integerHandler instr.dst
    [put64 (0x8b4ce8f749c08b49 + shl64 (reg64 instr.dst) 16 + shl64 (reg64 instr.src) 40) 8,
      putByte (0xc2 + 8 * .ofNat instr.dst)]

def hIsmulhM : Jit → Jit := highMemoryHandler config instr 0x0e2cf748c08b49 0xaef748c08b49

/-- The immediate of the first 16 reciprocals goes to the prologue's table. -/
def hImulRcp (s : Jit) : Jit :=
  if isZeroOrPowerOf2 instr.imm32 then
    s
  else
    let reciprocal := randomxReciprocalFast instr.imm32
    if s.imulRcpStorageUsed < 16 then
      integerHandler instr.dst
        [put64 (0x2444AF0F4C + shl64 (reg64 instr.dst) 27 +
          shl64 (248 - .ofNat s.imulRcpStorageUsed * 8) 40) 6]
        { s with
          code := write s.code s.imulRcpStorage (le reciprocal.toNat 8)
          imulRcpStorage := s.imulRcpStorage + 11
          imulRcpStorageUsed := s.imulRcpStorageUsed + 1 }
    else
      integerHandler instr.dst
        [put32 0xb848 2, put64 reciprocal 8, put32 (0xc0af0f4c + shl32 (reg32 instr.dst) 27) 4] s

def hInegR : Jit → Jit :=
  integerHandler instr.dst [put32 (0xd8f749 + shl32 (reg32 instr.dst) 16) 3]

def hIxorR : Jit → Jit :=
  integerHandler instr.dst <|
    if instr.src ≠ instr.dst then
      [put32 (0xc0334d + shl32 (shl32 (reg32 instr.dst) 3 + reg32 instr.src) 16) 3]
    else
      [put64 (shl64 instr.imm32.toUInt64 24 + 0xf08149 + shl64 (reg64 instr.dst) 16) 7]

def hIxorM : Jit → Jit := memoryHandler config instr 0x0604334c 0x86334c

/-- `h_IROR_R` and `h_IROL_R`. -/
def rotateHandler (viaRegister : UInt64) (viaImm : UInt32) : Jit → Jit :=
  integerHandler instr.dst <|
    if instr.src ≠ instr.dst then
      [put64 (viaRegister + shl64 (reg64 instr.src) 16 + shl64 (reg64 instr.dst) 40) 6]
    else
      [put32 (viaImm + shl32 (reg32 instr.dst) 16) 3, putByte (instr.imm32 &&& 63).toUInt8]

def hIrorR : Jit → Jit := rotateHandler instr 0xc8d349c88b41 0xc8c149

def hIrolR : Jit → Jit := rotateHandler instr 0xc0d349c88b41 0xc0c149

def hIswapR (s : Jit) : Jit :=
  if instr.src ≠ instr.dst then
    integerHandler instr.dst
      [put32 (0xc0874d + shl32 (shl32 (reg32 instr.dst) 3 + reg32 instr.src) 16) 3] s
      |>.use instr.src
  else
    s

def hFswapR (s : Jit) : Jit :=
  s.put [put64 (0x01c0c60f66 + shl64 (shl64 (reg64 instr.dst) 3 + reg64 instr.dst) 24) 5]

/-- `r % RegisterCountFlt` in the code of a floating-point instruction. -/
def float64 (r : Fin 8) : UInt64 := .ofNat (r.val % 4)
def float32 (r : Fin 8) : UInt32 := .ofNat (r.val % 4)

def hFaddR : Jit → Jit :=
  roundingHandler
    [put64 (0xc0580f4166 + shl64 (shl64 (float64 instr.dst) 3 + float64 instr.src) 32) 5]

def hFaddM : Jit → Jit :=
  roundingHandler <| genAddressReg config instr true instr.src ++
    [put64 0x41660624e60f44f3 8, put32 (0xc4580f + shl32 (float32 instr.dst) 19) 3]

def hFsubR : Jit → Jit :=
  roundingHandler
    [put64 (0xc05c0f4166 + shl64 (shl64 (float64 instr.dst) 3 + float64 instr.src) 32) 5]

def hFsubM : Jit → Jit :=
  roundingHandler <| genAddressReg config instr true instr.src ++
    [put64 0x41660624e60f44f3 8, put32 (0xc45c0f + shl32 (float32 instr.dst) 19) 3]

def hFscalR (s : Jit) : Jit := s.put [put32 (0xc7570f41 + shl32 (float32 instr.dst) 27) 4]

def hFmulR : Jit → Jit :=
  roundingHandler
    [put64 (0xe0590f4166 + shl64 (shl64 (float64 instr.dst) 3 + float64 instr.src) 32) 5]

def hFdivM : Jit → Jit :=
  roundingHandler <| genAddressReg config instr true instr.src ++
    [put64 0x0624e60f44f3 6,
      if host.hasXOP then put64 0xd0e6a218488f 6 else put64 0xe6560f45e5540f45 8,
      put64 (0xe45e0f4166 + shl64 (float64 instr.dst) 35) 5]

def hFsqrtR : Jit → Jit :=
  roundingHandler
    [put32 (0xe4510f66 + shl32 (shl32 (float32 instr.dst) 3 + float32 instr.dst) 24) 4]

def nop13 : List UInt8 :=
  [0x0F, 0x1F, 0x84, 0x00, 0x00, 0x00, 0x00, 0x00, 0x0F, 0x1F, 0x44, 0x00, 0x00]
def nop14 : List UInt8 :=
  [0x0F, 0x1F, 0x80, 0x00, 0x00, 0x00, 0x00, 0x0F, 0x1F, 0x80, 0x00, 0x00, 0x00, 0x00]
def nop25 : List UInt8 :=
  [0x66, 0x0F, 0x1F, 0x84, 0x00, 0x00, 0x00, 0x00, 0x00, 0x0F, 0x1F, 0x84, 0x00, 0x00, 0x00, 0x00,
    0x00, 0x0F, 0x1F, 0x84, 0x00, 0x00, 0x00, 0x00, 0x00]
def nop26 : List UInt8 :=
  [0x66, 0x0F, 0x1F, 0x84, 0x00, 0x00, 0x00, 0x00, 0x00, 0x66, 0x0F, 0x1F, 0x84, 0x00, 0x00, 0x00,
    0x00, 0x00, 0x0F, 0x1F, 0x84, 0x00, 0x00, 0x00, 0x00, 0x00]

/-- `((imm32 & 63) - 2) & 63`: the two mode bits end up at bits 2 and 3. -/
def roundRotate : UInt32 := ((instr.imm32 &&& 63) - 2) &&& 63

/-- The two forms of `h_CFROUND`: drop the previous one when nothing has rounded since,
then emit this one. -/
def roundHandler (nops : List UInt8) (stores : List Store) (s : Jit) : Jit :=
  let s := if s.prevCFROUND > s.prevFPOperation then s.patch s.prevCFROUND nops else s
  { s with prevCFROUND := s.codePos }.put stores

/-- `and eax, 12` and the load of the control word, on AMD behind a test of the last mode. -/
def roundTail : List Store :=
  if host.amd then
    [put64 0x742024443B0CE083 8, put64 0x8900EB0414AE0F0A 8, put32 0x202444 3]
  else
    [put64 0x0414AE0F0CE083 7]

def roundStores : List Store :=
  [put32 (0x00C08B49 + shl32 (reg32 instr.src) 16) 3,
    put32 (0x00C8C148 + shl32 (roundRotate instr) 24) 4] ++ roundTail host

def roundStoresBmi2 : List Store :=
  put64 (0xC0F0FBC3C4 ||| shl64 (reg64 instr.src) 32 ||| shl64 (roundRotate instr).toUInt64 40) 6 ::
    roundTail host

def hCfround : Jit → Jit :=
  roundHandler (if host.amd then nop26 else nop14) (roundStores host instr)

def hCfroundBmi2 : Jit → Jit :=
  roundHandler (if host.amd then nop25 else nop13) (roundStoresBmi2 host instr)

/-- `JMP_ALIGN_PREFIX`: no-ops and then at most eight segment prefixes. -/
def jmpAlignPrefix : List (List UInt8) :=
  [[],
    [0x2E],
    [0x2E, 0x2E],
    [0x2E, 0x2E, 0x2E],
    [0x2E, 0x2E, 0x2E, 0x2E],
    [0x2E, 0x2E, 0x2E, 0x2E, 0x2E],
    [0x2E, 0x2E, 0x2E, 0x2E, 0x2E, 0x2E],
    [0x2E, 0x2E, 0x2E, 0x2E, 0x2E, 0x2E, 0x2E],
    [0x2E, 0x2E, 0x2E, 0x2E, 0x2E, 0x2E, 0x2E, 0x2E],
    [0x90, 0x2E, 0x2E, 0x2E, 0x2E, 0x2E, 0x2E, 0x2E, 0x2E],
    [0x66, 0x90, 0x2E, 0x2E, 0x2E, 0x2E, 0x2E, 0x2E, 0x2E, 0x2E],
    [0x66, 0x66, 0x90, 0x2E, 0x2E, 0x2E, 0x2E, 0x2E, 0x2E, 0x2E, 0x2E],
    [0x0F, 0x1F, 0x40, 0x00, 0x2E, 0x2E, 0x2E, 0x2E, 0x2E, 0x2E, 0x2E, 0x2E],
    [0x0F, 0x1F, 0x44, 0x00, 0x00, 0x2E, 0x2E, 0x2E, 0x2E, 0x2E, 0x2E, 0x2E, 0x2E]]

/-- `alignment_size`, or zero when the fused branch stays within 32 bytes. -/
def alignmentSize (pos : Nat) (jmpOffset : Int) : Nat :=
  let branchBegin := pos + 7
  let branchEnd := branchBegin + if jmpOffset ≥ -128 then 9 else 13
  if branchBegin ^^^ branchEnd ≥ 32 then 32 - branchBegin % 32 else 0

def rotl32 (a shift : UInt32) : UInt32 := shl32 a shift ||| (a >>> (-shift &&& 31))

/-- The immediate added to the branch register. -/
def branchAddend : UInt32 :=
  let shift := UInt32.ofNat instr.getModCond
  let orMask := shl32 (shl32 1 (.ofNat jumpOffset)) shift
  let andMask := rotl32 (~~~shl32 1 (.ofNat (jumpOffset - 1))) shift
  (instr.imm32 ||| orMask) &&& andMask

def jumpStore (jmpOffset : Int) : Store :=
  if jmpOffset ≥ -128 then
    put32 (0x74 + shl32 (.ofInt jmpOffset) 8) 2
  else
    put64 (0x840f + shl64 (.ofInt (jmpOffset - 4)) 16) 6

def branchStores (alignment : Nat) (jmpOffset : Int) : List Store :=
  [put (jmpAlignPrefix.getD alignment []),
    put32 (0x00c08149 + shl32 (reg32 instr.dst) 16) 3,
    put32 (branchAddend instr) 4,
    put32 (0x00c0f749 + shl32 (reg32 instr.dst) 16) 3,
    put32 (shl32 conditionMask (.ofNat instr.getModCond)) 4,
    jumpStore jmpOffset]

/-- `h_CBRANCH<jccErratum>`. -/
def hCbranch (s : Jit) : Jit :=
  let target := s.registerUsage instr.dst
  let jmpOffset := target - (s.codePos + 16)
  let alignment := if host.jccErratum then alignmentSize s.codePos jmpOffset else 0
  { s with prevFPOperation := if target ≤ s.prevFPOperation then s.codePos else s.prevFPOperation }
    |>.put (branchStores instr alignment (jmpOffset - alignment))
    |>.useAll

def hIstore (s : Jit) : Jit :=
  s.put (genAddressRegDst config instr ++ [put32 (0x0604894c + shl32 (reg32 instr.src) 19) 4])

def hNop (s : Jit) : Jit := s.put [putByte 0x90]

/-- The handlers as `Apply` enters them into `engine`. -/
def handler : InstructionType → Jit → Jit
  | .iaddRs => hIaddRs instr
  | .iaddM => hIaddM config instr
  | .isubR => hIsubR instr
  | .isubM => hIsubM config instr
  | .imulR => hImulR instr
  | .imulM => hImulM config instr
  | .imulhR => if host.hasBMI2 then hImulhRBmi2 instr else hImulhR instr
  | .imulhM => if host.hasBMI2 then hImulhMBmi2 config instr else hImulhM config instr
  | .ismulhR => hIsmulhR instr
  | .ismulhM => hIsmulhM config instr
  | .imulRcp => hImulRcp instr
  | .inegR => hInegR instr
  | .ixorR => hIxorR instr
  | .ixorM => hIxorM config instr
  | .irorR => hIrorR instr
  | .irolR => hIrolR instr
  | .iswapR => hIswapR instr
  | .fswapR => hFswapR instr
  | .faddR => hFaddR instr
  | .faddM => hFaddM config instr
  | .fsubR => hFsubR instr
  | .fsubM => hFsubM config instr
  | .fscalR => hFscalR instr
  | .fmulR => hFmulR instr
  | .fdivM => hFdivM host config instr
  | .fsqrtR => hFsqrtR instr
  | .cbranch => hCbranch host instr
  | .cfround => if host.hasBMI2 then hCfroundBmi2 host instr else hCfround host instr
  | .istore => hIstore config instr
  | .nop => hNop

def compile (s : Jit) : Jit := handler host config instr (config.instructionType instr) s

end Handlers

/-- The state in which `generateProgramPrologue` starts on the instructions; `code` is the
buffer with the fixed part already in place. -/
def begin (host : Host) (code : Memory) : Jit where
  code
  codePos := host.codePosFirst
  registerUsage _ := host.codePosFirst
  prevCFROUND := -1
  prevFPOperation := -1
  imulRcpStorage := host.imulRcpStorage
  imulRcpStorageUsed := 0

/-- The loop over the instructions. -/
def compileAll (host : Host) (config : Config) (instrs : List Instruction) (s : Jit) : Jit :=
  instrs.foldl (fun s instr => compile host config instr s) s

/-- `generateProgramPrologue`. -/
def generateProgramPrologue (host : Host) {config : Config} (program : Program config)
    (readReg2 readReg3 : UInt32) (code : Memory) : Jit :=
  (compileAll host config program.instructions (begin host code)).put
    [put64 (0xc03341c08b41 + shl64 readReg2.toUInt64 16 + shl64 readReg3.toUInt64 40) 6]

end VeloxHash.JitCompilerX86
