import VeloxHash.LiteralPool
import VeloxHash.RiscVSuperscalar
import VeloxHash.Rv64Immediate

/-! The scalar code of the superscalar hash on RV64. Each reciprocal is loaded one
multiplication ahead, from a pool that is filled downwards. -/

namespace VeloxHash.JitCompilerRv64

open CodeBuffer EncodedMachine RiscVMachine RiscVSuperscalar BytecodeMachine LiteralPool Randomx
  Superscalar
open SuperscalarGenerator (SuperscalarProgram)

section Layout

def alignSize (pos align : Nat) : Nat := ((pos - 1) / align + 1) * align

def cacheMaxAccesses : Nat := 16
def programMaxSize : Nat := 280
def maxRandomXInstrCodeSize : Nat := 56
def codeAlign : Nat := 4096
def literalPoolSize : Nat := codeAlign
def superscalarLiteraPoolSize : Nat := cacheMaxAccesses * codeAlign
def reserveCodeSize : Nat := codeAlign
def literalPoolOffset : Nat := literalPoolSize / 2

def randomXCodeSize : Nat :=
  alignSize (literalPoolSize + reserveCodeSize + maxRandomXInstrCodeSize * programMaxSize) codeAlign

def superScalarLiteralPoolRefOffset : Nat :=
  randomXCodeSize + (cacheMaxAccesses - 1) * literalPoolSize + literalPoolOffset

def superScalarHashOffset : Nat := randomXCodeSize + superscalarLiteraPoolSize

def superscalarReg : Nat := 7
def sshTmp1Reg : Nat := 28
def sshTmp2Reg : Nat := 29
def sshPoolReg : Nat := 30
def sshRcpReg : Nat := 31

def regSS (r : Nat) : Nat := r + 8

end Layout

/-- `CodeBuffer`; `code` is where it lies in memory. -/
structure Buffer where
  code : Nat
  memory : Memory
  codePos : Nat
  rcpCount : Nat

namespace Buffer

variable (b : Buffer)

def emit (bytes : List UInt8) : Buffer :=
  { b with memory := write b.memory (b.code + b.codePos) bytes, codePos := b.codePos + bytes.length }

def emitAt (pos : Nat) (bytes : List UInt8) : Buffer :=
  { b with memory := write b.memory (b.code + pos) bytes }

end Buffer

/-- The extensions that the compiler was built for. -/
structure Extensions where
  zba : Bool
  zbb : Bool

/-- The fixed code around the programs. -/
structure Fragments where
  sshInit : List UInt8
  sshLoad : List UInt8
  sshPrefetch : List UInt8
  fixed : 4 ≤ sshPrefetch.length

section Generator

/-- Where the literal of a number lies from the pool's reference point. -/
def literalOffset (n : Nat) : Int := 2040 - n * 8

/-- The offset in the load of a literal, from where the register points by then. -/
def loadOffset (n : Nat) : Int := literalOffset n % 4096

def storeLiteral (b : Buffer) (literal : UInt64) : Buffer :=
  let offset := literalOffset b.rcpCount
  { b.emitAt (superScalarLiteralPoolRefOffset + offset).toNat (le literal.toNat 8) with
    rcpCount := b.rcpCount + 1 }

/-- The load of the next literal; the pool register moves on by 4 KB where its reach ends. -/
def loadLiteral (b : Buffer) : Buffer :=
  let imm := loadOffset b.rcpCount
  let b := b.emit (emit32 (rvi opLd (.ofNat sshRcpReg) (.ofNat sshPoolReg) (.ofInt imm)))
  if imm = 0x800 then
    (b.emit (emit16 (rvcImm opCLui 1 (.ofNat sshTmp2Reg) 31))).emit
      (emit16 (rvc opCAdd (.ofNat sshPoolReg) (.ofNat sshTmp2Reg)))
  else b

def emitRcpLiteral2 (b : Buffer) (literal : UInt64) (lastLiteral : Bool) : Buffer :=
  let b := storeLiteral b literal
  if lastLiteral then b else loadLiteral b

variable (ext : Extensions)

/-- `SHXADD` with its fields. -/
def shxaddWord (rd rs1 rs2 shift : Nat) : UInt32 :=
  opShxadd ||| UInt32.ofNat rs2 <<< 20 ||| UInt32.ofNat rs1 <<< 15 ||| UInt32.ofNat shift <<< 13 |||
    UInt32.ofNat rd <<< 7

/-- A word with three registers, or two and an immediate. -/
def emitRvi (b : Buffer) (op : UInt32) (rd rs1 rs2 : Nat) : Buffer :=
  b.emit (emit32 (rvi op (.ofNat rd) (.ofNat rs1) (.ofNat rs2)))

def generateSuperscalarCode (b : Buffer) (isn : Instruction) (lastLiteral : Bool) : Buffer :=
  let dst := regSS isn.dst
  let src := regSS isn.src
  match superscalarType isn with
  | some .isubR => b.emit (emit16 (rvc opCSub (.ofNat (dst - 8)) (.ofNat (src - 8))))
  | some .ixorR => b.emit (emit16 (rvc opCXor (.ofNat (dst - 8)) (.ofNat (src - 8))))
  | some .iaddRs =>
    let shift := isn.getModShift
    if shift = 0 then b.emit (emit16 (rvc opCAdd (.ofNat dst) (.ofNat src)))
    else if ext.zba then b.emit (emit32 (shxaddWord dst src dst shift))
    else
      (emitRvi b opSlli sshTmp1Reg src shift).emit
        (emit16 (rvc opCAdd (.ofNat dst) (.ofNat sshTmp1Reg)))
  | some .imulR => emitRvi b opMul dst dst src
  | some .irorC =>
    if ext.zbb then emitRvi b opRori dst dst (isn.imm32.toNat % 64)
    else
      let immr := isn.imm32.toNat % 64
      let imml := (64 - immr) % 64
      emitRvi
        ((emitRvi b opSrli sshTmp1Reg dst immr).emit
          (emit16 (rvcImm opCSlli (.ofNat (imml / 32)) (.ofNat dst) (.ofNat (imml % 32)))))
        opOr dst dst sshTmp1Reg
  | some .iaddC7 | some .iaddC8 | some .iaddC9 =>
    b.emit (emitImm32 isn.imm32 dst dst sshTmp1Reg)
  | some .ixorC7 | some .ixorC8 | some .ixorC9 =>
    emitRvi (b.emit (emitImm32 isn.imm32 sshTmp1Reg 0 0)) opXor dst dst sshTmp1Reg
  | some .imulhR => emitRvi b opMulhu dst dst src
  | some .ismulhR => emitRvi b opMulh dst dst src
  | some .imulRcp =>
    emitRcpLiteral2 (emitRvi b opMul dst dst sshRcpReg) (randomxReciprocal isn.imm32) lastLiteral
  | none => b

/-- The loop over a program from its end to the last instruction with a literal. -/
def lastRcp : List Instruction → Option Nat
  | [] => none
  | isn :: rest => ((lastRcp rest).map (· + 1)).or (if isRcp isn then some 0 else none)

/-- The loop over the programs from the last one; the numbers of the program and of its
instruction. -/
def lastLiteral : List SuperscalarProgram → Option (Nat × Nat)
  | [] => none
  | prog :: rest =>
    ((lastLiteral rest).map fun (j, i) => (j + 1, i)).or ((lastRcp prog.instructions).map (0, ·))

variable (last : Option (Nat × Nat))

/-- The loop over the instructions of the program of number `j`, from number `i` on. -/
def generateProgram (j i : Nat) : List Instruction → Buffer → Buffer
  | [], b => b
  | isn :: rest, b =>
    generateProgram j (i + 1) rest (generateSuperscalarCode ext b isn (last = some (j, i)))

variable (fragments : Fragments)

/-- What goes behind a program. -/
def generateLoad (prog : SuperscalarProgram) (more : Bool) (b : Buffer) : Buffer :=
  let b := b.emit fragments.sshLoad
  if more then
    let fixPos := b.codePos
    (b.emit fragments.sshPrefetch).emitAt fixPos
      (emit32 (rvi opAnd (.ofNat superscalarReg) (.ofNat (regSS prog.addrReg))
        (.ofNat superscalarReg)))
  else b

def generatePrograms (j : Nat) : List SuperscalarProgram → Buffer → Buffer
  | [], b => b
  | prog :: rest, b =>
    generatePrograms (j + 1) rest
      (generateLoad fragments prog (!rest.isEmpty) (generateProgram ext last j 0 prog.instructions b))

end Generator

/-- The buffer with the code in front of the first program. -/
def hashStart (fragments : Fragments) (b : Buffer) : Buffer :=
  { b with codePos := superScalarHashOffset, rcpCount := 0 }.emit fragments.sshInit

def generateSuperscalarHash (ext : Extensions) (fragments : Fragments) (programs : List SuperscalarProgram)
    (b : Buffer) : Buffer :=
  (generatePrograms ext (lastLiteral programs) fragments 0 programs (hashStart fragments b)).emit
    (emit16 (rvc 0x8082 0 0))

end VeloxHash.JitCompilerRv64
