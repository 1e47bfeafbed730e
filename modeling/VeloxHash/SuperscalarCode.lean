import VeloxHash.JitCompilerX86
import VeloxHash.Superscalar
import VeloxHash.X86Machine

/-! `generateSuperscalarCode`: a template whose bytes are then corrected in place is one
store of the corrected bytes. The second half of the module says which instructions the
bytes are. -/

namespace VeloxHash.SuperscalarCode

open Randomx CodeBuffer CodeBuffer.Store JitCompilerX86 BytecodeMachine Superscalar
  EncodedMachine X86Machine

section Templates

variable (dst src : Fin 8)

def reg8 (r : Fin 8) : UInt8 := .ofNat r.val

/-- `p[i] += x`. -/
def plus (i : Nat) (x : UInt8) (p : List UInt8) : List UInt8 := p.modify i (· + x)

/-- `p[i] -= x`. -/
def minus (i : Nat) (x : UInt8) (p : List UInt8) : List UInt8 := p.modify i (· - x)

/-- The two-operand vector instructions without a temporary. -/
def lanePair (k : UInt32) : Store :=
  put32 (k + shl32 (reg32 src) 24 + shl32 (reg32 dst) 27 - shl32 (reg32 dst) 11) 4

def laneAddShifted (modShift : Nat) : List UInt8 :=
  [0xC5, 0xBD, 0x73, 0xF0, 0x00, 0xC5, 0xBD, 0xD4, 0xC0]
    |> plus 3 (reg8 src) |>.set 4 (.ofNat modShift) |> plus 8 (reg8 dst * 9)

def laneMul : List UInt8 :=
  [0xC5, 0xBD, 0x73, 0xD0, 0x20,
    0xC5, 0xB5, 0x73, 0xD0, 0x20,
    0xC5, 0x7D, 0xF4, 0xD0,
    0xC5, 0x35, 0xF4, 0xD8,
    0xC5, 0xBD, 0xF4, 0xC0,
    0xC4, 0xC1, 0x25, 0x73, 0xF3, 0x20,
    0xC5, 0xFD, 0x73, 0xF0, 0x20,
    0xC4, 0x41, 0x2D, 0xD4, 0xD3,
    0xC5, 0xAD, 0xD4, 0xC0]
    |> plus 3 (reg8 dst) |> plus 8 (reg8 src) |> minus 11 (reg8 dst * 8) |> plus 13 (reg8 src)
    |> plus 17 (reg8 dst) |> plus 21 (reg8 dst * 8 + reg8 src) |> minus 29 (reg8 dst * 8)
    |> plus 31 (reg8 dst) |> plus 41 (reg8 dst * 9)

def laneRotate (shift : UInt32) : List UInt8 :=
  [0xC5, 0xBD, 0x73, 0xD0, 0x00, 0xC5, 0xB5, 0x73, 0xF0, 0x00, 0xC4, 0xC1, 0x3D, 0xEB, 0xC1]
    |> plus 3 (reg8 dst) |>.set 4 shift.toUInt8 |> plus 8 (reg8 dst)
    |>.set 9 (64 - shift).toUInt8 |> plus 14 (reg8 dst * 8)

/-- The addition and the exclusive or of a constant, `gpr` and `lane` being their opcodes. -/
def laneConstant (gpr lane : UInt8) (imm : UInt64) : List UInt8 :=
  [0x48, 0xB8] ++ le imm.toNat 8 ++
    [0x4C, gpr, 0xC0, 0xC4, 0x62, 0x7D, 0x19, 0x05, 0xEC, 0xFF, 0xFF, 0xFF,
      0xC4, 0xC1, 0x7D, lane, 0xC0]
    |> plus 12 (reg8 dst * 8) |> minus 24 (reg8 dst * 8) |> plus 26 (reg8 dst * 8)

def laneHigh : List UInt8 :=
  [0xC5, 0xBD, 0x73, 0xD0, 0x20,
    0xC5, 0xB5, 0x73, 0xD0, 0x20,
    0xC5, 0x7D, 0xF4, 0xD0,
    0xC5, 0x3D, 0xF4, 0xD8,
    0xC4, 0x41, 0x7D, 0xF4, 0xE1,
    0xC4, 0xC1, 0x3D, 0xF4, 0xC1,
    0xC4, 0xC1, 0x2D, 0x73, 0xD2, 0x20,
    0xC4, 0x41, 0x25, 0xEF, 0xC6,
    0xC4, 0x41, 0x25, 0xD4, 0xDC,
    0xC4, 0x41, 0x25, 0xD4, 0xDA,
    0xC4, 0x41, 0x25, 0xEF, 0xCE,
    0xC4, 0x42, 0x3D, 0x37, 0xC1,
    0xC4, 0x41, 0x3D, 0xDB, 0xC7,
    0xC5, 0xBD, 0xD4, 0xC0,
    0xC4, 0xC1, 0x25, 0x73, 0xD3, 0x20,
    0xC5, 0xA5, 0xD4, 0xC0]
    |> plus 3 (reg8 dst) |> plus 8 (reg8 src) |> minus 11 (reg8 dst * 8) |> plus 13 (reg8 src)
    |> plus 17 (reg8 src) |> minus 20 (reg8 dst * 8) |> plus 27 (reg8 dst * 8)
    |> plus 67 (reg8 dst * 9) |> plus 77 (reg8 dst * 9)

def laneHighSigned : List UInt8 :=
  [0xC5, 0xBD, 0x73, 0xD0, 0x20,
    0xC5, 0xB5, 0x73, 0xD0, 0x20,
    0xC5, 0x7D, 0xF4, 0xD0,
    0xC5, 0x3D, 0xF4, 0xD8,
    0xC4, 0x41, 0x7D, 0xF4, 0xE1,
    0xC4, 0x41, 0x3D, 0xF4, 0xE9,
    0xC4, 0xC1, 0x2D, 0x73, 0xD2, 0x20,
    0xC4, 0x41, 0x25, 0xEF, 0xC6,
    0xC4, 0x41, 0x25, 0xD4, 0xDC,
    0xC4, 0x41, 0x25, 0xD4, 0xDA,
    0xC4, 0x41, 0x25, 0xEF, 0xCE,
    0xC4, 0x42, 0x3D, 0x37, 0xC1,
    0xC4, 0x41, 0x3D, 0xDB, 0xC7,
    0xC4, 0x41, 0x15, 0xD4, 0xE8,
    0xC4, 0xC1, 0x25, 0x73, 0xD3, 0x20,
    0xC4, 0x41, 0x15, 0xD4, 0xC3,
    0xC4, 0x41, 0x35, 0xEF, 0xC9,
    0xC4, 0x62, 0x35, 0x37, 0xD0,
    0xC4, 0x62, 0x35, 0x37, 0xD8,
    0xC5, 0x2D, 0xDB, 0xD0,
    0xC5, 0x25, 0xDB, 0xD8,
    0xC4, 0x41, 0x3D, 0xFB, 0xC2,
    0xC4, 0xC1, 0x3D, 0xFB, 0xC3]
    |> plus 3 (reg8 dst) |> plus 8 (reg8 src) |> minus 11 (reg8 dst * 8) |> plus 13 (reg8 src)
    |> plus 17 (reg8 src) |> minus 20 (reg8 dst * 8) |> plus 89 (reg8 dst) |> plus 94 (reg8 src)
    |> plus 98 (reg8 src) |> plus 102 (reg8 dst) |> plus 112 (reg8 dst * 8)

def laneMulConstant : List UInt8 :=
  [0xC4, 0x62, 0x7D, 0x19, 0x25, 0xEB, 0xFF, 0xFF, 0xFF,
    0xC5, 0xBD, 0x73, 0xD0, 0x20,
    0xC4, 0xC1, 0x35, 0x73, 0xD4, 0x20,
    0xC4, 0x41, 0x7D, 0xF4, 0xD4,
    0xC5, 0x35, 0xF4, 0xD8,
    0xC4, 0xC1, 0x3D, 0xF4, 0xC4,
    0xC4, 0xC1, 0x25, 0x73, 0xF3, 0x20,
    0xC5, 0xFD, 0x73, 0xF0, 0x20,
    0xC4, 0x41, 0x2D, 0xD4, 0xD3,
    0xC5, 0xAD, 0xD4, 0xC0]
    |> plus 12 (reg8 dst) |> minus 22 (reg8 dst * 8) |> plus 28 (reg8 dst)
    |> plus 33 (reg8 dst * 8) |> minus 41 (reg8 dst * 8) |> plus 43 (reg8 dst)
    |> plus 53 (reg8 dst * 9)

end Templates

section Generator

variable (avx2 : Bool) (instr : Instruction)

def genSIB (scale index base : UInt32) : UInt32 := shl32 scale 6 ||| shl32 index 3 ||| base

/-- The stores of the AVX2 build only. -/
def whenAvx2 (store : Store) : List Store := if avx2 then [store] else []

/-- `IADD_C` and `IXOR_C`; the scalar part of the AVX2 build takes the constant through `rax`. -/
def constantStores (k : UInt32) (gpr lane : UInt8) : List Store :=
  if avx2 then
    [put (laneConstant instr.dst gpr lane (signExtend2sCompl instr.imm32))]
  else
    [put32 (k + shl32 (reg32 instr.dst) 16) 3, put32 instr.imm32 4]

/-- The high multiplications, which differ in the one they encode. -/
def highStores (k : UInt32) (lanes : List UInt8) : List Store :=
  [put32 (0x00C08B49 + shl32 (reg32 instr.dst) 16) 3,
    put32 (k + shl32 (reg32 instr.src) 16) 3,
    put32 (0x00C28B4C + shl32 (reg32 instr.dst) 19) 3] ++ whenAvx2 avx2 (put lanes)

def stores (type : SuperscalarInstructionType) : List Store :=
  let dst := reg32 instr.dst
  let src := reg32 instr.src
  match type with
  | .isubR =>
    put32 (0x00C02B4D + shl32 dst 19 + shl32 src 16) 3 ::
      whenAvx2 avx2 (lanePair instr.dst instr.src 0xC0FBFDC5)
  | .ixorR =>
    put32 (0x00C0334D + shl32 dst 19 + shl32 src 16) 3 ::
      whenAvx2 avx2 (lanePair instr.dst instr.src 0xC0EFFDC5)
  | .iaddRs =>
    put32 (0x00048D4F + shl32 dst 19 + shl32 (genSIB (.ofNat instr.getModShift) src dst) 24) 4 ::
      whenAvx2 avx2
        (if instr.getModShift ≠ 0 then put (laneAddShifted instr.dst instr.src instr.getModShift)
        else lanePair instr.dst instr.src 0xC0D4FDC5)
  | .imulR =>
    put32 (0xC0AF0F4D + shl32 dst 27 + shl32 src 24) 4 ::
      whenAvx2 avx2 (put (laneMul instr.dst instr.src))
  | .irorC =>
    let shift := instr.imm32 &&& 63
    put32 (0x00C8C149 + shl32 dst 16 + shl32 shift 24) 4 ::
      whenAvx2 avx2 (put (laneRotate instr.dst shift))
  | .iaddC7 | .iaddC8 | .iaddC9 => constantStores avx2 instr 0x00C08149 0x03 0xD4
  | .ixorC7 | .ixorC8 | .ixorC9 => constantStores avx2 instr 0x00F08149 0x33 0xEF
  | .imulhR => highStores avx2 instr 0x00E0F749 (laneHigh instr.dst instr.src)
  | .ismulhR => highStores avx2 instr 0x00E8F749 (laneHighSigned instr.dst instr.src)
  | .imulRcp =>
    [put32 0x0000B848 2, put64 (randomxReciprocalFast instr.imm32) 8,
      put32 (0xC0AF0F4C + shl32 dst 27) 4] ++ whenAvx2 avx2 (put (laneMulConstant instr.dst))

def generateSuperscalarCode : List Store :=
  match superscalarType instr with
  | some type => stores avx2 instr type
  | none => []

end Generator

section Instructions

/-- `r0` to `r7` are `r8` to `r15`, in the vector code `ymm0` to `ymm7`. -/
def gprOf (r : Fin 8) : Register := Fin.natAdd 8 r
def ymmOf (r : Fin 8) : Register := Fin.castAdd 8 r

variable (avx2 : Bool) (instr : Instruction)

def constantScalar (wide : AluOp) (op : ImmOp) : List Instr :=
  if avx2 then
    [.movImm rax (signExtend2sCompl instr.imm32), .alu wide (gprOf instr.dst) rax]
  else
    [.aluImm op (gprOf instr.dst) instr.imm32]

def highScalar (op : WideOp) : List Instr :=
  [.alu .mov rax (gprOf instr.dst), .wide op (gprOf instr.src), .alu .mov (gprOf instr.dst) rdx]

/-- The instructions on the general-purpose registers. -/
def scalarCode : SuperscalarInstructionType → List Instr
  | .isubR => [.alu .sub (gprOf instr.dst) (gprOf instr.src)]
  | .ixorR => [.alu .xor (gprOf instr.dst) (gprOf instr.src)]
  | .iaddRs =>
    [.lea (gprOf instr.dst) (gprOf instr.dst) (gprOf instr.src) (.ofNat 4 instr.getModShift)]
  | .imulR => [.alu .imul (gprOf instr.dst) (gprOf instr.src)]
  | .irorC => [.ror (gprOf instr.dst) (instr.imm32 &&& 63).toUInt8]
  | .iaddC7 | .iaddC8 | .iaddC9 => constantScalar avx2 instr .add .add
  | .ixorC7 | .ixorC8 | .ixorC9 => constantScalar avx2 instr .xor .xor
  | .imulhR => highScalar instr .mul
  | .ismulhR => highScalar instr .imul
  | .imulRcp =>
    [.movImm rax (randomxReciprocalFast instr.imm32), .alu .imul (gprOf instr.dst) rax]

def constantLanes (op : LaneOp) : List Instr :=
  [.broadcast 8 0xFFFFFFEC, .lane op (ymmOf instr.dst) (ymmOf instr.dst) 8]

/-- The product of two registers whose upper halves registers 8 and 9 hold. -/
def productLanes (dst right : Register) : List Instr :=
  [.lane .pmuludq 10 dst right, .lane .pmuludq 11 9 dst, .lane .pmuludq dst 8 right,
    .shift .psllq 11 11 32, .shift .psllq dst dst 32, .lane .paddq 10 10 11, .lane .paddq dst 10 dst]

/-- The partial products and the carry out of the middle; `high` is the register of the
upper product. -/
def middleLanes (dst src high : Register) : List Instr :=
  [.shift .psrlq 8 dst 32, .shift .psrlq 9 src 32, .lane .pmuludq 10 dst src,
    .lane .pmuludq 11 8 src, .lane .pmuludq 12 dst 9, .lane .pmuludq high 8 9,
    .shift .psrlq 10 10 32, .lane .pxor 8 11 14, .lane .paddq 11 11 12, .lane .paddq 11 11 10,
    .lane .pxor 9 11 14, .lane .pcmpgtq 8 8 9, .lane .pand 8 8 15]

/-- The instructions on the vector registers. -/
def vectorCode (type : SuperscalarInstructionType) : List Instr :=
  let dst := ymmOf instr.dst
  let src := ymmOf instr.src
  match type with
  | .isubR => [.lane .psubq dst dst src]
  | .ixorR => [.lane .pxor dst dst src]
  | .iaddRs =>
    if instr.getModShift ≠ 0 then
      [.shift .psllq 8 src (.ofNat instr.getModShift), .lane .paddq dst 8 dst]
    else
      [.lane .paddq dst dst src]
  | .imulR => [.shift .psrlq 8 dst 32, .shift .psrlq 9 src 32] ++ productLanes dst src
  | .irorC =>
    [.shift .psrlq 8 dst (instr.imm32 &&& 63).toUInt8,
      .shift .psllq 9 dst (64 - (instr.imm32 &&& 63)).toUInt8, .lane .por dst 8 9]
  | .iaddC7 | .iaddC8 | .iaddC9 => constantLanes instr .paddq
  | .ixorC7 | .ixorC8 | .ixorC9 => constantLanes instr .pxor
  | .imulhR =>
    middleLanes dst src dst ++
      [.lane .paddq dst 8 dst, .shift .psrlq 11 11 32, .lane .paddq dst 11 dst]
  | .ismulhR =>
    middleLanes dst src 13 ++
      [.lane .paddq 13 13 8, .shift .psrlq 11 11 32, .lane .paddq 8 13 11, .lane .pxor 9 9 9,
        .lane .pcmpgtq 10 9 dst, .lane .pcmpgtq 11 9 src, .lane .pand 10 10 src,
        .lane .pand 11 11 dst, .lane .psubq 8 8 10, .lane .psubq dst 8 11]
  | .imulRcp =>
    [.broadcast 12 0xFFFFFFEB, .shift .psrlq 8 dst 32, .shift .psrlq 9 12 32] ++
      productLanes dst 12

def compiled (type : SuperscalarInstructionType) : List Instr :=
  scalarCode avx2 instr type ++ if avx2 then vectorCode instr type else []

end Instructions

end VeloxHash.SuperscalarCode
