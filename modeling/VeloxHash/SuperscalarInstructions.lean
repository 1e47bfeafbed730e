import VeloxHash.HashedStream
import VeloxHash.Retrying
import VeloxHash.Superscalar

/-! The instructions of superscalar programs while they are put together: their macro-operations,
the slots they may fill, their constants and the choice of their registers. -/

namespace VeloxHash.SuperscalarGenerator

open Checked HashedStream Randomx Superscalar

section MacroOps

/-- Ports as a set of bits. -/
def portNull : Nat := 0
def p0 : Nat := 1
def p1 : Nat := 2
def p5 : Nat := 4
def p01 : Nat := p0 ||| p1
def p05 : Nat := p0 ||| p5
def p015 : Nat := p0 ||| p1 ||| p5

structure MacroOp where
  size : Nat
  latency : Nat := 0
  uop1 : Nat := portNull
  uop2 : Nat := portNull
  dependent : Bool := false
  deriving DecidableEq, Repr

namespace MacroOp

def isSimple (m : MacroOp) : Bool := m.uop2 == portNull

def isEliminated (m : MacroOp) : Bool := m.uop1 == portNull

def subRr : MacroOp where size := 3; latency := 1; uop1 := p015
def xorRr : MacroOp where size := 3; latency := 1; uop1 := p015
def imulR : MacroOp where size := 3; latency := 4; uop1 := p1; uop2 := p5
def mulR : MacroOp where size := 3; latency := 4; uop1 := p1; uop2 := p5
def movRr : MacroOp where size := 3
def leaSib : MacroOp where size := 4; latency := 1; uop1 := p01
def imulRr : MacroOp where size := 4; latency := 3; uop1 := p1
def rorRi : MacroOp where size := 4; latency := 1; uop1 := p05
def addRi : MacroOp where size := 7; latency := 1; uop1 := p015
def xorRi : MacroOp where size := 7; latency := 1; uop1 := p015
def movRi64 : MacroOp where size := 10; latency := 1; uop1 := p015

end MacroOp

/-- `srcOp` is missing where an instruction has no source register. -/
structure SuperscalarInstructionInfo where
  ops : List MacroOp
  resultOp : Nat := 0
  dstOp : Nat := 0
  srcOp : Option Nat := some 0

/-- The type `none` is the invalid one, of `NOP`. -/
def info : Option SuperscalarInstructionType → SuperscalarInstructionInfo
  | some .isubR => { ops := [.subRr] }
  | some .ixorR => { ops := [.xorRr] }
  | some .iaddRs => { ops := [.leaSib] }
  | some .imulR => { ops := [.imulRr] }
  | some .irorC => { ops := [.rorRi], srcOp := none }
  | some .iaddC7 | some .iaddC8 | some .iaddC9 => { ops := [.addRi], srcOp := none }
  | some .ixorC7 | some .ixorC8 | some .ixorC9 => { ops := [.xorRi], srcOp := none }
  | some .imulhR => { ops := [.movRr, .mulR, .movRr], resultOp := 1, dstOp := 0, srcOp := some 1 }
  | some .ismulhR => { ops := [.movRr, .imulR, .movRr], resultOp := 1, dstOp := 0, srcOp := some 1 }
  | some .imulRcp =>
    { ops := [.movRi64, { MacroOp.imulRr with dependent := true }]
      resultOp := 1, dstOp := 1, srcOp := none }
  | none => { ops := [] }

def isMultiplication (type : Option SuperscalarInstructionType) : Bool :=
  type == some .imulR || type == some .imulhR || type == some .ismulhR || type == some .imulRcp

end MacroOps

section DecoderBuffers

structure DecoderBuffer where
  index : Nat
  counts : List Nat

def decodeBuffer484 : DecoderBuffer := ⟨0, [4, 8, 4]⟩
def decodeBuffer7333 : DecoderBuffer := ⟨1, [7, 3, 3, 3]⟩
def decodeBuffer3733 : DecoderBuffer := ⟨2, [3, 7, 3, 3]⟩
def decodeBuffer493 : DecoderBuffer := ⟨3, [4, 9, 3]⟩
def decodeBuffer4444 : DecoderBuffer := ⟨4, [4, 4, 4, 4]⟩
def decodeBuffer3310 : DecoderBuffer := ⟨5, [3, 3, 10]⟩

def decodeBuffers : List DecoderBuffer :=
  [decodeBuffer484, decodeBuffer7333, decodeBuffer3733, decodeBuffer493]

abbrev Blake2Generator := Stream 64

variable (rxBlake2b : Nat → Table 64 UInt8 → Table 64 UInt8)

/-- The value of a byte under a mask picks from a list. -/
def pick {α : Type} (l : List α) (mask : UInt8) (gen : Blake2Generator) :
    Option (α × Blake2Generator) := do
  let (b, gen) ← nextByte rxBlake2b gen
  let a ← l[(b &&& mask).toNat]?
  return (a, gen)

def fetchNext (type : Option SuperscalarInstructionType) (cycle mulCount : Nat)
    (gen : Blake2Generator) : Option (DecoderBuffer × Blake2Generator) :=
  if type = some .imulhR ∨ type = some .ismulhR then some (decodeBuffer3310, gen)
  else if mulCount < cycle + 1 then some (decodeBuffer4444, gen)
  else if type = some .imulRcp then
    pick rxBlake2b [decodeBuffer493, decodeBuffer484] 1 gen
  else pick rxBlake2b decodeBuffers 3 gen

end DecoderBuffers

/-- An instruction that is being put together. The parameter of a group stands for the `int` of the
same 32 bits, a missing register for `-1`. -/
structure SuperscalarInstruction where
  type : Option SuperscalarInstructionType
  src : Option Nat := none
  dst : Option Nat := none
  mod : UInt8 := 0
  imm32 : UInt32 := 0
  opGroup : Option SuperscalarInstructionType := none
  opGroupPar : UInt32 := 0
  canReuse : Bool := false
  groupParIsSource : Bool := false

namespace SuperscalarInstruction

/-- `SuperscalarInstruction::Null`. -/
def null : SuperscalarInstruction where type := none

def minusOne : UInt32 := 0xFFFFFFFF

section Creation

variable (rxBlake2b : Nat → Table 64 UInt8 → Table 64 UInt8)

def create (s : SuperscalarInstruction) (type : SuperscalarInstructionType) (gen : Blake2Generator) :
    Retrying (SuperscalarInstruction × Blake2Generator) :=
  let s := { s with
    type := some type, src := none, dst := none, canReuse := false, groupParIsSource := false }
  match type with
  | .isubR => return ({ s with
      mod := 0, imm32 := 0, opGroup := some .iaddRs, groupParIsSource := true }, gen)
  | .ixorR => return ({ s with
      mod := 0, imm32 := 0, opGroup := some .ixorR, groupParIsSource := true }, gen)
  | .iaddRs => do
    let (mod, gen) ← Retrying.access (nextByte rxBlake2b gen)
    return ({ s with mod, imm32 := 0, opGroup := some .iaddRs, groupParIsSource := true }, gen)
  | .imulR => return ({ s with
      mod := 0, imm32 := 0, opGroup := some .imulR, groupParIsSource := true }, gen)
  | .irorC => do
    let (b, gen) ← Retrying.retry (nextByte rxBlake2b) (fun b => b &&& 63 ≠ 0) gen
    return ({ s with
      mod := 0, imm32 := (b &&& 63).toUInt32, opGroup := some .irorC, opGroupPar := minusOne }, gen)
  | .iaddC7 | .iaddC8 | .iaddC9 => do
    let (imm32, gen) ← Retrying.access (nextWord rxBlake2b gen)
    return ({ s with mod := 0, imm32, opGroup := some .iaddC7, opGroupPar := minusOne }, gen)
  | .ixorC7 | .ixorC8 | .ixorC9 => do
    let (imm32, gen) ← Retrying.access (nextWord rxBlake2b gen)
    return ({ s with mod := 0, imm32, opGroup := some .ixorC7, opGroupPar := minusOne }, gen)
  | .imulhR => do
    let (opGroupPar, gen) ← Retrying.access (nextWord rxBlake2b gen)
    return ({ s with
      canReuse := true, mod := 0, imm32 := 0, opGroup := some .imulhR, opGroupPar }, gen)
  | .ismulhR => do
    let (opGroupPar, gen) ← Retrying.access (nextWord rxBlake2b gen)
    return ({ s with
      canReuse := true, mod := 0, imm32 := 0, opGroup := some .ismulhR, opGroupPar }, gen)
  | .imulRcp => do
    let (imm32, gen) ← Retrying.retry (nextWord rxBlake2b) (fun x => !isZeroOrPowerOf2 x) gen
    return ({ s with mod := 0, imm32, opGroup := some .imulRcp, opGroupPar := minusOne }, gen)

/-- The types for a slot and the bits of a byte that pick one; there is none for another size. -/
def slotTypes (slotSize fetchType : Nat) (isLast : Bool) :
    Option (List SuperscalarInstructionType × UInt8) :=
  match slotSize with
  | 3 => if isLast then some ([.isubR, .ixorR, .imulhR, .ismulhR], 3) else some ([.isubR, .ixorR], 1)
  | 4 => if fetchType = 4 ∧ ¬isLast then some ([.imulR], 0) else some ([.irorC, .iaddRs], 1)
  | 7 => some ([.ixorC7, .iaddC7], 1)
  | 8 => some ([.ixorC8, .iaddC8], 1)
  | 9 => some ([.ixorC9, .iaddC9], 1)
  | 10 => some ([.imulRcp], 0)
  | _ => none

/-- A byte is drawn only where there is a choice. -/
def createForSlot (s : SuperscalarInstruction) (slotSize fetchType : Nat) (isLast : Bool)
    (gen : Blake2Generator) : Retrying (SuperscalarInstruction × Blake2Generator) := do
  let (types, mask) ← Retrying.access (slotTypes slotSize fetchType isLast)
  match types with
  | [type] => create rxBlake2b s type gen
  | _ => do
    let (type, gen) ← Retrying.access (pick rxBlake2b types mask gen)
    create rxBlake2b s type gen

end Creation

section Registers

/-- `value` is never read. -/
structure RegisterInfo where
  latency : Nat := 0
  lastOpGroup : Option SuperscalarInstructionType := none
  lastOpPar : UInt32 := minusOne

variable (rxBlake2b : Nat → Table 64 UInt8 → Table 64 UInt8)

def selectRegister (availableRegisters : List Nat) (gen : Blake2Generator) :
    Option (Option Nat × Blake2Generator) :=
  match availableRegisters with
  | [] => some (none, gen)
  | [reg] => some (some reg, gen)
  | _ => do
    let (x, gen) ← nextWord rxBlake2b gen
    let reg ← availableRegisters[x.toNat % availableRegisters.length]?
    return (some reg, gen)

/-- The registers that a search over all eight leaves. -/
def available (registers : Table 8 RegisterInfo) (p : Nat → RegisterInfo → Bool) : List Nat :=
  (List.range 8).filter fun i => p i (registers.cell i)

def selectDestination (s : SuperscalarInstruction) (cycle : Nat) (allowChainedMul : Bool)
    (registers : Table 8 RegisterInfo) (gen : Blake2Generator) :
    Option (Bool × SuperscalarInstruction × Blake2Generator) := do
  let availableRegisters := available registers fun i r =>
    r.latency ≤ cycle ∧ (s.canReuse ∨ some i ≠ s.src) ∧
      (allowChainedMul ∨ s.opGroup ≠ some .imulR ∨ r.lastOpGroup ≠ some .imulR) ∧
      (r.lastOpGroup ≠ s.opGroup ∨ r.lastOpPar ≠ s.opGroupPar) ∧
      (s.type ≠ some .iaddRs ∨ i ≠ registerNeedsDisplacement)
  let (reg, gen) ← selectRegister rxBlake2b availableRegisters gen
  return (reg.isSome, { s with dst := reg.or s.dst }, gen)

/-- With two registers ready for an `IADD_RS`, `r5` is taken, which cannot be the target. -/
def selectSource (s : SuperscalarInstruction) (cycle : Nat) (registers : Table 8 RegisterInfo)
    (gen : Blake2Generator) : Option (Bool × SuperscalarInstruction × Blake2Generator) :=
  let availableRegisters := available registers fun _ r => r.latency ≤ cycle
  if availableRegisters.length = 2 ∧ s.type = some .iaddRs ∧
      (registerNeedsDisplacement : Nat) ∈ availableRegisters then
    some (true, { s with src := some registerNeedsDisplacement, opGroupPar := 5 }, gen)
  else do
    let (reg, gen) ← selectRegister rxBlake2b availableRegisters gen
    match reg with
    | some r => return (true, { s with
        src := some r
        opGroupPar := if s.groupParIsSource then .ofNat r else s.opGroupPar }, gen)
    | none => return (false, s, gen)

end Registers

end SuperscalarInstruction

end VeloxHash.SuperscalarGenerator
