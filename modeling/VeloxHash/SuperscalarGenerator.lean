import VeloxHash.SuperscalarInstructions

/-! `generateSuperscalar`: macro-operations are decoded a window of 16 bytes at a time and put on
three ports as early as their operands allow, until a port is taken for all cycles of the
configured latency or the program is full. -/

namespace VeloxHash.SuperscalarGenerator

open Checked HashedStream Randomx Superscalar

/-- `RANDOMX_SUPERSCALAR_MAX_LATENCY`. -/
def superscalarMaxLatency : Nat := 256

def superscalarMaxSize : Nat := 3 * superscalarMaxLatency + 2

def cycleMapSize : Nat := superscalarMaxLatency + 4

def lookForwardCycles : Nat := 4

def maxThrowawayCount : Nat := 256

/-- For each cycle what the ports 0, 1 and 5 do. -/
abbrev PortMap := Table cycleMapSize (Table 3 Nat)

section Ports

variable (latency : Nat) (commit : Bool)

def occupy (portBusy : PortMap) (cycle port uop : Nat) : Option PortMap :=
  if commit then do
    let row ← portBusy.read cycle
    let row ← row.write port uop
    portBusy.write cycle row
  else some portBusy

/-- The first cycle in which a port of the operation is idle, if there is one in time. -/
def scheduleUop (uop : Nat) (portBusy : PortMap) (cycle : Nat) : Option (Option Nat × PortMap) :=
  if cycle < latency + 4 then do
    let row ← portBusy.read cycle
    let busy0 ← row.read 0
    let busy1 ← row.read 1
    let busy5 ← row.read 2
    if uop &&& p5 ≠ 0 ∧ busy5 = 0 then do
      let portBusy ← occupy commit portBusy cycle 2 uop
      return (some cycle, portBusy)
    else if uop &&& p0 ≠ 0 ∧ busy0 = 0 then do
      let portBusy ← occupy commit portBusy cycle 0 uop
      return (some cycle, portBusy)
    else if uop &&& p1 ≠ 0 ∧ busy1 = 0 then do
      let portBusy ← occupy commit portBusy cycle 1 uop
      return (some cycle, portBusy)
    else scheduleUop uop portBusy (cycle + 1)
  else some (none, portBusy)
termination_by latency + 4 - cycle

/-- Both operations in one cycle. -/
def schedulePair (mop : MacroOp) (portBusy : PortMap) (cycle : Nat) : Option (Option Nat × PortMap) :=
  if cycle < latency + 4 then do
    let (cycle1, _) ← scheduleUop latency false mop.uop1 portBusy cycle
    let (cycle2, _) ← scheduleUop latency false mop.uop2 portBusy cycle
    match cycle1 with
    | some c =>
      if cycle1 = cycle2 then
        if commit then do
          let (_, portBusy) ← scheduleUop latency true mop.uop1 portBusy c
          let (_, portBusy) ← scheduleUop latency true mop.uop2 portBusy c
          return (some c, portBusy)
        else return (some c, portBusy)
      else schedulePair mop portBusy (cycle + 1)
    | none => schedulePair mop portBusy (cycle + 1)
  else some (none, portBusy)
termination_by latency + 4 - cycle

def scheduleMop (mop : MacroOp) (portBusy : PortMap) (cycle depCycle : Nat) :
    Option (Option Nat × PortMap) :=
  let cycle := if mop.dependent then if cycle > depCycle then cycle else depCycle else cycle
  if mop.isEliminated then some (some cycle, portBusy)
  else if mop.isSimple then scheduleUop latency commit mop.uop1 portBusy cycle
  else schedulePair latency commit mop portBusy cycle

end Ports

/-- An entry of the program buffer. -/
structure Entry where
  opcode : Option SuperscalarInstructionType
  dst : Nat
  src : Nat
  mod : UInt8
  imm32 : UInt32
  deriving DecidableEq, Repr

/-- The fields are bytes, so that `-1` becomes 255. -/
def SuperscalarInstruction.toInstr (s : SuperscalarInstruction) : Entry where
  opcode := s.type
  dst := s.dst.getD 255
  src := (s.src.or s.dst).getD 255
  mod := s.mod
  imm32 := s.imm32

structure State where
  gen : Blake2Generator
  portBusy : PortMap
  registers : Table 8 SuperscalarInstruction.RegisterInfo
  currentInstruction : SuperscalarInstruction
  macroOpIndex : Nat
  codeSize : Nat
  macroOpCount : Nat
  cycle : Nat
  depCycle : Nat
  retireCycle : Nat
  portsSaturated : Bool
  prog : List Entry
  mulCount : Nat
  throwAwayCount : Nat

def start (gen : Blake2Generator) : State where
  gen := gen
  portBusy := .filled _ (.filled _ 0)
  registers := .filled 8 {}
  currentInstruction := .null
  macroOpIndex := 0
  codeSize := 0
  macroOpCount := 0
  cycle := 0
  depCycle := 0
  retireCycle := 0
  portsSaturated := false
  prog := []
  mulCount := 0
  throwAwayCount := 0

/-- The macro-operations of the current instruction. -/
def State.ops (s : State) : List MacroOp := (info s.currentInstruction.type).ops

section Slots

variable (rxBlake2b : Nat → Table 64 UInt8 → Table 64 UInt8) (latency : Nat)

/-- A selection tried in this cycle and in the ones after it, by which both clocks advance. -/
def lookForward (select : State → Nat → Option (Bool × SuperscalarInstruction × Blake2Generator)) :
    Nat → State → Nat → Option (Bool × State × Nat)
  | 0, s, scheduleCycle => some (false, s, scheduleCycle)
  | forward + 1, s, scheduleCycle => do
    let (found, instr, gen) ← select s scheduleCycle
    let s := { s with currentInstruction := instr, gen }
    if found then return (true, s, scheduleCycle)
    else lookForward select forward { s with cycle := s.cycle + 1 } (scheduleCycle + 1)

def findSource (s : State) (scheduleCycle : Nat) : Option (Bool × State × Nat) :=
  if some s.macroOpIndex = (info s.currentInstruction.type).srcOp then
    lookForward (fun s cycle => s.currentInstruction.selectSource rxBlake2b cycle s.registers s.gen)
      lookForwardCycles s scheduleCycle
  else some (true, s, scheduleCycle)

def findDestination (s : State) (scheduleCycle : Nat) : Option (Bool × State × Nat) :=
  if s.macroOpIndex = (info s.currentInstruction.type).dstOp then
    lookForward (fun s cycle => s.currentInstruction.selectDestination rxBlake2b cycle
      (0 < s.throwAwayCount) s.registers s.gen) lookForwardCycles s scheduleCycle
  else some (true, s, scheduleCycle)

/-- The position in the window with the state, to go on from or to leave the window with. -/
abbrev Turn := (Nat × State) ⊕ State

/-- Another instruction is tried, or the window given up. -/
def throwAway (bufferIndex : Nat) (s : State) : Turn :=
  if s.throwAwayCount < maxThrowawayCount then
    .inl (bufferIndex, { s with
      throwAwayCount := s.throwAwayCount + 1, macroOpIndex := s.ops.length })
  else .inr { s with currentInstruction := .null }

/-- The register of a result. -/
def retire (s : State) : Option State :=
  if s.macroOpIndex = (info s.currentInstruction.type).resultOp then do
    let dst ← s.currentInstruction.dst
    let registers ← s.registers.write dst {
      latency := s.depCycle
      lastOpGroup := s.currentInstruction.opGroup
      lastOpPar := s.currentInstruction.opGroupPar }
    return { s with registers, retireCycle := s.depCycle }
  else some s

/-- An instruction with no operation left joins the program. -/
def finish (s : State) : Option State :=
  if s.ops.length ≤ s.macroOpIndex then do
    let prog ← push superscalarMaxSize s.prog s.currentInstruction.toInstr
    return { s with
      prog, mulCount := s.mulCount + (isMultiplication s.currentInstruction.type).toNat }
  else some s

/-- The operation is put on its ports, with its registers chosen. -/
def execute (mop : MacroOp) (bufferIndex topCycle : Nat) (s : State) (scheduleCycle : Nat) :
    Option Turn := do
  let s := { s with throwAwayCount := 0 }
  let (cycle, portBusy) ← scheduleMop latency true mop s.portBusy scheduleCycle scheduleCycle
  let s := { s with portBusy }
  match cycle with
  | none => return .inr { s with portsSaturated := true }
  | some scheduleCycle => do
    let s ← retire { s with depCycle := scheduleCycle + mop.latency }
    let s ← finish { s with
      codeSize := s.codeSize + mop.size
      macroOpIndex := s.macroOpIndex + 1
      macroOpCount := s.macroOpCount + 1
      portsSaturated := s.portsSaturated || decide (latency ≤ scheduleCycle)
      cycle := topCycle }
    return .inl (bufferIndex + 1, s)

/-- The next operation of the current instruction. -/
def issue (bufferIndex topCycle : Nat) (s : State) : Option Turn := do
  let mop ← s.ops[s.macroOpIndex]?
  let (cycle, _) ← scheduleMop latency false mop s.portBusy s.cycle s.depCycle
  match cycle with
  | none => return .inr { s with portsSaturated := true }
  | some scheduleCycle => do
    let (found, s, scheduleCycle) ← findSource rxBlake2b s scheduleCycle
    if !found then return throwAway bufferIndex s
    else do
      let (found, s, scheduleCycle) ← findDestination rxBlake2b s scheduleCycle
      if !found then return throwAway bufferIndex s
      else execute latency mop bufferIndex topCycle s scheduleCycle

/-- One turn of the loop over a window. -/
def fillSlot (buffer : DecoderBuffer) (at_ : Nat × State) : Retrying Turn :=
  let (bufferIndex, s) := at_
  if bufferIndex < buffer.counts.length then
    if s.ops.length ≤ s.macroOpIndex then
      if s.portsSaturated ∨ 3 * latency + 2 ≤ s.prog.length then return .inr s
      else do
        let slotSize ← Retrying.access buffer.counts[bufferIndex]?
        let (instr, gen) ← s.currentInstruction.createForSlot rxBlake2b slotSize buffer.index
          (buffer.counts.length == bufferIndex + 1) s.gen
        Retrying.access (issue rxBlake2b latency bufferIndex s.cycle
          { s with currentInstruction := instr, gen, macroOpIndex := 0 })
    else Retrying.access (issue rxBlake2b latency bufferIndex s.cycle s)
  else return .inr s

/-- More turns than a window can take. -/
def windowTurns : Nat := 5 * (maxThrowawayCount + 1)

def fillWindow (buffer : DecoderBuffer) (s : State) : Retrying State :=
  Retrying.loop (fillSlot rxBlake2b latency buffer) windowTurns (0, s)

/-- The loop over decode cycles, with the cycles that are left. -/
def decode : Nat → Nat → State → Retrying (Nat × State)
  | 0, decodeCycle, s => return (decodeCycle, s)
  | left + 1, decodeCycle, s => do
    if s.portsSaturated = false ∧ s.prog.length < 3 * latency + 2 then do
      let (buffer, gen) ← Retrying.access
        (fetchNext rxBlake2b s.currentInstruction.type decodeCycle s.mulCount s.gen)
      let s ← fillWindow rxBlake2b latency buffer { s with gen }
      decode left (decodeCycle + 1) { s with cycle := s.cycle + 1 }
    else return (decodeCycle, s)

end Slots

section Program

/-- `SuperscalarProgram` but `ipc`, which is a floating-point number. -/
structure SuperscalarProgram where
  programBuffer : List Entry
  addrReg : Nat
  codeSize : Nat
  macroOps : Nat
  decodeCycles : Nat
  cpuLatency : Nat
  asicLatency : Nat
  mulCount : Nat
  cpuLatencies : Table 8 Nat
  asicLatencies : Table 8 Nat

def asicLatencyStep (l : Table 8 Nat) (instr : Entry) : Option (Table 8 Nat) := do
  let dst ← l.read instr.dst
  let src ← l.read instr.src
  let latDst := dst + 1
  let latSrc := if instr.dst ≠ instr.src then src + 1 else 0
  l.write instr.dst (if latDst > latSrc then latDst else latSrc)

/-- The greatest latency and the first register that has it. -/
def addressRegister (l : Table 8 Nat) : Nat × Nat :=
  (List.range 8).foldl (fun m i => if l.cell i > m.1 then (l.cell i, i) else m) (0, 0)

def generateSuperscalar (rxBlake2b : Nat → Table 64 UInt8 → Table 64 UInt8) (latency : Nat)
    (gen : Blake2Generator) : Retrying (SuperscalarProgram × Blake2Generator) := do
  let (decodeCycles, s) ← decode rxBlake2b latency latency 0 (start gen)
  let asicLatencies ← Retrying.access (s.prog.foldlM asicLatencyStep (.filled 8 0))
  let (asicLatency, addrReg) := addressRegister asicLatencies
  return ({
    programBuffer := s.prog
    addrReg
    codeSize := s.codeSize
    macroOps := s.macroOpCount
    decodeCycles
    cpuLatency := s.retireCycle
    asicLatency
    mulCount := s.mulCount
    cpuLatencies := ⟨fun i => (s.registers.cell i).latency⟩
    asicLatencies }, s.gen)

end Program

end VeloxHash.SuperscalarGenerator
