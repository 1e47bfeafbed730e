import VeloxHash.BytecodeConfinement
import VeloxHash.RandomxAes

/-! `InterpretedVm::run`: a program is generated from a seed, and executed on the scratchpad and the
data set. -/

namespace VeloxHash.InterpretedVm

open Randomx BytecodeMachine CodeBuffer Confinement SoftAes StridedLoop

/-- What the virtual machine reads of `RandomX_ConfigurationBase`. -/
structure VmConfig extends Config where
  programIterations : UInt32
  programCount : UInt32
  fillAes4Rx4Key : Fin 8 → Block

/-- `RandomX_ConfigurationMonero`. -/
def VmConfig.monero : VmConfig where
  toConfig := Config.monero
  programIterations := 2048
  programCount := 8
  fillAes4Rx4Key := ![
    setWords 0x99e5d23f 0x2f546d2b 0xd1833ddb 0x6421aadd,
    setWords 0xa5dfcde5 0x06f79d53 0xb6913f55 0xb20e3450,
    setWords 0x171c02bf 0x0aa4679f 0x515e7baf 0x5c3ed904,
    setWords 0xd8ded291 0xcd673785 0xe78f5d08 0x85623763,
    setWords 0x229effb4 0x3d518b6d 0xe3d6a7a6 0xb5826f73,
    setWords 0xb272b7d2 0xe9024d4e 0x9c10b3d9 0xc7566bf3,
    setWords 0xf63befa7 0x2ba9660a 0xf765a38b 0xf273c9e7,
    setWords 0xc0b0762d 0x0c06d1fd 0x915839de 0x7a7cd609]

/-- `rx_vec_f128`, as the bits of its two doubles. -/
structure Vec128 where
  lo : UInt64
  hi : UInt64
  deriving DecidableEq, Inhabited

namespace Vec128

def map (op : UInt64 → UInt64) (x : Vec128) : Vec128 := ⟨op x.lo, op x.hi⟩

def zip (op : UInt64 → UInt64 → UInt64) (x y : Vec128) : Vec128 := ⟨op x.lo y.lo, op x.hi y.hi⟩

def bytes (x : Vec128) : List UInt8 := le x.lo.toNat 8 ++ le x.hi.toNat 8

@[simp] theorem length_bytes (x : Vec128) : x.bytes.length = 16 := by simp [bytes]

end Vec128

/-- The arithmetic on the bits of doubles, by rounding mode, and the conversion of an `int32_t`. -/
structure FloatArithmetic where
  add : UInt32 → UInt64 → UInt64 → UInt64
  sub : UInt32 → UInt64 → UInt64 → UInt64
  mul : UInt32 → UInt64 → UInt64 → UInt64
  div : UInt32 → UInt64 → UInt64 → UInt64
  sqrt : UInt32 → UInt64 → UInt64
  convert : UInt32 → UInt64

/-- `dynamicMantissaMask`. -/
def dynamicMantissaMask : UInt64 := 0x00FFFFFFFFFFFFFF

/-- The operations on `rx_vec_f128` of a program with the given `eMask`. -/
abbrev FloatArithmetic.unit (fp : FloatArithmetic) (eMask : Vec128) : VectorUnit where
  Vec := Vec128
  swap x := ⟨x.hi, x.lo⟩
  add mode := Vec128.zip (fp.add mode)
  sub mode := Vec128.zip (fp.sub mode)
  mul mode := Vec128.zip (fp.mul mode)
  div mode := Vec128.zip (fp.div mode)
  sqrt mode := Vec128.map (fp.sqrt mode)
  scale := Vec128.map (· ^^^ 0x80F0000000000000)
  convert bytes :=
    ⟨fp.convert (.ofNat (ofLe (bytes.take 4))), fp.convert (.ofNat (ofLe (bytes.drop 4)))⟩
  maskRegisterExponentMantissa x := (x.map (· &&& dynamicMantissaMask)).zip (· ||| ·) eMask

structure RegisterFile where
  r : Fin 8 → UInt64
  f : Fin 4 → Vec128
  e : Fin 4 → Vec128
  a : Fin 4 → Vec128
  deriving Inhabited

structure ProgramConfiguration where
  eMask : Vec128
  readReg0 : Fin 8
  readReg1 : Fin 8
  readReg2 : Fin 8
  readReg3 : Fin 8
  deriving Inhabited

/-- `randomx_vm` and the rounding mode of the thread that runs it. -/
structure Vm where
  program : Memory
  reg : RegisterFile
  config : ProgramConfiguration
  mx : UInt32
  ma : UInt32
  scratchpad : Memory
  datasetOffset : UInt64
  mode : UInt32
  deriving Inhabited

section Program

/-- `Program::getEntropy`. -/
def getEntropy (program : Memory) (i : Nat) : UInt64 := .ofNat (ofLe (read program (8 * i) 8))

/-- `Program::operator()`; the mask of `fillAes4Rx4` leaves three bits of a register. -/
def instruction (program : Memory) (pc : Nat) : Instruction where
  opcode := program (128 + 8 * pc)
  dst := ⟨(program (128 + 8 * pc + 1)).toNat % 8, Nat.mod_lt _ (by decide)⟩
  src := ⟨(program (128 + 8 * pc + 2)).toNat % 8, Nat.mod_lt _ (by decide)⟩
  mod := program (128 + 8 * pc + 3)
  imm32 := .ofNat (ofLe (read program (128 + 8 * pc + 4) 4))

def programOf (config : Config) (program : Memory) : Program config :=
  ⟨(List.range config.programSize).map (instruction program), by simp⟩

/-- A byte of `inst_mask`. -/
def instMask (c r : Fin 4) : UInt8 := if c.val % 2 = 0 ∧ (r = 1 ∨ r = 2) then 7 else 0xFF

def maskBlock (s : Block) : Block := fun c r => s c r &&& instMask c r

def maskLanes (s : Lanes) : Lanes :=
  ⟨maskBlock s.state0, maskBlock s.state1, maskBlock s.state2, maskBlock s.state3⟩

variable (t : Sboxes) (softAes : Fin 3) (key : Fin 8 → Block)

/-- The macro `TRANSFORM` in `fillAes4Rx4`. -/
def transform (s : Lanes) : Lanes :=
  let step (s : Lanes) (k : Fin 4) : Lanes :=
    fillRound t softAes s ⟨key (k.castAdd 4), key (k.castAdd 4), key (k.natAdd 4), key (k.natAdd 4)⟩
  step (step (step (step s 0) 1) 2) 3

/-- A round of the second loop of `fillAes4Rx4`. -/
def fillMasked (p : Nat) (x : Lanes × Memory) : Lanes × Memory :=
  (transform t softAes key x.1, (maskLanes (transform t softAes key x.1)).store x.2 p)

local instance sixtyFour_neZero : NeZero 64 := ⟨by decide⟩

/-- `fillAes4Rx4`; the state is not written back. -/
def fillAes4Rx4 (state : Lanes) (outputSize : Nat) (buffer : Memory) : Memory :=
  let state0 := transform t softAes key state
  let state1 := transform t softAes key state0
  let buffer := state1.store (state0.store buffer 0) 64
  (strided 64 (fillMasked t softAes key) outputSize 128 (state1, buffer)).2.2

/-- `generateProgram`. -/
def generateProgram (config : VmConfig) (seed : Lanes) (vm : Vm) : Vm :=
  let size := 128 + config.programSize * 8
  { vm with program := fillAes4Rx4 t softAes config.fillAes4Rx4Key seed size vm.program }

end Program

section Initialize

def getSmallPositiveFloatBits (entropy : UInt64) : UInt64 :=
  let exponent := ((entropy >>> 59 + 1023) &&& 0x7FF) <<< 52
  exponent ||| entropy &&& 0xFFFFFFFFFFFFF

def getStaticExponent (entropy : UInt64) : UInt64 :=
  let exponent : UInt64 := (0x300 : UInt64) ||| (entropy >>> 60) <<< 4
  exponent <<< 52

def getFloatMask (entropy : UInt64) : UInt64 := entropy &&& 0x3FFFFF ||| getStaticExponent entropy

/-- `CacheLineAlignMask`. -/
def cacheLineAlignMask : UInt32 := 0x7FFFFFC0

/-- `DatasetExtraItems`. -/
def datasetExtraItems : UInt64 := 524287

/-- The lines of the data set: `DatasetBaseSize + DatasetExtraSize` bytes. -/
def datasetItemCount : Nat := 34078719

/-- One of two neighbouring registers, by a bit. -/
def addressRegister (base : Fin 8) (addressRegisters : UInt64) (bit : Nat) : Fin 8 :=
  if addressRegisters.toNat.testBit bit then base + 1 else base

/-- `randomx_vm::initialize`. -/
def initializeVm (vm : Vm) : Vm :=
  let entropy := getEntropy vm.program
  let small (i : Nat) : Vec128 :=
    ⟨getSmallPositiveFloatBits (entropy (2 * i)), getSmallPositiveFloatBits (entropy (2 * i + 1))⟩
  { vm with
    reg := { vm.reg with a := fun i => small i }
    ma := (entropy 8).toUInt32 &&& cacheLineAlignMask
    mx := (entropy 10).toUInt32
    config :=
      { eMask := ⟨getFloatMask (entropy 14), getFloatMask (entropy 15)⟩
        readReg0 := addressRegister 0 (entropy 12) 0
        readReg1 := addressRegister 2 (entropy 12) 1
        readReg2 := addressRegister 4 (entropy 12) 2
        readReg3 := addressRegister 6 (entropy 12) 3 }
    datasetOffset := entropy 13 % (datasetExtraItems + 1) * 64 }

end Initialize

section Execute

variable (config : VmConfig) (fp : FloatArithmetic) (lines : Fin datasetItemCount → Fin 8 → UInt64)

/-- The loop in `execute`. -/
structure Loop (v : VectorUnit) where
  machine : Machine v
  mx : UInt32
  ma : UInt32
  spAddr0 : UInt32
  spAddr1 : UInt32

def scratchpadL3Mask64 (config : Config) : UInt32 := (config.scratchpadL3Size / 8 / 8 - 1) * 64

/-- The words and vectors that an iteration loads. -/
def enter (v : VectorUnit) (spAddr0 spAddr1 : Nat) (m : Machine v) : Machine v :=
  { m with
    r := fun i => m.r i ^^^ .ofNat (ofLe (read m.scratchpad (spAddr0 + 8 * i.val) 8))
    f := fun i => v.convert (read m.scratchpad (spAddr1 + 8 * i.val) 8)
    e := fun i => v.maskRegisterExponentMantissa
      (v.convert (read m.scratchpad (spAddr1 + 8 * (4 + i.val)) 8)) }

/-- `datasetRead`; none outside of the data set and for what is not one of its lines. -/
def datasetRead (address : UInt64) : Option (Fin 8 → UInt64) :=
  if h : address.toNat % 64 = 0 ∧ address.toNat / 64 < datasetItemCount then
    some (lines ⟨address.toNat / 64, h.2⟩)
  else none

/-- What an iteration does behind `executeBytecode`. -/
def leave (cfg : ProgramConfiguration) (datasetOffset : UInt64) (spAddr0 spAddr1 mx ma : UInt32)
    (m : Machine (fp.unit cfg.eMask)) : Option (Loop (fp.unit cfg.eMask)) :=
  (datasetRead lines (datasetOffset + ma.toUInt64)).map fun line =>
    let r := fun i => m.r i ^^^ line i
    let f := fun i => Vec128.zip (· ^^^ ·) (m.f i) (m.e i)
    let stored := write m.scratchpad spAddr1.toNat ((List.ofFn r).flatMap fun x => le x.toNat 8)
    { machine := { m with
        r, f, scratchpad := write stored spAddr0.toNat ((List.ofFn f).flatMap Vec128.bytes) }
      mx := ma
      ma := (mx ^^^ (m.r cfg.readReg2 ^^^ m.r cfg.readReg3).toUInt32) &&& cacheLineAlignMask
      spAddr0 := 0
      spAddr1 := 0 }

variable (fuel : Nat) (bytecode : List InstructionByteCode)

/-- An iteration; none if the bytecode takes more than the given number of tests, or a line is
read that the data set does not have. -/
def iteration (cfg : ProgramConfiguration) (datasetOffset : UInt64)
    (s : Loop (fp.unit cfg.eMask)) : Option (Loop (fp.unit cfg.eMask)) :=
  let spMix := s.machine.r cfg.readReg0 ^^^ s.machine.r cfg.readReg1
  let spAddr0 := (s.spAddr0 ^^^ spMix.toUInt32) &&& scratchpadL3Mask64 config.toConfig
  let spAddr1 := (s.spAddr1 ^^^ (spMix >>> 32).toUInt32) &&& scratchpadL3Mask64 config.toConfig
  (executeBytecode config.toConfig bytecode fuel
    (enter _ spAddr0.toNat spAddr1.toNat s.machine)).bind fun x =>
      leave fp lines cfg datasetOffset spAddr0 spAddr1 s.mx s.ma x.2

/-- The state in which the loop begins. What `nreg.f` and `nreg.e` hold then is not defined; the
first iteration sets them. -/
def start (cfg : ProgramConfiguration) (vm : Vm) : Loop (fp.unit cfg.eMask) where
  machine :=
    { r := fun _ => 0, f := vm.reg.f, e := vm.reg.e, a := vm.reg.a
      scratchpad := vm.scratchpad, mode := vm.mode }
  mx := vm.mx
  ma := vm.ma
  spAddr0 := vm.mx
  spAddr1 := vm.ma

/-- The register file and the rest of the machine, as the loop leaves them. -/
def finish (cfg : ProgramConfiguration) (x : Vm × Loop (fp.unit cfg.eMask)) : Vm :=
  { x.1 with
    reg := { r := x.2.machine.r, f := x.2.machine.f, e := x.2.machine.e, a := x.1.reg.a }
    mx := x.2.mx
    ma := x.2.ma
    scratchpad := x.2.machine.scratchpad
    mode := x.2.machine.mode }

/-- `execute`. -/
def execute (vm : Vm) : Option Vm :=
  (compileProgram (programOf config.toConfig vm.program)).bind fun x =>
    ((rounds (iteration config fp lines fuel x.1 vm.config vm.datasetOffset)
      config.programIterations.toNat (start fp vm.config vm)).map fun s => (vm, s)).map
        (finish fp vm.config)

variable (t : Sboxes) (softAes : Fin 3)

/-- `run`. -/
def run (seed : Lanes) (vm : Vm) : Option Vm :=
  execute config fp lines fuel (initializeVm (generateProgram t softAes config seed vm))

end Execute

section Fill

variable {t : Sboxes} {softAes : Fin 3} {key : Fin 8 → Block} {config : Config} {m m' : Memory}

theorem store_covers (s : Lanes) {p : Nat} (h : ∀ a < p, m a = m' a) :
    ∀ a < p + 64, s.store m p a = s.store m' p a := by
  intro a ha
  unfold Lanes.store write
  split
  · exact h a ‹_›
  · have hlt : a - p < s.bytes.length := by
      rw [length_bytes]
      omega
    rw [List.getD_eq_getElem _ _ hlt, List.getD_eq_getElem _ _ hlt]

/-- The same state of the filling, and the same bytes below `p`. -/
def Agree (p : Nat) (x y : Lanes × Memory) : Prop := x.1 = y.1 ∧ ∀ a < p, x.2 a = y.2 a

/-- What a loop fills does not depend on what was there. -/
theorem strided_agree {body : Nat → Lanes × Memory → Lanes × Memory} {p n : Nat}
    {x y : Lanes × Memory} (hbody : ∀ p x y, Agree p x y → Agree (p + 64) (body p x) (body p y))
    (h : Agree p x y) : Agree n (strided 64 body n p x).2 (strided 64 body n p y).2 := by
  have hrelated := strided_related (w := 64) (q := n) h fun p x y _ => hbody p x y
  exact ⟨hrelated.2.1, fun a ha => hrelated.2.2 a (ha.trans_le le_strided)⟩

theorem fillMasked_agree {p : Nat} {x y : Lanes × Memory} (h : Agree p x y) :
    Agree (p + 64) (fillMasked t softAes key p x) (fillMasked t softAes key p y) := by
  obtain ⟨hstate, hmemory⟩ := h
  unfold fillMasked
  rw [hstate]
  exact ⟨rfl, store_covers _ hmemory⟩

theorem fillAes4Rx4_covers (state : Lanes) (n : Nat) (m m' : Memory) :
    ∀ a < n, fillAes4Rx4 t softAes key state n m a = fillAes4Rx4 t softAes key state n m' a := by
  unfold fillAes4Rx4
  refine (strided_agree (fun _ _ _ => fillMasked_agree) ⟨?_, ?_⟩).2
  · rfl
  · exact store_covers _ (store_covers _ fun a ha => absurd ha (Nat.not_lt_zero a))

theorem fillAes4Rx4_eq (h : Exact t) (softAes : Fin 3) :
    fillAes4Rx4 t softAes = fillAes4Rx4 t 0 := by
  unfold fillAes4Rx4 fillMasked transform
  rw [fillRound_eq h]

theorem getEntropy_congr {i : Nat} (h : ∀ a < 128, m a = m' a) (hi : i < 16) :
    getEntropy m i = getEntropy m' i := by
  rw [getEntropy, read_congr fun a _ ha => h a (by omega), getEntropy]

theorem instruction_congr {pc : Nat}
    (h : ∀ k < 8, m (128 + 8 * pc + k) = m' (128 + 8 * pc + k)) :
    instruction m pc = instruction m' pc := by
  have hread : read m (128 + 8 * pc + 4) 4 = read m' (128 + 8 * pc + 4) 4 :=
    read_congr fun a _ _ => by
      obtain ⟨k, rfl⟩ := Nat.exists_eq_add_of_le (show 128 + 8 * pc ≤ a by omega)
      exact h k (by omega)
  have hopcode : m (128 + 8 * pc) = m' (128 + 8 * pc) := h 0 (by decide)
  simp only [instruction, hread, hopcode, h 1 (by decide), h 2 (by decide), h 3 (by decide)]

theorem programOf_congr (h : ∀ a < 128 + config.programSize * 8, m a = m' a) :
    programOf config m = programOf config m' := by
  unfold programOf
  congr 1
  refine List.map_congr_left fun pc hpc => instruction_congr fun k hk => h _ ?_
  have := List.mem_range.mp hpc
  omega

end Fill

section Addresses

/-- The start of a line of the data set. -/
def Aligned (address : Nat) (lines : Nat) : Prop := address % 64 = 0 ∧ address / 64 < lines

theorem and_mask32_le (x mask : UInt32) : (x &&& mask).toNat ≤ mask.toNat := by
  rw [UInt32.toNat_and]
  exact Nat.and_le_right

theorem aligned_mask (x : UInt32) : Aligned (x &&& cacheLineAlignMask).toNat 33554432 := by
  have hle : (x &&& cacheLineAlignMask).toNat ≤ 0x7FFFFFC0 := and_mask32_le x _
  have hmod : (x &&& cacheLineAlignMask).toNat % 2 ^ 6 = 0 := by
    rw [UInt32.toNat_and, Nat.and_mod_two_pow]
    exact Nat.and_zero _
  exact ⟨hmod, by omega⟩

theorem aligned_offset (x : UInt64) :
    Aligned (x % (datasetExtraItems + 1) * 64).toNat 524288 := by
  have hlt : x.toNat % 524288 < 524288 := Nat.mod_lt _ (by decide)
  have hvalue : (x % (datasetExtraItems + 1) * 64).toNat = x.toNat % 524288 * 64 := by
    rw [UInt64.toNat_mul, UInt64.toNat_mod]
    change x.toNat % 524288 * 64 % 2 ^ 64 = _
    omega
  unfold Aligned
  omega

variable (lines : Fin datasetItemCount → Fin 8 → UInt64)

/-- The data set has every line that is read. -/
theorem datasetRead_line {offset : UInt64} {ma : UInt32} (ho : Aligned offset.toNat 524288)
    (hma : Aligned ma.toNat 33554432) :
    ∃ line, datasetRead lines (offset + ma.toUInt64) = some line := by
  obtain ⟨ho, hoffset⟩ := ho
  obtain ⟨hma, hline⟩ := hma
  have hvalue : (offset + ma.toUInt64).toNat = offset.toNat + ma.toNat := by
    rw [UInt64.toNat_add, UInt32.toNat_toUInt64]
    omega
  unfold datasetRead
  rw [dif_pos ⟨by omega, by
    change _ < 34078719
    omega⟩]
  exact ⟨_, rfl⟩

theorem mask64_inside {config : Config} (h : config.Sized) (x : UInt32) :
    (x &&& scratchpadL3Mask64 config).toNat + 64 ≤ config.scratchpadL3Size.toNat := by
  have hsize := Nat.le_of_dvd h.l3.1 h.l3.2
  have hdiv : (config.scratchpadL3Size / 8 / 8).toNat = config.scratchpadL3Size.toNat / 8 / 8 := by
    rw [UInt32.toNat_div, UInt32.toNat_div]
    rfl
  have hone : (1 : UInt32) ≤ config.scratchpadL3Size / 8 / 8 := by
    rw [UInt32.le_iff_toNat_le, hdiv]
    change 1 ≤ _
    omega
  have hlines : (config.scratchpadL3Size / 8 / 8).toNat * 64 ≤ config.scratchpadL3Size.toNat := by
    omega
  exact (Nat.add_le_add_right (and_mask32_le x _) 64).trans (mask_le hone hlines)

end Addresses

section Iteration

variable {v : VectorUnit} {n : Nat}

/-- The loop without the scratchpad. -/
def Loop.view (v : VectorUnit) : View (Loop v) (Loop v) where
  rest s := { s with machine := (Machine.view v).rest s.machine }
  memory s := s.machine.scratchpad

/-- What an iteration goes on from. -/
structure Entry (v : VectorUnit) where
  r : Fin 8 → UInt64
  a : Fin 4 → v.Vec
  mode : UInt32
  pc : Int
  mx : UInt32
  ma : UInt32
  spAddr0 : UInt32
  spAddr1 : UInt32

def Loop.entry (v : VectorUnit) : View (Loop v) (Entry v) where
  rest s :=
    { r := s.machine.r, a := s.machine.a, mode := s.machine.mode, pc := s.machine.pc
      mx := s.mx, ma := s.ma, spAddr0 := s.spAddr0, spAddr1 := s.spAddr1 }
  memory s := s.machine.scratchpad

theorem Loop.entry_of_same {s t : Loop v} (h : (Loop.view v).Same n s t) :
    (Loop.entry v).Same n s t := by
  have hrest := congrArg (Loop.entry v).rest h.1
  exact ⟨hrest, h.2⟩

theorem confined_enter {spAddr0 spAddr1 : Nat} (h0 : spAddr0 + 64 ≤ n) (h1 : spAddr1 + 64 ≤ n) :
    Confined (Loop.entry v) (Machine.view v) n
      fun s => some (enter v spAddr0 spAddr1 s.machine) := by
  refine .some (fun s t h => ⟨?_, h.2⟩) fun _ _ _ => rfl
  have hread (p : Nat) (hp : p + 8 ≤ n) :
      read s.machine.scratchpad p 8 = read t.machine.scratchpad p 8 :=
    read_congr fun a _ ha => h.2 a (by omega)
  obtain ⟨hr, ha, hmode, hpc, -⟩ := Entry.mk.inj h.1
  change Machine.mk _ _ _ _ _ _ _ = Machine.mk _ _ _ _ _ _ _
  refine (Machine.mk.injEq ..).mpr ⟨funext fun i => ?_, funext fun i => ?_, funext fun i => ?_,
    ha, rfl, hmode, hpc⟩
  · have hi := i.isLt
    dsimp only [enter]
    rw [hread _ (by omega), hr]
  · have hi := i.isLt
    dsimp only [enter]
    rw [hread _ (by omega)]
  · have hi := i.isLt
    dsimp only [enter]
    rw [hread _ (by omega)]

variable {config : VmConfig} {fp : FloatArithmetic} {lines : Fin datasetItemCount → Fin 8 → UInt64}
  {fuel : Nat} {bytecode : List InstructionByteCode} {cfg : ProgramConfiguration}
  {datasetOffset : UInt64}

theorem length_words (r : Fin 8 → UInt64) :
    ((List.ofFn r).flatMap fun x => le x.toNat 8).length = 64 := by
  simp

theorem length_vectors (f : Fin 4 → Vec128) :
    ((List.ofFn f).flatMap Vec128.bytes).length = 64 := by
  simp

theorem confined_leave {spAddr0 spAddr1 mx ma : UInt32} (h0 : spAddr0.toNat + 64 ≤ n)
    (h1 : spAddr1.toNat + 64 ≤ n) :
    Confined (visitedView (fp.unit cfg.eMask)) (Loop.view (fp.unit cfg.eMask)) n
      fun x => leave fp lines cfg datasetOffset spAddr0 spAddr1 mx ma x.2 := by
  unfold leave
  cases datasetRead lines (datasetOffset + ma.toUInt64) with
  | none => exact .none
  | some line =>
    refine .some (fun x y h => ?_) fun x a ha => ?_
    · obtain ⟨-, hrest⟩ := Prod.mk.inj h.1
      rw [Machine.eq_of_same ⟨hrest, h.2⟩]
      exact ⟨rfl, write_congr (write_congr h.2)⟩
    · refine (write_above ?_).trans (write_above ?_)
      · rw [length_vectors]
        omega
      · rw [length_words]
        omega

theorem confined_iteration (h : config.Sized)
    (hin : ∀ ibc ∈ bytecode, Inside config.scratchpadL3Size.toNat ibc) :
    Confined (Loop.entry (fp.unit cfg.eMask)) (Loop.view (fp.unit cfg.eMask))
      config.scratchpadL3Size.toNat
      (iteration config fp lines fuel bytecode cfg datasetOffset) := by
  refine (Confined.dependent (v := Loop.entry (fp.unit cfg.eMask)) (f := fun rest s =>
    let spMix := rest.r cfg.readReg0 ^^^ rest.r cfg.readReg1
    let spAddr0 := (rest.spAddr0 ^^^ spMix.toUInt32) &&& scratchpadL3Mask64 config.toConfig
    let spAddr1 := (rest.spAddr1 ^^^ (spMix >>> 32).toUInt32) &&& scratchpadL3Mask64 config.toConfig
    (executeBytecode config.toConfig bytecode fuel
      (enter _ spAddr0.toNat spAddr1.toNat s.machine)).bind fun x =>
        leave fp lines cfg datasetOffset spAddr0 spAddr1 rest.mx rest.ma x.2)
    fun rest => ?_).congr fun _ => rfl
  have h0 := mask64_inside h
  exact (((confined_enter (h0 _) (h0 _)).bind (confined_executeBytecode hin fuel)).bind
    (confined_leave (h0 _) (h0 _))).congr fun _ => rfl

theorem iteration_total {program : Program config.toConfig} {s : Loop (fp.unit cfg.eMask)}
    (ho : Aligned datasetOffset.toNat 524288) (hma : Aligned s.ma.toNat 33554432) :
    ∃ t, iteration config fp lines (3 * config.programSize + 1)
      (compiled config.toConfig 0 beginCompilation program.instructions).1 cfg datasetOffset s =
        some t ∧ Aligned t.ma.toNat 33554432 := by
  obtain ⟨line, hline⟩ := datasetRead_line lines ho hma
  unfold iteration
  dsimp only
  obtain ⟨x, hx⟩ := executeBytecode_total program (enter (fp.unit cfg.eMask) _ _ s.machine)
  rw [hx, Option.bind_some, leave, hline]
  exact ⟨_, rfl, aligned_mask _⟩

end Iteration

section Run

variable {config : VmConfig} {fp : FloatArithmetic} {lines : Fin datasetItemCount → Fin 8 → UInt64}
  {fuel n : Nat} {t : Sboxes} {softAes : Fin 3}

/-- What `execute` takes from the virtual machine. -/
structure Prepared (config : Config) where
  program : Program config
  a : Fin 4 → Vec128
  config : ProgramConfiguration
  mx : UInt32
  ma : UInt32
  datasetOffset : UInt64
  mode : UInt32

/-- What `execute` takes besides the scratchpad. -/
def Vm.prepared (config : Config) : View Vm (Prepared config) where
  rest vm :=
    { program := programOf config vm.program, a := vm.reg.a, config := vm.config, mx := vm.mx
      ma := vm.ma, datasetOffset := vm.datasetOffset, mode := vm.mode }
  memory vm := vm.scratchpad

/-- What `run` takes besides the seed and the scratchpad. -/
def Vm.before : View Vm UInt32 where
  rest vm := vm.mode
  memory vm := vm.scratchpad

/-- What `run` leaves, but for the buffer of the program. -/
def Vm.after : View Vm Vm where
  rest vm := { vm with program := fun _ => 0, scratchpad := fun _ => 0 }
  memory vm := vm.scratchpad

theorem prepared_initializeVm {config : Config} {vm vm' : Vm}
    (h : ∀ a < 128 + config.programSize * 8, vm.program a = vm'.program a)
    (hmode : vm.mode = vm'.mode) :
    (Vm.prepared config).rest (initializeVm vm) = (Vm.prepared config).rest (initializeVm vm') := by
  have hentropy (i : Nat) (hi : i < 16) : getEntropy vm.program i = getEntropy vm'.program i :=
    getEntropy_congr (fun a ha => h a (by omega)) hi
  have hsmall (i : Fin 4) : getEntropy vm.program (2 * i) = getEntropy vm'.program (2 * i) ∧
      getEntropy vm.program (2 * i + 1) = getEntropy vm'.program (2 * i + 1) :=
    ⟨hentropy _ (by omega), hentropy _ (by omega)⟩
  dsimp only [Vm.prepared, initializeVm]
  simp only [hmode, programOf_congr h, hsmall, hentropy 8 (by decide), hentropy 10 (by decide),
    hentropy 12 (by decide), hentropy 13 (by decide), hentropy 14 (by decide),
    hentropy 15 (by decide)]

theorem confined_prepare (config : VmConfig) (seed : Lanes) :
    Confined Vm.before (Vm.prepared config.toConfig) n
      fun vm => some (initializeVm (generateProgram t softAes config seed vm)) := by
  refine .some (fun vm vm' h => ⟨prepared_initializeVm ?_ h.1, h.2⟩) fun _ _ _ => rfl
  exact fillAes4Rx4_covers seed _ vm.program vm'.program

theorem confined_execute (h : config.Sized) (hiterations : 0 < config.programIterations.toNat) :
    Confined (Vm.prepared config.toConfig) Vm.after config.scratchpadL3Size.toNat
      (execute config fp lines fuel) := by
  refine (Confined.dependent (v := Vm.prepared config.toConfig) (f := fun rest vm =>
    (compileProgram rest.program).bind fun x =>
      ((rounds (iteration config fp lines fuel x.1 rest.config rest.datasetOffset)
        config.programIterations.toNat (start fp rest.config vm)).map fun s => (vm, s)).map
          (finish fp rest.config)) fun rest => ?_).congr fun _ => rfl
  rw [compileProgram, compileFrom_eq]
  have hiteration : Confined (Loop.entry (fp.unit rest.config.eMask)) (Loop.view _)
      config.scratchpadL3Size.toNat (iteration config fp lines fuel
        (compiled config.toConfig 0 beginCompilation rest.program.instructions).1 rest.config
        rest.datasetOffset) :=
    confined_iteration h (inside_compiled h rest.program.instructions)
  obtain ⟨count, hcount⟩ := Nat.exists_eq_succ_of_ne_zero (Nat.ne_of_gt hiterations)
  have hloop := hiteration.bind ((hiteration.of_same (fun _ _ => Loop.entry_of_same)
    fun _ => rfl).rounds count)
  have hstart : Confined (Vm.prepared config.toConfig) (Loop.entry (fp.unit rest.config.eMask))
      config.scratchpadL3Size.toNat fun vm => some (start fp rest.config vm) := by
    refine .some (fun vm vm' hsame => ⟨?_, hsame.2⟩) fun _ _ _ => rfl
    obtain ⟨-, ha, -, hmx, hma, -, hmode⟩ := Prepared.mk.inj hsame.1
    change Entry.mk _ _ _ _ _ _ _ _ = Entry.mk _ _ _ _ _ _ _ _
    dsimp only [start]
    rw [ha, hmx, hma, hmode]
  have hfinish : Confined
      ((Vm.prepared config.toConfig).pair (Loop.view (fp.unit rest.config.eMask)))
      Vm.after config.scratchpadL3Size.toNat fun x => some (finish fp rest.config x) := by
    refine .some (fun x y hsame => ⟨?_, hsame.2⟩) fun _ _ _ => rfl
    obtain ⟨hprepared, hview⟩ := Prod.mk.inj hsame.1
    obtain ⟨-, ha, hconfig, -, -, hoffset, -⟩ := Prepared.mk.inj hprepared
    obtain ⟨hmachine, hmx, hma, -, -⟩ := Loop.mk.inj hview
    obtain ⟨hr, hf, he, -, -, hmode, -⟩ := Machine.mk.inj hmachine
    change Vm.mk _ _ _ _ _ _ _ _ = Vm.mk _ _ _ _ _ _ _ _
    dsimp only [finish]
    rw [ha, hconfig, hoffset, hmx, hma, hr, hf, he, hmode]
  rw [hcount]
  exact ((hstart.bind hloop).pair.bind hfinish).congr fun vm => Option.map_eq_bind ..

theorem execute_total {vm : Vm} (ho : Aligned vm.datasetOffset.toNat 524288)
    (hma : Aligned vm.ma.toNat 33554432) :
    ∃ vm', execute config fp lines (3 * config.programSize + 1) vm = some vm' := by
  obtain ⟨s, hs, -⟩ := rounds_total
    (f := iteration config fp lines (3 * config.programSize + 1)
      (compiled config.toConfig 0 beginCompilation
        (programOf config.toConfig vm.program).instructions).1 vm.config vm.datasetOffset)
    (fun s hs => iteration_total ho hs) config.programIterations.toNat
    (s := start fp vm.config vm) hma
  unfold execute
  rw [compileProgram, compileFrom_eq, Option.bind_some, hs]
  exact ⟨_, rfl⟩

/-- Every implementation of AES makes the same programs. -/
theorem run_eq (h : Exact t) (softAes : Fin 3) :
    run config fp lines fuel t softAes = run config fp lines fuel t 0 := by
  unfold run generateProgram
  rw [fillAes4Rx4_eq h]

theorem run_total (vm : Vm) (seed : Lanes) :
    ∃ vm', run config fp lines (3 * config.programSize + 1) t softAes seed vm = some vm' :=
  execute_total (aligned_offset _) (aligned_mask _)

theorem confined_run (h : config.Sized) (hiterations : 0 < config.programIterations.toNat)
    (seed : Lanes) :
    Confined Vm.before Vm.after config.scratchpadL3Size.toNat
      (run config fp lines fuel t softAes seed) :=
  ((confined_prepare config seed).bind (confined_execute h hiterations)).congr fun _ => rfl

end Run

/-- A run comes to its end whatever the virtual machine did before, within the bytes of the
scratchpad and the lines of the data set, and what it leaves depends on nothing but the seed, the
scratchpad and the rounding mode. -/
theorem run_confined {config : VmConfig} (h : config.Sized)
    (hiterations : 0 < config.programIterations.toNat) (fp : FloatArithmetic)
    (lines : Fin datasetItemCount → Fin 8 → UInt64) (t : Sboxes) (softAes : Fin 3) (seed : Lanes) :
    (∀ vm, ∃ vm', run config fp lines (3 * config.programSize + 1) t softAes seed vm = some vm') ∧
      Confined Vm.before Vm.after config.scratchpadL3Size.toNat
        (run config fp lines (3 * config.programSize + 1) t softAes seed) :=
  ⟨fun vm => run_total vm seed, confined_run h hiterations seed⟩

theorem sized_monero : VmConfig.monero.Sized where
  l1 := by decide
  l2 := by decide
  l3 := by decide

theorem run_confined_monero : VmConfig.monero.Sized ∧ ∀ fp lines t softAes seed,
    (∀ vm, ∃ vm', run VmConfig.monero fp lines (3 * 256 + 1) t softAes seed vm = some vm') ∧
      Confined Vm.before Vm.after 2097152
        (run VmConfig.monero fp lines (3 * 256 + 1) t softAes seed) :=
  ⟨sized_monero, fun fp lines t softAes seed =>
    run_confined sized_monero (by decide) fp lines t softAes seed⟩

end VeloxHash.InterpretedVm
