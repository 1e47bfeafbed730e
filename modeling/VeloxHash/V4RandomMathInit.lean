import VeloxHash.V4RandomMath
import VeloxHash.HashedStream
import Mathlib.Tactic

/-! The generator of random math: instructions drawn from a stream of bytes as long as an abstract
processor has an idle unit for them in time, then fillers for a processor with units enough, and
all of it again while the result is refused. -/

namespace VeloxHash.V4RandomMathInit

open V4RandomMath Checked HashedStream

/-- The bytes in hand. -/
abbrev Source := Stream 32

section Tables

def opLatency : Table 6 Nat := .ofList [3, 2, 1, 2, 2, 1] 0

def asicOpLatency : Table 6 Nat := .ofList [3, 1, 1, 1, 1, 1] 0

def opALUs : Table 6 Nat :=
  .ofList [aluCountMul, aluCount, aluCount, aluCount, aluCount, aluCount] 0

def isRotation : Table 6 Bool := .ofList [false, false, false, true, true, false] false

end Tables

/-- The variables of one turn of the outer loop. -/
structure State where
  source : Source
  latency : Table 9 Nat
  asicLatency : Table 9 Nat
  /-- For each register the number of its last instruction, the opcode, and the number of the
  instruction that had made the source. -/
  instData : Table 9 Nat
  aluBusy : Table (totalLatency + 1) (Table aluCount Bool)
  rotated : Table 4 Bool
  rotateCount : Nat
  numRetries : Nat
  code : List V4Instruction
  r8Used : Bool

def start (source : Source) : State where
  source := source
  latency := .filled 9 0
  asicLatency := .filled 9 0
  instData := .ofList [0, 1, 2, 3, 0xFFFFFF, 0xFFFFFF, 0xFFFFFF, 0xFFFFFF, 0xFFFFFF] 0
  aluBusy := .filled _ (.filled _ false)
  rotated := .filled 4 false
  rotateCount := 0
  numRetries := 0
  code := []
  r8Used := false

section Units

variable (s : State) (opcode : Opcode)

/-- An `ADD` takes two cycles of a unit. -/
def busyAfter (cycle i : Nat) : Option Bool :=
  if opcode = .add then do
    let row ← s.aluBusy.read (cycle + 1)
    row.read i
  else some false

/-- The last unit that can start the instruction in this cycle. A rotation waits for the rotations
before it. -/
def freeAlu (cycle : Nat) : Nat → Option (Option Nat)
  | 0 => some none
  | i + 1 => do
    let row ← s.aluBusy.read cycle
    let busy ← row.read i
    if busy then freeAlu cycle i
    else do
      let busyNext ← busyAfter s opcode cycle i
      if busyNext then freeAlu cycle i
      else do
        let rotation ← isRotation.read opcode.toNat
        let latency ← opLatency.read opcode.toNat
        if rotation && decide (cycle < s.rotateCount * latency) then freeAlu cycle i
        else some (some i)

/-- The first cycle with such a unit, and the unit. -/
def findAlu (alus cycle : Nat) : Option (Nat × Option Nat) :=
  if cycle < totalLatency then do
    match ← freeAlu s opcode cycle alus with
    | some i => return (cycle, some i)
    | none => findAlu alus (cycle + 1)
  else some (cycle, none)
termination_by totalLatency - cycle

end Units

section Turn

variable (hashExtraBlake : Nat → Table 32 UInt8 → Table 32 UInt8)

/-- Opcodes 0 to 2 are `MUL`, 6 and 7 `XOR`; the direction of a rotation is a byte of its own. -/
def drawOpcode (c : UInt8) (s : Source) : Option (Opcode × Source) :=
  let opcode := c.toNat &&& (1 <<< v4OpcodeBits - 1)
  if opcode = 5 then do
    let (direction, s) ← nextByte hashExtraBlake s
    return (if direction < 128 then .ror else .rol, s)
  else if 6 ≤ opcode then some (.xor, s)
  else if opcode ≤ 2 then some (.mul, s)
  else some (if opcode = 3 then .add else .sub, s)

def mark (aluBusy : Table (totalLatency + 1) (Table aluCount Bool)) (cycle alu : Nat) :
    Option (Table (totalLatency + 1) (Table aluCount Bool)) := do
  let row ← aluBusy.read cycle
  let row ← row.write alu true
  aluBusy.write cycle row

def markAfter (opcode : Opcode) (aluBusy : Table (totalLatency + 1) (Table aluCount Bool))
    (cycle alu : Nat) : Option (Table (totalLatency + 1) (Table aluCount Bool)) :=
  if opcode = .add then mark aluBusy cycle alu else some aluBusy

/-- The constant of an `ADD`. -/
def drawConstant (opcode : Opcode) (s : Source) : Option (UInt32 × Source) :=
  if opcode = .add then nextWord hashExtraBlake s else some (0, s)

/-- The instruction is put at the end of the code, to start in the cycle on the unit. -/
def emit (s : State) (opcode : Opcode) (a b cycle alu : Nat) : Option State := do
  let rotation ← isRotation.read opcode.toNat
  let opcodeLatency ← opLatency.read opcode.toNat
  let aluBusy ← mark s.aluBusy cycle alu
  let latency ← s.latency.write a (cycle + opcodeLatency)
  let asicA ← s.asicLatency.read a
  let asicB ← s.asicLatency.read b
  let asicOpcode ← asicOpLatency.read opcode.toNat
  let asicLatency ← s.asicLatency.write a ((if asicA > asicB then asicA else asicB) + asicOpcode)
  let rotated ← s.rotated.write a rotation
  let instB ← s.instData.read b
  let instData ← s.instData.write a
    (s.code.length + opcode.toNat <<< 8 + (instB &&& 255) <<< 16)
  let aluBusy ← markAfter opcode aluBusy (cycle + 1) alu
  let (c, source) ← drawConstant hashExtraBlake opcode s.source
  let code ← push (numInstructionsMax + 1) s.code ⟨opcode, a, b, c⟩
  return { s with
    source, latency, asicLatency, instData, aluBusy, rotated, code
    rotateCount := if rotation then s.rotateCount + 1 else s.rotateCount
    r8Used := s.r8Used || b == 8 }

/-- The tests on a drawn instruction, and its start where all are passed. The truth value says that
the code has reached its size. -/
def schedule (s : State) (opcode : Opcode) (a b : Nat) : Option (State × Bool) := do
  let rotation ← isRotation.read opcode.toNat
  let rotated ← s.rotated.read a
  if rotation && rotated then return (s, false)
  else do
    let instA ← s.instData.read a
    let instB ← s.instData.read b
    if opcode ≠ .mul ∧ instA &&& 0xFFFF00 = opcode.toNat <<< 8 + (instB &&& 255) <<< 16 then
      return (s, false)
    else do
      let latencyA ← s.latency.read a
      let latencyB ← s.latency.read b
      let alus ← opALUs.read opcode.toNat
      let (cycle, alu) ← findAlu s opcode alus (if latencyA > latencyB then latencyA else latencyB)
      if cycle > latencyA + 7 then return (s, false)
      else do
        let opcodeLatency ← opLatency.read opcode.toNat
        if cycle + opcodeLatency ≤ totalLatency then do
          let alu ← alu
          let s ← emit hashExtraBlake s opcode a b cycle alu
          return (s, decide (numInstructionsMin ≤ s.code.length))
        else return ({ s with numRetries := s.numRetries + 1 }, false)

def turn (s : State) : Option (State × Bool) := do
  let (c, source) ← nextByte hashExtraBlake s.source
  let (opcode, source) ← drawOpcode hashExtraBlake c source
  let a := c.toNat >>> v4OpcodeBits &&& (1 <<< v4DstIndexBits - 1)
  let b := c.toNat >>> (v4OpcodeBits + v4DstIndexBits) &&& (1 <<< v4SrcIndexBits - 1)
  schedule hashExtraBlake { s with source } opcode a (if opcode.IsLinear ∧ a = b then 8 else b)

end Turn

section Phases

variable (hashExtraBlake : Nat → Table 32 UInt8 → Table 32 UInt8)

def unfinished (latency : Table 9 Nat) : Option Bool := do
  let l0 ← latency.read 0
  let l1 ← latency.read 1
  let l2 ← latency.read 2
  let l3 ← latency.read 3
  return decide (l0 < totalLatency ∨ l1 < totalLatency ∨ l2 < totalLatency ∨ l3 < totalLatency)

/-- The first loop; no turns are left at its fail-safe. -/
def randomPhase : Nat → State → Option State
  | 0, s => some s
  | turns + 1, s => do
    let more ← unfinished s.latency
    if more && decide (s.numRetries < 64) then do
      let (s, full) ← turn hashExtraBlake s
      if full then return s else randomPhase turns s
    else return s

/-- The registers of the least and the greatest latency. -/
def extremes (t : Table 9 Nat) : Option (Nat × Nat) :=
  [1, 2, 3].foldlM (fun (m : Nat × Nat) i => do
    let l ← t.read i
    let least ← t.read m.1
    let greatest ← t.read m.2
    return (if l < least then i else m.1, if l > greatest then i else m.2)) (0, 0)

def tooFast (asicLatency : Table 9 Nat) : Option Bool := do
  let l0 ← asicLatency.read 0
  let l1 ← asicLatency.read 1
  let l2 ← asicLatency.read 2
  let l3 ← asicLatency.read 3
  return decide (l0 < totalLatency ∧ l1 < totalLatency ∧ l2 < totalLatency ∧ l3 < totalLatency)

def fillerPattern : List Opcode := [.ror, .mul, .mul]

def filler (prevCodeSize : Nat) (s : State) : Option State := do
  let (minIdx, maxIdx) ← extremes s.asicLatency
  let opcode ← fillerPattern[(s.code.length - prevCodeSize) % 3]?
  let opcodeLatency ← opLatency.read opcode.toNat
  let l ← s.latency.read maxIdx
  let latency ← s.latency.write minIdx (l + opcodeLatency)
  let asicOpcode ← asicOpLatency.read opcode.toNat
  let asicMax ← s.asicLatency.read maxIdx
  let asicLatency ← s.asicLatency.write minIdx (asicMax + asicOpcode)
  let code ← push (numInstructionsMax + 1) s.code ⟨opcode, minIdx, maxIdx, 0⟩
  return { s with latency, asicLatency, code }

/-- The second loop, with no result should it take more turns than it is given. -/
def fillerPhase (prevCodeSize : Nat) : Nat → State → Option State
  | 0, _ => none
  | turns + 1, s => do
    if s.code.length < numInstructionsMax then do
      let fast ← tooFast s.asicLatency
      if fast then do
        let s ← filler prevCodeSize s
        fillerPhase prevCodeSize turns s
      else return s
    else return s

/-- One turn of the outer loop, with the size of the code after the first phase. -/
def attempt (source : Source) : Option (Nat × State) := do
  let s ← randomPhase hashExtraBlake 256 (start source)
  let t ← fillerPhase s.code.length (numInstructionsMax + 1) s
  return (s.code.length, t)

def Refused (s : State) : Prop :=
  s.r8Used = false ∨ s.code.length < numInstructionsMin ∨ numInstructionsMax < s.code.length

instance : DecidablePred Refused := fun _ => inferInstanceAs (Decidable (_ ∨ _))

def attempts : Nat → Source → Option (Option (Nat × List V4Instruction))
  | 0, _ => some none
  | n + 1, source => do
    let (prevCodeSize, s) ← attempt hashExtraBlake source
    if Refused s then attempts n s.source
    else do
      let code ← push (numInstructionsMax + 1) s.code ⟨.ret, 0, 0, 0⟩
      return some (prevCodeSize, code)

def seedData (cnR : Bool) (height : UInt64) : Table 32 UInt8 where
  cell i := if i < 8 then (height >>> (8 * .ofNat i)).toUInt8
    else if cnR ∧ i = 20 then 218 else 0

/-- The program with the size of its first phase. There is none as long as every attempt of this
many is refused, and the outer value is missing if an index was out of bounds. -/
def v4RandomMathInit (cnR : Bool) (height : UInt64) (n : Nat) :
    Option (Option (Nat × List V4Instruction)) :=
  attempts hashExtraBlake n ⟨seedData cnR height, 32, 0⟩

end Phases

section Facts

theorem opcode_lt {o : Opcode} (h : o ≠ .ret) : o.toNat < 6 := by
  cases o with
  | ret => exact absurd rfl h
  | _ => decide

/-- The tables of an instruction: its cycles and its units. -/
theorem tables {o : Opcode} (h : o ≠ .ret) :
    1 ≤ opLatency.cell o.toNat ∧ opALUs.cell o.toNat ≤ aluCount ∧
      (isRotation.cell o.toNat = true ↔ o.IsRotation) := by
  cases o with
  | ret => exact absurd rfl h
  | _ => decide

theorem masked_lt (x k : Nat) : x &&& (1 <<< k - 1) < 2 ^ k := by
  rw [Nat.one_shiftLeft]
  exact Nat.and_lt_two_pow x (Nat.sub_lt (Nat.two_pow_pos k) Nat.one_pos)

end Facts

section BytesSpec

variable {hashExtraBlake : Nat → Table 32 UInt8 → Table 32 UInt8} {s : Source}

theorem drawOpcode_spec (c : UInt8) (hs : s.dataIndex ≤ 32) :
    Ensures (drawOpcode hashExtraBlake c s) fun r => r.1 ≠ .ret ∧ r.2.dataIndex ≤ 32 := by
  unfold drawOpcode
  dsimp only
  split
  · refine (nextByte_spec (by decide)).bind fun r hr => ?_
    rw [ensures_pure]
    exact ⟨by dsimp only; split <;> decide, hr⟩
  · split
    · exact (ensures_some _ _).mpr ⟨nofun, hs⟩
    · split
      · exact (ensures_some _ _).mpr ⟨nofun, hs⟩
      · refine (ensures_some _ _).mpr ⟨?_, hs⟩
        dsimp only
        split <;> decide

end BytesSpec

section UnitsSpec

variable {s : State} {opcode : Opcode}

theorem freeAlu_spec (hopcode : opcode ≠ .ret) {cycle : Nat} (hcycle : cycle < totalLatency) (n : Nat)
    (hn : n ≤ aluCount) :
    Ensures (freeAlu s opcode cycle n) fun r => ∀ i, r = some i → i < aluCount := by
  induction n with
  | zero => exact (ensures_some _ _).mpr nofun
  | succ n ih =>
    have hrest := ih (Nat.le_of_succ_le hn)
    have hlt := opcode_lt hopcode
    rw [freeAlu]
    simp only [ensures_bind, Table.ensures_read]
    refine ⟨Nat.lt_succ_of_lt hcycle, hn, ?_⟩
    refine ensures_ite (fun _ => hrest) fun _ => ?_
    have hnext : Ensures (busyAfter s opcode cycle n) fun _ => True := by
      refine ensures_ite (fun _ => ?_) fun _ => (ensures_some _ _).mpr trivial
      simp only [ensures_bind, Table.ensures_read]
      exact ⟨Nat.succ_lt_succ hcycle, hn, trivial⟩
    refine hnext.bind fun busyNext _ => ?_
    refine ensures_ite (fun _ => hrest) fun _ => ?_
    simp only [ensures_bind, Table.ensures_read]
    refine ⟨hlt, hlt, ensures_ite (fun _ => hrest) fun _ => (ensures_some _ _).mpr ?_⟩
    rintro i ⟨⟩
    exact hn

/-- Without a unit the search has run to the last cycle. -/
theorem findAlu_spec (hopcode : opcode ≠ .ret) {alus : Nat} (halus : alus ≤ aluCount) (cycle : Nat) :
    Ensures (findAlu s opcode alus cycle) fun r =>
      cycle ≤ r.1 ∧ (r.1 < totalLatency → ∃ i < aluCount, r.2 = some i) := by
  fun_induction findAlu s opcode alus cycle with
  | case1 cycle hcycle ih =>
    refine (freeAlu_spec hopcode hcycle alus halus).bind fun r hr => ?_
    cases r with
    | some i => exact (ensures_pure _ _).mpr ⟨le_rfl, fun _ => ⟨i, hr i rfl, rfl⟩⟩
    | none => exact ih.mono fun r h => ⟨Nat.le_of_succ_le h.1, h.2⟩
  | case2 cycle hcycle =>
    exact (ensures_some _ _).mpr ⟨le_rfl, fun h => absurd h hcycle⟩

end UnitsSpec

section Invariant

/-- The latencies of the registers on a processor with units enough. -/
def latencies (code : List V4Instruction) : Nat → Nat :=
  code.foldl (fun l x => Function.update l x.dstIndex
    (max (l x.dstIndex) (l x.srcIndex) + asicOpLatency.cell x.opcode.toNat)) fun _ => 0

def onto (r : Nat) (code : List V4Instruction) : List V4Instruction :=
  code.filter (·.dstIndex = r)

/-- No rotation follows a rotation of the same register. -/
def Spaced (code : List V4Instruction) : Prop :=
  ∀ r, (onto r code).IsChain fun x y => ¬(x.opcode.IsRotation ∧ y.opcode.IsRotation)

/-- What both phases keep. -/
structure Sound (s : State) : Prop where
  source : s.source.dataIndex ≤ 32
  latencies : s.asicLatency.cell = latencies s.code
  valid : ∀ x ∈ s.code, x.Valid
  constant : s.r8Used = true → ∃ x ∈ s.code, x.srcIndex = 8

/-- What the first phase keeps besides. -/
structure Tracked (s : State) : Prop where
  spaced : Spaced s.code
  rotated : ∀ r x, (onto r s.code).getLast? = some x → x.opcode.IsRotation → s.rotated.cell r = true

theorem latencies_append (code : List V4Instruction) (x : V4Instruction) :
    latencies (code ++ [x]) = Function.update (latencies code) x.dstIndex
      (max (latencies code x.dstIndex) (latencies code x.srcIndex) +
        asicOpLatency.cell x.opcode.toNat) := by
  rw [latencies, List.foldl_append]
  rfl

theorem onto_append_self (code : List V4Instruction) (x : V4Instruction) :
    onto x.dstIndex (code ++ [x]) = onto x.dstIndex code ++ [x] := by
  simp [onto]

theorem onto_append_ne {r : Nat} (code : List V4Instruction) {x : V4Instruction}
    (h : x.dstIndex ≠ r) : onto r (code ++ [x]) = onto r code := by
  simp [onto, h]

variable {s : State}

theorem sound_start {source : Source} (h : source.dataIndex ≤ 32) : Sound (start source) where
  source := h
  latencies := rfl
  valid := nofun
  constant := nofun

theorem tracked_start (source : Source) : Tracked (start source) where
  spaced _ := .nil
  rotated := nofun

/-- An instruction at the end of the code. -/
theorem Sound.append {t : State} (h : Sound s) {x : V4Instruction} (hx : x.Valid)
    (hcode : t.code = s.code ++ [x]) (hsource : t.source.dataIndex ≤ 32)
    (hasic : t.asicLatency.cell = Function.update s.asicLatency.cell x.dstIndex
      (max (s.asicLatency.cell x.dstIndex) (s.asicLatency.cell x.srcIndex) +
        asicOpLatency.cell x.opcode.toNat))
    (hused : t.r8Used = true → s.r8Used = true ∨ x.srcIndex = 8) : Sound t where
  source := hsource
  latencies := by rw [hasic, hcode, latencies_append, h.latencies]
  valid y hy := by
    rw [hcode, List.mem_append, List.mem_singleton] at hy
    rcases hy with hy | rfl
    · exact h.valid y hy
    · exact hx
  constant hr := by
    rw [hcode]
    rcases hused hr with hs | h8
    · obtain ⟨y, hy, hy8⟩ := h.constant hs
      exact ⟨y, List.mem_append_left _ hy, hy8⟩
    · exact ⟨x, List.mem_append_right _ (List.mem_singleton_self x), h8⟩

theorem Tracked.append {t : State} (h : Tracked s) {x : V4Instruction}
    (hcode : t.code = s.code ++ [x])
    (hfree : x.opcode.IsRotation → s.rotated.cell x.dstIndex = false)
    (hrotated : t.rotated.cell =
      Function.update s.rotated.cell x.dstIndex (decide x.opcode.IsRotation)) : Tracked t where
  spaced r := by
    rw [hcode]
    by_cases hr : x.dstIndex = r
    · subst hr
      rw [onto_append_self, List.isChain_append]
      refine ⟨h.spaced _, List.isChain_singleton _, fun y hy z hz => ?_⟩
      obtain rfl : x = z := by simpa using hz
      rintro ⟨hyrot, hxrot⟩
      exact absurd (h.rotated _ y hy hyrot) (by rw [hfree hxrot]; decide)
    · rw [onto_append_ne _ hr]
      exact h.spaced r
  rotated r y hy hyrot := by
    rw [hcode] at hy
    rw [hrotated]
    by_cases hr : x.dstIndex = r
    · subst hr
      rw [onto_append_self, List.getLast?_append] at hy
      obtain rfl : x = y := by simpa using hy
      rw [Function.update_self]
      exact decide_eq_true hyrot
    · rw [onto_append_ne _ hr] at hy
      rw [Function.update_of_ne (Ne.symm hr)]
      exact h.rotated r y hy hyrot

end Invariant

section TurnSpec

variable {hashExtraBlake : Nat → Table 32 UInt8 → Table 32 UInt8} {s : State}

theorem mark_spec {aluBusy : Table (totalLatency + 1) (Table aluCount Bool)} {cycle alu : Nat}
    (hcycle : cycle ≤ totalLatency) (halu : alu < aluCount) :
    Ensures (mark aluBusy cycle alu) fun _ => True := by
  simp only [mark, ensures_bind, Table.ensures_read, Table.ensures_write]
  exact ⟨Nat.lt_succ_of_le hcycle, halu, Nat.lt_succ_of_le hcycle, trivial⟩

/-- The code has grown by the instruction. -/
theorem emit_spec (h : Sound s) (htracked : Tracked s) {opcode : Opcode} {a b cycle alu : Nat}
    (hvalid : ∀ c, V4Instruction.Valid ⟨opcode, a, b, c⟩)
    (hfree : opcode.IsRotation → s.rotated.cell a = false) (hcycle : cycle < totalLatency)
    (halu : alu < aluCount) (hroom : s.code.length ≤ numInstructionsMax) :
    Ensures (emit hashExtraBlake s opcode a b cycle alu) fun t =>
      Sound t ∧ Tracked t ∧ t.code.length = s.code.length + 1 := by
  obtain ⟨hret, hdst, hsrc, -, -⟩ := hvalid 0
  dsimp only at hret hdst hsrc
  have hlt := opcode_lt hret
  have hrotation := (tables hret).2.2
  have ha : a < 9 := by omega
  have hb : b < 9 := by omega
  have hafter {u : Table (totalLatency + 1) (Table aluCount Bool)} :
      Ensures (markAfter opcode u (cycle + 1) alu) fun _ => True :=
    ensures_ite (fun _ => mark_spec hcycle halu) fun _ => (ensures_some _ _).mpr trivial
  have hconstant : Ensures (drawConstant hashExtraBlake opcode s.source) fun r =>
      r.2.dataIndex ≤ 32 :=
    ensures_ite (fun _ => nextWord_spec (by decide)) fun _ => (ensures_some _ _).mpr h.source
  unfold emit
  simp only [ensures_bind, Table.ensures_read, Table.ensures_write, ensures_push, ensures_pure]
  refine ⟨hlt, hlt, (mark_spec hcycle.le halu).mono fun u _ => ?_⟩
  refine ⟨ha, ha, hb, hlt, ha, hdst, hb, ha, hafter.mono fun v _ => hconstant.mono fun r hr => ?_⟩
  refine ⟨Nat.lt_succ_of_le hroom, ?_, ?_, by simp⟩
  · refine h.append (hvalid r.1) rfl hr ?_ ?_
    · rw [max_comm, max_def_lt]
    · simp
  · refine htracked.append rfl hfree ?_
    dsimp only
    congr 1
    exact Bool.eq_iff_iff.mpr (hrotation.trans decide_eq_true_iff.symm)

/-- What a turn of the first loop does to a state of the loop. -/
structure Turned (s t : State) (full : Bool) : Prop where
  sound : Sound t
  tracked : Tracked t
  length : t.code.length ≤ s.code.length + 1
  full : full = true ∨ t.code.length < numInstructionsMin

theorem schedule_spec (h : Sound s) (htracked : Tracked s) (hsize : s.code.length < numInstructionsMin)
    {opcode : Opcode} {a b : Nat} (hvalid : ∀ c, V4Instruction.Valid ⟨opcode, a, b, c⟩) :
    Ensures (schedule hashExtraBlake s opcode a b) fun r => Turned s r.1 r.2 := by
  obtain ⟨hret, hdst, hsrc, -, -⟩ := hvalid 0
  dsimp only at hret hdst hsrc
  have hlt := opcode_lt hret
  obtain ⟨hlatency, halus, hrotation⟩ := tables hret
  have ha : a < 9 := by omega
  have hb : b < 9 := by omega
  have hsame (u : State) (hu : Sound u ∧ Tracked u ∧ u.code = s.code) : Turned s u false :=
    ⟨hu.1, hu.2.1, hu.2.2 ▸ Nat.le_succ _, .inr (hu.2.2 ▸ hsize)⟩
  have hkeep := hsame s ⟨h, htracked, rfl⟩
  unfold schedule
  simp only [ensures_bind, Table.ensures_read]
  refine ⟨hlt, hdst, ensures_ite (fun _ => (ensures_pure _ _).mpr hkeep) fun hfree => ?_⟩
  simp only [ensures_bind, Table.ensures_read]
  refine ⟨ha, hb, ensures_ite (fun _ => (ensures_pure _ _).mpr hkeep) fun _ => ?_⟩
  simp only [ensures_bind, Table.ensures_read]
  refine ⟨ha, hb, hlt, (findAlu_spec hret halus _).mono fun r hr => ?_⟩
  refine ensures_ite (fun _ => (ensures_pure _ _).mpr hkeep) fun _ => ?_
  simp only [ensures_bind, Table.ensures_read]
  refine ⟨hlt, ensures_ite (fun hfits => ?_) fun _ => (ensures_pure _ _).mpr (hsame _ ⟨?_, ?_, rfl⟩)⟩
  · have hcycle : r.1 < totalLatency := by omega
    obtain ⟨alu, halu, hunit⟩ := hr.2 hcycle
    rw [hunit]
    simp only [ensures_bind, ensures_some, ensures_pure]
    have hfree' (hrot : opcode.IsRotation) : s.rotated.cell a = false := by
      rw [hrotation.mpr hrot, Bool.true_and] at hfree
      exact Bool.eq_false_of_not_eq_true hfree
    have hroom : s.code.length ≤ numInstructionsMax := hsize.le.trans (by decide)
    refine (emit_spec h htracked hvalid hfree' hcycle halu hroom).mono fun t ht => ?_
    obtain ⟨hsound, htracked, hlength⟩ := ht
    refine ⟨hsound, htracked, hlength.le, ?_⟩
    rw [decide_eq_true_iff]
    exact le_or_gt _ _
  · exact ⟨h.source, h.latencies, h.valid, h.constant⟩
  · exact ⟨htracked.spaced, htracked.rotated⟩

/-- The operands of a drawn instruction. -/
theorem valid_drawn {opcode : Opcode} (hret : opcode ≠ .ret) {a b : Nat} (ha : a < 4) (hb : b < 8)
    (c : UInt32) :
    V4Instruction.Valid ⟨opcode, a, if opcode.IsLinear ∧ a = b then 8 else b, c⟩ := by
  constructor <;> dsimp only
  · exact hret
  · exact ha
  · split <;> omega
  · intro hlinear
    split
    · omega
    · rename_i hne
      exact fun hab => hne ⟨hlinear, hab.symm⟩
  · intro hlinear
    rw [if_neg fun hc => hlinear hc.1]
    exact hb

theorem turn_spec (h : Sound s) (htracked : Tracked s) (hsize : s.code.length < numInstructionsMin) :
    Ensures (turn hashExtraBlake s) fun r => Turned s r.1 r.2 := by
  unfold turn
  refine (nextByte_spec (by decide)).bind fun r hr => ?_
  refine (drawOpcode_spec r.1 hr).bind fun q hq => ?_
  obtain ⟨hret, hsource⟩ := hq
  have hsound : Sound { s with source := q.2 } := ⟨hsource, h.latencies, h.valid, h.constant⟩
  have htracked' : Tracked { s with source := q.2 } := ⟨htracked.spaced, htracked.rotated⟩
  have hvalid := valid_drawn hret (masked_lt (r.1.toNat >>> v4OpcodeBits) v4DstIndexBits)
    (masked_lt (r.1.toNat >>> (v4OpcodeBits + v4DstIndexBits)) v4SrcIndexBits)
  exact (schedule_spec hsound htracked' hsize hvalid).mono fun t ht =>
    ⟨ht.sound, ht.tracked, ht.length, ht.full⟩

end TurnSpec

section PhasesSpec

variable {hashExtraBlake : Nat → Table 32 UInt8 → Table 32 UInt8} {s : State}

theorem unfinished_spec {t : Table 9 Nat} : Ensures (unfinished t) fun _ => True := by
  simp only [unfinished, ensures_bind, Table.ensures_read, ensures_pure]
  decide

/-- The first phase leaves room for ten instructions. -/
theorem randomPhase_spec (turns : Nat) (h : Sound s) (htracked : Tracked s)
    (hsize : s.code.length < numInstructionsMin) :
    Ensures (randomPhase hashExtraBlake turns s) fun t =>
      Sound t ∧ Spaced t.code ∧ t.code.length ≤ numInstructionsMin := by
  induction turns generalizing s with
  | zero => exact (ensures_some _ _).mpr ⟨h, htracked.spaced, hsize.le⟩
  | succ turns ih =>
    rw [randomPhase]
    refine unfinished_spec.bind fun more _ => ?_
    refine ensures_ite (fun _ => ?_) fun _ => (ensures_pure _ _).mpr ⟨h, htracked.spaced, hsize.le⟩
    refine (turn_spec h htracked hsize).bind fun r hr => ?_
    refine ensures_ite (fun _ => (ensures_pure _ _).mpr ?_) fun hmore => ?_
    · exact ⟨hr.sound, hr.tracked.spaced, hr.length.trans hsize⟩
    · exact ih hr.sound hr.tracked (hr.full.resolve_left hmore)

theorem extremes_spec (t : Table 9 Nat) :
    Ensures (extremes t) fun r => r.1 < 4 ∧ r.2 < 4 ∧ t.cell r.1 ≤ t.cell r.2 := by
  have hstep (m : Nat × Nat) (i : Nat) (hi : i < 4)
      (hm : m.1 < 4 ∧ m.2 < 4 ∧ t.cell m.1 ≤ t.cell m.2) :
      Ensures (do
        let l ← t.read i
        let least ← t.read m.1
        let greatest ← t.read m.2
        return (if l < least then i else m.1, if l > greatest then i else m.2))
        fun r : Nat × Nat => r.1 < 4 ∧ r.2 < 4 ∧ t.cell r.1 ≤ t.cell r.2 := by
    simp only [ensures_bind, Table.ensures_read, ensures_pure]
    refine ⟨by omega, by omega, by omega, ?_⟩
    split <;> split <;> omega
  simp only [extremes, List.foldlM_cons, List.foldlM_nil]
  refine (hstep (0, 0) 1 (by decide) ⟨by decide, by decide, le_rfl⟩).bind fun r hr => ?_
  refine (hstep r 2 (by decide) hr).bind fun r hr => ?_
  refine (hstep r 3 (by decide) hr).bind fun r hr => ?_
  exact (ensures_pure _ _).mpr hr

theorem fillerPattern_spec (i : Nat) :
    Ensures fillerPattern[i % 3]? fun o => o = .ror ∨ o = .mul := by
  have hi := Nat.mod_lt i (show 3 > 0 by decide)
  generalize i % 3 = k at *
  interval_cases k
  · exact (ensures_some _ _).mpr (.inl rfl)
  · exact (ensures_some _ _).mpr (.inr rfl)
  · exact (ensures_some _ _).mpr (.inr rfl)

theorem filler_spec (h : Sound s) (prevCodeSize : Nat) (hroom : s.code.length < numInstructionsMax) :
    Ensures (filler prevCodeSize s) fun t => Sound t ∧ ∃ x, t.code = s.code ++ [x] := by
  unfold filler
  refine (extremes_spec s.asicLatency).bind fun r hr => ?_
  obtain ⟨hmin, hmax, hle⟩ := hr
  refine (fillerPattern_spec _).bind fun opcode hopcode => ?_
  have hret : opcode ≠ .ret := by rcases hopcode with rfl | rfl <;> decide
  have hlinear : ¬opcode.IsLinear := by rcases hopcode with rfl | rfl <;> decide
  have hlt := opcode_lt hret
  have hmin' : r.1 < 9 := by omega
  have hmax' : r.2 < 9 := by omega
  simp only [ensures_bind, Table.ensures_read, Table.ensures_write, ensures_push, ensures_pure]
  refine ⟨hlt, hmax', hmin', hlt, hmax', hmin', Nat.lt_succ_of_lt hroom, ?_, _, rfl⟩
  have hvalid : V4Instruction.Valid ⟨opcode, r.1, r.2, 0⟩ :=
    ⟨hret, hmin, by dsimp only; omega, fun hc => absurd hc hlinear, fun _ => by dsimp only; omega⟩
  refine h.append hvalid rfl h.source ?_ .inl
  dsimp only
  rw [max_eq_right hle]

theorem tooFast_spec (t : Table 9 Nat) :
    Ensures (tooFast t) fun fast => fast = true ∨ ∃ r < 4, totalLatency ≤ t.cell r := by
  simp only [tooFast, ensures_bind, Table.ensures_read, ensures_pure, decide_eq_true_iff]
  refine ⟨by decide, by decide, by decide, by decide, ?_⟩
  by_contra hslow
  push Not at hslow
  obtain ⟨hlast, hbelow⟩ := hslow
  exact absurd (hlast (hbelow 0 (by decide)) (hbelow 1 (by decide)) (hbelow 2 (by decide)))
    (not_le.mpr (hbelow 3 (by decide)))

/-- The second phase ends, with a program that is slow enough or of the greatest size. -/
theorem fillerPhase_spec (prevCodeSize turns : Nat) (h : Sound s)
    (hsize : s.code.length ≤ numInstructionsMax)
    (hturns : numInstructionsMax < s.code.length + turns) :
    Ensures (fillerPhase prevCodeSize turns s) fun t =>
      Sound t ∧ s.code <+: t.code ∧ t.code.length ≤ numInstructionsMax ∧
        (t.code.length = numInstructionsMax ∨ ∃ r < 4, totalLatency ≤ t.asicLatency.cell r) := by
  induction turns generalizing s with
  | zero => exact absurd hsize (by omega)
  | succ turns ih =>
    rw [fillerPhase]
    refine ensures_ite (fun hroom => ?_) fun hfull => (ensures_pure _ _).mpr
      ⟨h, List.prefix_rfl, hsize, .inl (by omega)⟩
    refine (tooFast_spec _).bind fun fast hfast => ?_
    refine ensures_ite (fun _ => ?_) fun hslow => (ensures_pure _ _).mpr
      ⟨h, List.prefix_rfl, hsize, .inr (hfast.resolve_left hslow)⟩
    refine (filler_spec h prevCodeSize hroom).bind fun t ht => ?_
    obtain ⟨hsound, x, hcode⟩ := ht
    have hlength : t.code.length = s.code.length + 1 := by rw [hcode]; simp
    refine (ih hsound (by omega) (by omega)).mono fun u hu => ?_
    obtain ⟨husound, hprefix, hend⟩ := hu
    exact ⟨husound, (hcode ▸ List.prefix_append _ _).trans hprefix, hend⟩

end PhasesSpec

section Programs

/-- A program without its `RET`, of which the first loop made so many instructions. -/
structure Generated (firstPhase : Nat) (body : List V4Instruction) : Prop where
  size : numInstructionsMin ≤ body.length ∧ body.length ≤ numInstructionsMax
  valid : ∀ x ∈ body, x.Valid
  constant : ∃ x ∈ body, x.srcIndex = 8
  spaced : Spaced (body.take firstPhase)
  slow : (∃ r < 4, totalLatency ≤ latencies body r) ∨ body.length = numInstructionsMax

variable {hashExtraBlake : Nat → Table 32 UInt8 → Table 32 UInt8}

theorem attempt_spec {source : Source} (h : source.dataIndex ≤ 32) :
    Ensures (attempt hashExtraBlake source) fun r =>
      r.2.source.dataIndex ≤ 32 ∧ (¬Refused r.2 → Generated r.1 r.2.code) := by
  unfold attempt
  refine (randomPhase_spec 256 (sound_start h) (tracked_start source)
    (show 0 < numInstructionsMin by decide)).bind fun s hs => ?_
  obtain ⟨hsound, hspaced, hsize⟩ := hs
  have hroom : s.code.length ≤ numInstructionsMax := hsize.trans (by decide)
  refine (fillerPhase_spec s.code.length (numInstructionsMax + 1) hsound hroom (by omega)).bind
    fun t ht => (ensures_pure _ _).mpr ?_
  obtain ⟨htsound, hprefix, -, hend⟩ := ht
  refine ⟨htsound.source, fun haccepted => ?_⟩
  simp only [Refused, not_or, Bool.not_eq_false, not_lt] at haccepted
  obtain ⟨hused, hmin, hmax⟩ := haccepted
  refine ⟨⟨hmin, hmax⟩, htsound.valid, htsound.constant hused, ?_, ?_⟩
  · rw [← List.prefix_iff_eq_take.mp hprefix]
    exact hspaced
  · rw [htsound.latencies] at hend
    exact hend.symm

theorem attempts_spec (n : Nat) {source : Source} (h : source.dataIndex ≤ 32) :
    Ensures (attempts hashExtraBlake n source) fun result => ∀ r, result = some r →
      ∃ body, r.2 = body ++ [⟨.ret, 0, 0, 0⟩] ∧ Generated r.1 body := by
  induction n generalizing source with
  | zero => exact (ensures_some _ _).mpr nofun
  | succ n ih =>
    rw [attempts]
    refine (attempt_spec h).bind fun r hr => ensures_ite (fun _ => ih hr.1) fun haccepted => ?_
    have hgenerated := hr.2 haccepted
    simp only [ensures_bind, ensures_push, ensures_pure]
    refine ⟨Nat.lt_succ_of_le hgenerated.size.2, ?_⟩
    rintro _ ⟨⟩
    exact ⟨_, rfl, hgenerated⟩

/-- However the bytes turn out, no attempt reads or writes outside of a table, and a program that
is returned is well made. -/
theorem init_generates (hashExtraBlake : Nat → Table 32 UInt8 → Table 32 UInt8) (cnR : Bool)
    (height : UInt64) (n : Nat) :
    ∃ result, v4RandomMathInit hashExtraBlake cnR height n = some result ∧
      ∀ firstPhase program, result = some (firstPhase, program) →
        ∃ body, program = body ++ [⟨.ret, 0, 0, 0⟩] ∧ Generated firstPhase body := by
  obtain ⟨result, hresult, hprogram⟩ :=
    @attempts_spec hashExtraBlake n ⟨seedData cnR height, 32, 0⟩ le_rfl
  exact ⟨result, hresult, fun firstPhase program h => hprogram (firstPhase, program) h⟩

end Programs

end VeloxHash.V4RandomMathInit
