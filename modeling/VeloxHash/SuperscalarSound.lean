import VeloxHash.SuperscalarGenerator
import VeloxHash.SuperscalarFormed

/-! `generateSuperscalar` on every stream of bytes: it ends unless one of the loops of `create` is
never left, no table is left, and the program is valid. -/

namespace VeloxHash.SuperscalarGenerator

open Checked HashedStream Retrying Randomx Superscalar SuperscalarInstruction

section Validity

def hasSource : SuperscalarInstructionType → Bool
  | .isubR | .ixorR | .iaddRs | .imulR | .imulhR | .ismulhR => true
  | .irorC | .iaddC7 | .ixorC7 | .iaddC8 | .ixorC8 | .iaddC9 | .ixorC9 | .imulRcp => false

/-- The types with a source that must not be the target. -/
def needsDistinct : SuperscalarInstructionType → Bool
  | .isubR | .ixorR | .iaddRs | .imulR => true
  | _ => false

/-- An entry of a type. -/
structure Entry.ValidAs (e : Entry) (type : SuperscalarInstructionType) : Prop where
  opcode : e.opcode = some type
  dst : e.dst < 8
  src : e.src < 8
  noSource : hasSource type = false → e.src = e.dst
  distinct : needsDistinct type = true → e.src ≠ e.dst
  iaddRs : type = .iaddRs → e.dst ≠ registerNeedsDisplacement
  imulRcp : type = .imulRcp → isZeroOrPowerOf2 e.imm32 = false
  irorC : type = .irorC → 1 ≤ e.imm32.toNat ∧ e.imm32.toNat ≤ 63

def Entry.Valid (e : Entry) : Prop := ∃ type, e.ValidAs type

/-- An entry as the instruction that the compilers and the interpreter read. -/
def Entry.instruction (e : Entry) : Instruction where
  opcode := e.opcode.elim 255 fun type => .ofNat (SuperscalarInstructionType.all.idxOf type)
  dst := .ofNat 8 e.dst
  src := .ofNat 8 e.src
  mod := e.mod
  imm32 := e.imm32

theorem Entry.superscalarType_instruction (e : Entry) : superscalarType e.instruction = e.opcode := by
  obtain ⟨opcode, dst, src, mod, imm32⟩ := e
  cases opcode with
  | none => rfl
  | some type => cases type <;> rfl

theorem Entry.Valid.instruction {e : Entry} (h : e.Valid) : Superscalar.Valid e.instruction := by
  obtain ⟨type, he⟩ := h
  have htype := e.superscalarType_instruction
  rw [he.opcode] at htype
  refine ⟨htype ▸ rfl, fun h hdst => ?_, fun h => ?_, fun h => ?_⟩
  · obtain rfl := Option.some.inj (htype.symm.trans h)
    have hval : e.dst % 8 = registerNeedsDisplacement.val := congrArg Fin.val hdst
    rw [Nat.mod_eq_of_lt he.dst] at hval
    exact he.iaddRs rfl hval
  · obtain rfl := Option.some.inj (htype.symm.trans h)
    exact he.irorC rfl
  · obtain rfl := Option.some.inj (htype.symm.trans h)
    exact he.imulRcp rfl

/-- The instructions of a program. -/
def SuperscalarProgram.instructions (program : SuperscalarProgram) : List Instruction :=
  program.programBuffer.map Entry.instruction

variable {s : SuperscalarInstruction} {type : SuperscalarInstructionType}

theorem info_srcOp_none : (info (some type)).srcOp = none ↔ hasSource type = false := by
  cases type <;> decide

theorem dstOp_le_resultOp (type : Option SuperscalarInstructionType) :
    (info type).dstOp ≤ (info type).resultOp := by
  rcases type with _ | type
  · decide
  · cases type <;> decide

theorem resultOp_lt (type : SuperscalarInstructionType) :
    (info (some type)).resultOp < (info (some type)).ops.length := by
  cases type <;> decide

theorem srcOp_lt {k : Nat} (h : (info (some type)).srcOp = some k) :
    k < (info (some type)).ops.length := by
  cases type <;> cases h <;> decide

theorem hasSource_of_needsDistinct (h : needsDistinct type = true) : hasSource type = true := by
  cases type <;> first | rfl | exact h

/-- With all operations issued, an instruction is valid. -/
theorem Formed.valid {n : Nat} (h : Formed s n n) (htype : s.type = some type)
    (hn : (info s.type).ops.length ≤ n) : s.toInstr.ValidAs type := by
  obtain ⟨d, hd, hdst⟩ := h.dstChosen
    ((dstOp_le_resultOp _).trans_lt ((htype ▸ resultOp_lt type).trans_le hn))
  have hentry : s.toInstr.dst = d := by rw [toInstr, hdst]; rfl
  have hsource : (∃ r < 8, s.src = some r) ∨ s.src = none ∧ hasSource type = false := by
    cases hop : (info s.type).srcOp with
    | none => exact .inr ⟨h.noSource hop, info_srcOp_none.mp (htype ▸ hop)⟩
    | some k => exact .inl (h.srcChosen k hop ((htype ▸ srcOp_lt (htype ▸ hop)).trans_le hn))
  have hreuse : needsDistinct type = true → s.canReuse = false := by
    intro hneeds
    rw [Bool.eq_false_iff, Ne, h.constants.reuse, htype]
    rintro (hh | hh) <;> cases hh <;> nomatch hneeds
  refine ⟨htype, hentry ▸ hd, ?_, ?_, ?_, ?_, fun ht => h.constants.imulRcp (ht ▸ htype),
    fun ht => h.constants.irorC (ht ▸ htype)⟩
  · rcases hsource with ⟨r, hr, hsrc⟩ | ⟨hsrc, -⟩
    · rw [toInstr, hsrc]; exact hr
    · rw [toInstr, hsrc, hdst]; exact hd
  · intro hnone
    rw [toInstr, h.noSource (htype ▸ info_srcOp_none.mpr hnone)]
    rfl
  · intro hneeds
    rcases hsource with ⟨r, hr, hsrc⟩ | ⟨-, hnone⟩
    · have hne := h.distinct (hreuse hneeds) d hdst
      rw [hentry]
      rw [hsrc] at hne
      rw [toInstr, hsrc]
      exact fun heq => hne (congrArg some heq)
    · rw [hasSource_of_needsDistinct hneeds] at hnone
      nomatch hnone
  · intro ht heq
    exact h.iaddRs (ht ▸ htype) (hdst.trans (congrArg some (hentry.symm.trans heq)))

/-- What the interpreter and the compilers get. -/
theorem Entry.ValidAs.instruction {e : Entry} (h : e.ValidAs type) :
    ∃ instr : Instruction, Superscalar.Valid instr ∧ superscalarType instr = e.opcode ∧
      (instr.dst : Nat) = e.dst ∧ (instr.src : Nat) = e.src ∧ instr.mod = e.mod ∧
      instr.imm32 = e.imm32 := by
  let opcode : UInt8 := .ofNat (SuperscalarInstructionType.all.idxOf type)
  have hopcode : SuperscalarInstructionType.all[opcode.toNat]? = some type := by
    cases type <;> decide
  refine ⟨⟨opcode, ⟨e.dst, h.dst⟩, ⟨e.src, h.src⟩, e.mod, e.imm32⟩, ⟨?_, ?_, ?_, ?_⟩,
    hopcode.trans h.opcode.symm, rfl, rfl, rfl, rfl⟩
  · exact Option.isSome_iff_exists.mpr ⟨type, hopcode⟩
  · exact fun ht heq => h.iaddRs (Option.some.inj (hopcode.symm.trans ht)) (congrArg Fin.val heq)
  · exact fun ht => h.irorC (Option.some.inj (hopcode.symm.trans ht))
  · exact fun ht => h.imulRcp (Option.some.inj (hopcode.symm.trans ht))

end Validity

section Ports

variable {latency : Nat} (hlatency : latency ≤ superscalarMaxLatency) (commit : Bool)

theorem occupy_runs {cycle port : Nat} (portBusy : PortMap) (hcycle : cycle < cycleMapSize)
    (hport : port < 3) (uop : Nat) :
    Ensures (occupy commit portBusy cycle port uop) fun _ => True := by
  unfold occupy
  refine ensures_ite (fun _ => ?_) fun _ => (ensures_some _ _).mpr trivial
  simp only [ensures_bind, Table.ensures_read, Table.ensures_write]
  exact ⟨hcycle, hport, hcycle, trivial⟩

include hlatency

theorem scheduleUop_runs (uop : Nat) (portBusy : PortMap) (cycle : Nat) :
    Ensures (scheduleUop latency commit uop portBusy cycle) fun _ => True := by
  induction h : latency + 4 - cycle generalizing cycle with
  | zero =>
    rw [scheduleUop, if_neg (by omega)]
    exact (ensures_some _ _).mpr trivial
  | succ left ih =>
    have hcycle : cycle < cycleMapSize := by unfold cycleMapSize; omega
    have hend (port : Nat) (hport : port < 3) := (occupy_runs commit portBusy hcycle hport uop).bind
      fun t _ => (ensures_pure (some cycle, t) fun _ => True).mpr trivial
    rw [scheduleUop, if_pos (by omega)]
    simp only [ensures_bind (portBusy.read cycle), ensures_bind (Table.read _ _),
      Table.ensures_read]
    refine ⟨hcycle, by decide, by decide, by decide, ?_⟩
    exact ensures_ite (fun _ => hend 2 (by decide)) fun _ => ensures_ite (fun _ => hend 0 (by decide))
      fun _ => ensures_ite (fun _ => hend 1 (by decide)) fun _ => ih (cycle + 1) (by omega)

theorem schedulePair_runs (mop : MacroOp) (portBusy : PortMap) (cycle : Nat) :
    Ensures (schedulePair latency commit mop portBusy cycle) fun _ => True := by
  have huop (commit : Bool) := @scheduleUop_runs latency hlatency commit
  induction h : latency + 4 - cycle generalizing cycle with
  | zero =>
    rw [schedulePair, if_neg (by omega)]
    exact (ensures_some _ _).mpr trivial
  | succ left ih =>
    have hnext := ih (cycle + 1) (by omega)
    rw [schedulePair, if_pos (by omega)]
    refine (huop false mop.uop1 portBusy cycle).bind fun r1 _ =>
      (huop false mop.uop2 portBusy cycle).bind fun r2 _ => ?_
    dsimp only
    split
    · refine ensures_ite (fun _ => ensures_ite (fun _ => ?_) fun _ => ?_) fun _ => hnext
      · exact (huop true _ _ _).bind fun r3 _ => (huop true _ _ _).bind fun r4 _ =>
          (ensures_pure _ _).mpr trivial
      · exact (ensures_pure _ _).mpr trivial
    · exact hnext

/-- Operations are put on ports in cycles of the map only. -/
theorem scheduleMop_runs (mop : MacroOp) (portBusy : PortMap) (cycle depCycle : Nat) :
    Ensures (scheduleMop latency commit mop portBusy cycle depCycle) fun _ => True := by
  unfold scheduleMop
  exact ensures_ite (fun _ => (ensures_some _ _).mpr trivial) fun _ =>
    ensures_ite (fun _ => scheduleUop_runs hlatency commit _ _ _) fun _ =>
      schedulePair_runs hlatency commit _ _ _

end Ports

section Slots

variable {rxBlake2b : Nat → Table 64 UInt8 → Table 64 UInt8} {gen₀ : Blake2Generator}
variable {latency : Nat} {s t : State}

/-- The instruction that is not complete yet. -/
def Pending (latency : Nat) (s : State) : Prop :=
  s.macroOpIndex < s.ops.length →
    Formed s.currentInstruction s.macroOpIndex s.macroOpIndex ∧ s.prog.length < 3 * latency + 2

structure Emitted (rxBlake2b : Nat → Table 64 UInt8 → Table 64 UInt8) (gen₀ : Blake2Generator)
    (latency : Nat) (s : State) : Prop where
  gen : Reaches rxBlake2b gen₀ s.gen
  size : s.prog.length ≤ 3 * latency + 2
  valid : ∀ e ∈ s.prog, e.Valid
  throws : s.throwAwayCount ≤ maxThrowawayCount

theorem isSome_type (h : s.macroOpIndex < s.ops.length) :
    ∃ type, s.currentInstruction.type = some type := by
  cases htype : s.currentInstruction.type with
  | none =>
    rw [State.ops, htype] at h
    exact absurd h (Nat.not_lt_zero _)
  | some type => exact ⟨type, rfl⟩

/-- What the choice of a register changes. -/
structure Choice (s t : State) : Prop where
  index : t.macroOpIndex = s.macroOpIndex
  prog : t.prog = s.prog
  throws : t.throwAwayCount = s.throwAwayCount
  type : t.currentInstruction.type = s.currentInstruction.type

theorem Choice.refl (s : State) : Choice s s := ⟨rfl, rfl, rfl, rfl⟩

theorem Choice.trans {u : State} (h : Choice s t) (k : Choice t u) : Choice s u :=
  ⟨k.index.trans h.index, k.prog.trans h.prog, k.throws.trans h.throws, k.type.trans h.type⟩

theorem Choice.ops (h : Choice s t) : t.ops = s.ops := by rw [State.ops, State.ops, h.type]

theorem Choice.emitted (h : Choice s t) (hs : Emitted rxBlake2b gen₀ latency s)
    (hgen : Reaches rxBlake2b gen₀ t.gen) : Emitted rxBlake2b gen₀ latency t :=
  ⟨hgen, h.prog ▸ hs.size, h.prog ▸ hs.valid, h.throws ▸ hs.throws⟩

theorem lookForward_spec {select : State → Nat → Option (Bool × SuperscalarInstruction × Blake2Generator)}
    {P : SuperscalarInstruction → Prop} {d r : Nat}
    (hselect : ∀ u cycle, P u.currentInstruction → Reaches rxBlake2b gen₀ u.gen →
      Ensures (select u cycle) fun x =>
        Selected u.currentInstruction x.2.1 d r x.1 ∧ Reaches rxBlake2b gen₀ x.2.2)
    (forward : Nat) (scheduleCycle : Nat) (hs : P s.currentInstruction)
    (hgen : Reaches rxBlake2b gen₀ s.gen) :
    Ensures (lookForward select forward s scheduleCycle) fun x =>
      Choice s x.2.1 ∧ Reaches rxBlake2b gen₀ x.2.1.gen ∧
        (x.1 = true → Formed x.2.1.currentInstruction d r) := by
  induction forward generalizing s scheduleCycle with
  | zero => exact (ensures_some _ _).mpr ⟨Choice.refl s, hgen, nofun⟩
  | succ forward ih =>
    rw [lookForward]
    refine (hselect s scheduleCycle hs hgen).bind fun x hx => ?_
    obtain ⟨found, instr, gen⟩ := x
    obtain ⟨hselected, hreached⟩ := hx
    refine ensures_ite (fun hfound => ?_) fun hfound => ?_
    · exact (ensures_pure _ _).mpr
        ⟨⟨rfl, rfl, rfl, hselected.type⟩, hreached, fun _ => hselected.formed hfound⟩
    · have hsame := hselected.unchanged (Bool.eq_false_of_not_eq_true hfound)
      dsimp only at hsame
      subst hsame
      have hwait : Choice s { s with gen := gen, cycle := s.cycle + 1 } := ⟨rfl, rfl, rfl, rfl⟩
      exact (ih (s := { s with gen := gen, cycle := s.cycle + 1 }) (scheduleCycle + 1) hs
        hreached).mono fun x hx => ⟨hwait.trans hx.1, hx.2⟩

/-- Where the operation is not the one of the source, none is chosen. -/
theorem Formed.skipSource {c : SuperscalarInstruction} {m : Nat} (h : Formed c m m)
    (hop : some m ≠ (info c.type).srcOp) : Formed c m (m + 1) :=
  { h with
    srcChosen := fun k hk hlt => h.srcChosen k hk <|
      Nat.lt_of_le_of_ne (Nat.le_of_lt_succ hlt) fun heq => hop (heq ▸ hk.symm) }

theorem Formed.skipDestination {c : SuperscalarInstruction} {m : Nat} (h : Formed c m (m + 1))
    (hop : m ≠ (info c.type).dstOp) : Formed c (m + 1) (m + 1) :=
  { h with
    dstOpen := fun hle => h.dstOpen (Nat.le_of_succ_le hle)
    dstChosen := fun hlt => h.dstChosen (Nat.lt_of_le_of_ne (Nat.le_of_lt_succ hlt) hop.symm) }

variable {m : Nat}

theorem findSource_spec (hindex : s.macroOpIndex = m) (hs : Formed s.currentInstruction m m)
    (hgen : Reaches rxBlake2b gen₀ s.gen) (scheduleCycle : Nat) :
    Ensures (findSource rxBlake2b s scheduleCycle) fun x =>
      Choice s x.2.1 ∧ Reaches rxBlake2b gen₀ x.2.1.gen ∧
        (x.1 = true → Formed x.2.1.currentInstruction m (m + 1)) := by
  unfold findSource
  rw [hindex]
  refine ensures_ite (fun hop => ?_) fun hop => ?_
  · exact lookForward_spec
      (P := fun c => Formed c m m ∧ (info c.type).srcOp = some m)
      (fun u cycle hu hug => selectSource_spec hu.1 hu.2 cycle u.registers hug) _ _ ⟨hs, hop.symm⟩ hgen
  · exact (ensures_some _ _).mpr ⟨Choice.refl s, hgen, fun _ => hs.skipSource hop⟩

theorem findDestination_spec (hindex : s.macroOpIndex = m)
    (hs : Formed s.currentInstruction m (m + 1)) (hgen : Reaches rxBlake2b gen₀ s.gen)
    (scheduleCycle : Nat) :
    Ensures (findDestination rxBlake2b s scheduleCycle) fun x =>
      Choice s x.2.1 ∧ Reaches rxBlake2b gen₀ x.2.1.gen ∧
        (x.1 = true → Formed x.2.1.currentInstruction (m + 1) (m + 1)) := by
  unfold findDestination
  rw [hindex]
  refine ensures_ite (fun hop => ?_) fun hop => ?_
  · exact lookForward_spec
      (P := fun c => Formed c m (m + 1) ∧ m = (info c.type).dstOp)
      (fun u cycle hu hug => selectDestination_spec hu.1 hu.2 cycle _ u.registers hug) _ _
      ⟨hs, hop⟩ hgen
  · exact (ensures_some _ _).mpr ⟨Choice.refl s, hgen, fun _ => hs.skipDestination hop⟩

def Running (rxBlake2b : Nat → Table 64 UInt8 → Table 64 UInt8) (gen₀ : Blake2Generator)
    (latency : Nat) (s : State) : Prop :=
  Emitted rxBlake2b gen₀ latency s ∧ Pending latency s

/-- A state in which a window is left. -/
def Left (rxBlake2b : Nat → Table 64 UInt8 → Table 64 UInt8) (gen₀ : Blake2Generator)
    (latency : Nat) (s : State) : Prop :=
  Emitted rxBlake2b gen₀ latency s ∧ (s.portsSaturated = false → Pending latency s)

/-- A turn goes on further in the window or with one more instruction thrown away. -/
def Continues (rxBlake2b : Nat → Table 64 UInt8 → Table 64 UInt8) (gen₀ : Blake2Generator)
    (latency bufferIndex throws : Nat) : Turn → Prop
  | .inl (next, s) => Running rxBlake2b gen₀ latency s ∧
      (next = bufferIndex + 1 ∨ next = bufferIndex ∧ s.throwAwayCount = throws + 1)
  | .inr s => Left rxBlake2b gen₀ latency s

theorem throwAway_spec (hs : Emitted rxBlake2b gen₀ latency s) (bufferIndex : Nat) :
    Continues rxBlake2b gen₀ latency bufferIndex s.throwAwayCount (throwAway bufferIndex s) := by
  unfold throwAway
  split
  · rename_i hlt
    refine ⟨⟨⟨hs.gen, hs.size, hs.valid, hlt⟩, fun h => ?_⟩, .inr ⟨rfl, rfl⟩⟩
    exact absurd h (Nat.lt_irrefl _)
  · exact ⟨⟨hs.gen, hs.size, hs.valid, hs.throws⟩, fun _ h => absurd h (Nat.not_lt_zero _)⟩

theorem retire_spec (hformed : Formed s.currentInstruction (s.macroOpIndex + 1) (m + 1)) :
    Ensures (retire s) fun t => t.currentInstruction = s.currentInstruction ∧
      Choice s t ∧ t.gen = s.gen := by
  unfold retire
  refine ensures_ite (fun hop => ?_) fun _ => (ensures_some _ _).mpr ⟨rfl, Choice.refl s, rfl⟩
  obtain ⟨d, hd, hdst⟩ := hformed.dstChosen <| by
    rw [hop]
    exact Nat.lt_succ_of_le (dstOp_le_resultOp _)
  simp only [hdst, ensures_bind, ensures_some, Table.ensures_write, ensures_pure, true_and, and_true]
  exact ⟨hd, rfl, rfl, rfl, rfl⟩

/-- There is room for the instruction, as it was pending. -/
theorem finish_spec (hlatency : latency ≤ superscalarMaxLatency)
    (hs : Emitted rxBlake2b gen₀ latency s) (hroom : s.prog.length < 3 * latency + 2)
    (hformed : Formed s.currentInstruction s.macroOpIndex s.macroOpIndex)
    (htype : ∃ type, s.currentInstruction.type = some type) :
    Ensures (finish s) (Running rxBlake2b gen₀ latency) := by
  unfold finish
  refine ensures_ite (fun hop => ?_) fun hop => ?_
  · obtain ⟨type, htype⟩ := htype
    rw [ensures_bind, ensures_push]
    refine ⟨hroom.trans_le (by unfold superscalarMaxSize; omega), (ensures_pure _ _).mpr ?_⟩
    refine ⟨⟨hs.gen, ?_, ?_, hs.throws⟩, fun h => absurd h (Nat.not_lt.mpr hop)⟩
    · rw [List.length_append]
      exact hroom
    · intro e he
      rcases List.mem_append.mp he with h | h
      · exact hs.valid e h
      · rw [List.mem_singleton.mp h]
        exact ⟨type, hformed.valid htype hop⟩
  · exact (ensures_some _ _).mpr ⟨hs, fun _ => ⟨hformed, hroom⟩⟩

theorem execute_spec (hlatency : latency ≤ superscalarMaxLatency)
    (hs : Emitted rxBlake2b gen₀ latency s) (hroom : s.prog.length < 3 * latency + 2)
    (hm : s.macroOpIndex < s.ops.length)
    (hformed : Formed s.currentInstruction (s.macroOpIndex + 1) (s.macroOpIndex + 1))
    (mop : MacroOp) (bufferIndex topCycle scheduleCycle throws : Nat) :
    Ensures (execute latency mop bufferIndex topCycle s scheduleCycle)
      (Continues rxBlake2b gen₀ latency bufferIndex throws) := by
  unfold execute
  refine (scheduleMop_runs hlatency true mop s.portBusy scheduleCycle scheduleCycle).bind
    fun r _ => ?_
  obtain ⟨cycle, portBusy⟩ := r
  cases cycle with
  | none =>
    exact (ensures_pure _ _).mpr ⟨⟨hs.gen, hs.size, hs.valid, Nat.zero_le _⟩, nofun⟩
  | some scheduleCycle =>
    refine (retire_spec (s := { s with
      throwAwayCount := 0, portBusy := portBusy, depCycle := scheduleCycle + mop.latency })
      hformed).bind fun u hu => ?_
    obtain ⟨hinstr, hchoice, hgen⟩ := hu
    have hemitted : Emitted rxBlake2b gen₀ latency u :=
      hchoice.emitted ⟨hs.gen, hs.size, hs.valid, Nat.zero_le _⟩ (hgen ▸ hs.gen)
    have hindex : u.macroOpIndex = s.macroOpIndex := hchoice.index
    have hprog : u.prog = s.prog := hchoice.prog
    have htype := isSome_type hm
    refine (finish_spec (s := { u with
      codeSize := u.codeSize + mop.size
      macroOpIndex := u.macroOpIndex + 1
      macroOpCount := u.macroOpCount + 1
      portsSaturated := u.portsSaturated || decide (latency ≤ scheduleCycle)
      cycle := topCycle }) hlatency ⟨hemitted.gen, hemitted.size, hemitted.valid, hemitted.throws⟩
      (hprog ▸ hroom) ?_ ?_).bind fun v hv => (ensures_pure _ _).mpr ⟨hv, .inl rfl⟩
    · dsimp only
      rw [hinstr, hindex]
      exact hformed
    · dsimp only
      rw [hinstr]
      exact htype

theorem issue_spec (hlatency : latency ≤ superscalarMaxLatency)
    (hs : Emitted rxBlake2b gen₀ latency s) (hroom : s.prog.length < 3 * latency + 2)
    (hm : s.macroOpIndex < s.ops.length)
    (hformed : Formed s.currentInstruction s.macroOpIndex s.macroOpIndex)
    (bufferIndex topCycle : Nat) :
    Ensures (issue rxBlake2b latency bufferIndex topCycle s)
      (Continues rxBlake2b gen₀ latency bufferIndex s.throwAwayCount) := by
  unfold issue
  refine (ensures_getElem? hm fun _ _ => trivial).bind fun mop _ => ?_
  refine (scheduleMop_runs hlatency false mop s.portBusy s.cycle s.depCycle).bind fun r _ => ?_
  obtain ⟨cycle, -⟩ := r
  cases cycle with
  | none => exact (ensures_pure _ _).mpr ⟨⟨hs.gen, hs.size, hs.valid, hs.throws⟩, nofun⟩
  | some scheduleCycle =>
    refine (findSource_spec rfl hformed hs.gen scheduleCycle).bind fun r hr => ?_
    obtain ⟨found, t, scheduleCycle⟩ := r
    obtain ⟨hchoice, hgen, hsource⟩ := hr
    have ht := hchoice.emitted hs hgen
    refine ensures_ite (fun _ => (ensures_pure _ _).mpr ?_) fun hfound => ?_
    · exact hchoice.throws ▸ throwAway_spec ht bufferIndex
    · have hsource := hsource (by simpa using hfound)
      refine (findDestination_spec hchoice.index hsource hgen scheduleCycle).bind fun r hr => ?_
      obtain ⟨found, u, scheduleCycle⟩ := r
      obtain ⟨hchoice', hgen, hdestination⟩ := hr
      have hboth := hchoice.trans hchoice'
      have hu := hboth.emitted hs hgen
      refine ensures_ite (fun _ => (ensures_pure _ _).mpr ?_) fun hfound => ?_
      · exact hboth.throws ▸ throwAway_spec hu bufferIndex
      · have hdestination := hdestination (by simpa using hfound)
        rw [← hboth.index] at hdestination
        refine execute_spec hlatency hu (hboth.prog ▸ hroom) ?_ hdestination _ _ _ _ _
        rw [hboth.index, hboth.ops]
        exact hm

section Window

variable (hlatency : latency ≤ superscalarMaxLatency)

/-- The slots that are left, and the instructions that may be thrown away in this one. -/
def slotMeasure (buffer : DecoderBuffer) (at_ : Nat × State) : Nat :=
  (buffer.counts.length - at_.1) * (maxThrowawayCount + 1) +
    (maxThrowawayCount - at_.2.throwAwayCount)

theorem Continues.advances {buffer : DecoderBuffer} {bufferIndex : Nat} {r : Turn}
    (h : Continues rxBlake2b gen₀ latency bufferIndex s.throwAwayCount r)
    (hslot : bufferIndex < buffer.counts.length) :
    Advances (fun t => Running rxBlake2b gen₀ latency t.2) (slotMeasure buffer)
      (Left rxBlake2b gen₀ latency) (bufferIndex, s) r := by
  rcases r with ⟨next, t⟩ | t
  · obtain ⟨ht, hnext⟩ := h
    have hthrows := ht.1.throws
    refine ⟨ht, ?_⟩
    unfold slotMeasure
    unfold maxThrowawayCount at hthrows ⊢
    rcases hnext with rfl | ⟨rfl, hthrow⟩
    all_goals dsimp only; omega
  · exact h

include hlatency

theorem fillSlot_spec {buffer : DecoderBuffer} (hbuffer : Fillable buffer) {at_ : Nat × State}
    (hs : Running rxBlake2b gen₀ latency at_.2) :
    Settles (LoopsLeft rxBlake2b gen₀) (fillSlot rxBlake2b latency buffer at_)
      (Advances (fun t => Running rxBlake2b gen₀ latency t.2) (slotMeasure buffer)
        (Left rxBlake2b gen₀ latency) at_) := by
  obtain ⟨bufferIndex, s⟩ := at_
  have hstop : Left rxBlake2b gen₀ latency s := ⟨hs.1, fun _ => hs.2⟩
  obtain ⟨hs, hpending⟩ := hs
  unfold fillSlot
  refine settles_ite (fun hslot => settles_ite (fun _ => settles_ite (fun _ => ?_) fun hroom => ?_)
    fun hm => ?_) fun _ => settles_pure hstop
  · exact settles_pure hstop
  · refine (settles_access (ensures_getElem? hslot hbuffer.2)).bind fun slotSize hsize => ?_
    refine (createForSlot_spec s.currentInstruction hsize buffer.index _ hs.gen).bind fun r hr => ?_
    obtain ⟨instr, gen⟩ := r
    obtain ⟨⟨hformed, htype⟩, hgen⟩ := hr
    obtain ⟨type, htype⟩ := Option.isSome_iff_exists.mp htype
    rw [not_or, Nat.not_le] at hroom
    have hops : 0 < (info instr.type).ops.length := htype ▸ (resultOp_lt type).pos
    exact (settles_access (issue_spec (s := { s with
      currentInstruction := instr, gen := gen, macroOpIndex := 0 }) hlatency
      ⟨hgen, hs.size, hs.valid, hs.throws⟩ hroom.2 hops hformed bufferIndex s.cycle)).mono
      fun r (hr : Continues rxBlake2b gen₀ latency bufferIndex s.throwAwayCount r) =>
        hr.advances hslot
  · rw [Nat.not_le] at hm
    obtain ⟨hformed, hroom⟩ := hpending hm
    exact (settles_access (issue_spec hlatency hs hroom hm hformed bufferIndex s.cycle)).mono
      fun r hr => hr.advances hslot

theorem fillWindow_spec {buffer : DecoderBuffer} (hbuffer : Fillable buffer)
    (hs : Running rxBlake2b gen₀ latency s) :
    Settles (LoopsLeft rxBlake2b gen₀) (fillWindow rxBlake2b latency buffer s)
      (Left rxBlake2b gen₀ latency) := by
  refine settles_loop (fun t ht => fillSlot_spec hlatency hbuffer ht) windowTurns hs ?_
  have hlength := hbuffer.1
  unfold slotMeasure windowTurns maxThrowawayCount
  dsimp only
  omega

theorem decode_spec (left decodeCycle : Nat) (hs : Left rxBlake2b gen₀ latency s) :
    Settles (LoopsLeft rxBlake2b gen₀) (decode rxBlake2b latency left decodeCycle s) fun r =>
      Emitted rxBlake2b gen₀ latency r.2 := by
  induction left generalizing s decodeCycle with
  | zero => exact settles_pure hs.1
  | succ left ih =>
    rw [decode]
    refine settles_ite (fun hopen => ?_) fun _ => settles_pure hs.1
    obtain ⟨hs, hpending⟩ := hs
    refine (settles_access (fetchNext_spec s.currentInstruction.type decodeCycle s.mulCount
      hs.gen)).bind fun r hr => ?_
    obtain ⟨buffer, gen⟩ := r
    refine (fillWindow_spec (s := { s with gen := gen }) hlatency hr.1
      ⟨⟨hr.2, hs.size, hs.valid, hs.throws⟩, hpending hopen.1⟩).bind fun t ht => ?_
    exact ih (s := { t with cycle := t.cycle + 1 }) (decodeCycle + 1)
      ⟨⟨ht.1.gen, ht.1.size, ht.1.valid, ht.1.throws⟩, ht.2⟩

end Window

end Slots

section Program

variable {latency : Nat} {prog : List Entry}

theorem asicLatencies_run (hprog : ∀ e ∈ prog, e.Valid) (l : Table 8 Nat) :
    Ensures (prog.foldlM asicLatencyStep l) fun _ => True := by
  induction prog generalizing l with
  | nil => exact (ensures_pure _ _).mpr trivial
  | cons e prog ih =>
    obtain ⟨type, he⟩ := hprog e List.mem_cons_self
    rw [List.foldlM_cons, ensures_bind, asicLatencyStep]
    simp only [ensures_bind, Table.ensures_read, Table.ensures_write]
    exact ⟨he.dst, he.src, he.dst, ih (fun x hx => hprog x (List.mem_cons_of_mem _ hx)) _⟩

structure Generated (latency : Nat) (p : SuperscalarProgram) : Prop where
  size : p.programBuffer.length ≤ 3 * latency + 2
  valid : ∀ e ∈ p.programBuffer, e.Valid

theorem generateSuperscalar_spec (rxBlake2b : Nat → Table 64 UInt8 → Table 64 UInt8) {latency : Nat}
    (hlatency : latency ≤ superscalarMaxLatency) (gen : Blake2Generator) :
    Settles (LoopsLeft rxBlake2b gen) (generateSuperscalar rxBlake2b latency gen) fun r =>
      Generated latency r.1 := by
  have hstart : Left rxBlake2b gen latency (start gen) :=
    ⟨⟨.start, Nat.zero_le _, nofun, Nat.zero_le _⟩, fun _ h => absurd h (Nat.not_lt_zero _)⟩
  exact (decode_spec hlatency latency 0 hstart).bind fun r hr =>
    (settles_access (asicLatencies_run hr.valid _)).bind fun _ _ => settles_pure ⟨hr.size, hr.valid⟩

/-- A program that the generator returns on some stream of bytes. -/
def Produced (latency : Nat) (program : SuperscalarProgram) : Prop :=
  ∃ rxBlake2b gen n r, generateSuperscalar rxBlake2b latency gen n = .ok r ∧ r.1 = program

theorem Produced.generated {latency : Nat} {program : SuperscalarProgram} (h : Produced latency program)
    (hlatency : latency ≤ superscalarMaxLatency) : Generated latency program := by
  obtain ⟨rxBlake2b, gen, n, r, hr, rfl⟩ := h
  rcases (generateSuperscalar_spec rxBlake2b hlatency gen).ends n with hrefused | ⟨r', hr', hgen⟩
  · cases hr.symm.trans hrefused
  · cases hr.symm.trans hr'
    exact hgen

/-- Whatever the stream and however often its loops may try, the generator either has a loop that
is not left or ends, with all its tables respected and a valid program. Where the loops are left
on the stream, it ends with one program. -/
theorem generateSuperscalar_ends (rxBlake2b : Nat → Table 64 UInt8 → Table 64 UInt8) {latency : Nat}
    (hlatency : latency ≤ superscalarMaxLatency) (gen : Blake2Generator) :
    (∀ n, generateSuperscalar rxBlake2b latency gen n = .error .refused ∨
      ∃ r, generateSuperscalar rxBlake2b latency gen n = .ok r ∧ Generated latency r.1) ∧
    (LoopsLeft rxBlake2b gen → ∃ r, Generated latency r.1 ∧
      ∃ n, ∀ m, n ≤ m → generateSuperscalar rxBlake2b latency gen m = .ok r) := by
  have hruns := generateSuperscalar_spec rxBlake2b hlatency gen
  exact ⟨hruns.ends, hruns.result⟩

section Constant

/-- A stream that repeats one byte. -/
def repeated (_ : Nat) (_ : Table 64 UInt8) : Table 64 UInt8 := .filled 64 3

variable {gen : Blake2Generator} (h : gen.data = .filled 64 3)

include h

theorem checkData_repeated (k : Nat) : (checkData repeated k gen).data = .filled 64 3 := by
  unfold checkData
  split
  · rfl
  · exact h

theorem nextByte_repeated :
    Ensures (nextByte repeated gen) fun r => r.1 = 3 ∧ r.2.data = .filled 64 3 := by
  have hindex := @checkData_index 64 repeated gen 1 (by decide)
  simp only [nextByte, ensures_bind, Table.ensures_read, ensures_pure, checkData_repeated h]
  exact ⟨hindex, rfl, trivial⟩

theorem nextWord_repeated :
    Ensures (nextWord repeated gen) fun r => r.1 = 0x03030303 ∧ r.2.data = .filled 64 3 := by
  have hindex := @checkData_index 64 repeated gen 4 (by decide)
  simp only [nextWord, ensures_bind, Table.ensures_read, ensures_pure, checkData_repeated h]
  have hword : (3 : UInt8).toUInt32 ||| (3 : UInt8).toUInt32 <<< 8 ||| (3 : UInt8).toUInt32 <<< 16 |||
      (3 : UInt8).toUInt32 <<< 24 = 0x03030303 := by decide
  exact ⟨by omega, by omega, by omega, by omega, hword, trivial⟩

end Constant

theorem repeated_loopsLeft : LoopsLeft repeated ⟨.filled 64 3, 64, 0⟩ := by
  intro gen hgen
  have hdata : gen.data = .filled 64 3 := by
    induction hgen with
    | start => rfl
    | byte _ hr ih => exact ((nextByte_repeated ih).of_eq_some hr).2
    | word _ hr ih => exact ((nextWord_repeated ih).of_eq_some hr).2
  obtain ⟨⟨b, s⟩, hb, rfl, -⟩ := nextByte_repeated hdata
  obtain ⟨⟨w, t⟩, hw, rfl, -⟩ := nextWord_repeated hdata
  refine ⟨⟨1, ?_⟩, ⟨1, ?_⟩⟩
  · rw [search, hb]
    intro h
    cases h
  · rw [search, hw]
    intro h
    cases h

theorem generateSuperscalar_ends_repeated :
    ∃ r, Generated 170 r.1 ∧ ∃ n, ∀ m, n ≤ m →
      generateSuperscalar repeated 170 ⟨.filled 64 3, 64, 0⟩ m = .ok r :=
  (generateSuperscalar_ends repeated (by decide) _).2 repeated_loopsLeft

end Program

end VeloxHash.SuperscalarGenerator
