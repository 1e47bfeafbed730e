import VeloxHash.BytecodeTermination
import VeloxHash.Confinement

/-! `executeBytecode` reads and writes the scratchpad below `ScratchpadL3_Size` only. -/

namespace VeloxHash.Randomx.Config

/-- The scratchpads of a configuration lie one within the other. -/
structure Sized (config : Config) : Prop where
  l1 : 8 ≤ config.scratchpadL1Size.toNat ∧
    config.scratchpadL1Size.toNat ≤ config.scratchpadL3Size.toNat
  l2 : 8 ≤ config.scratchpadL2Size.toNat ∧
    config.scratchpadL2Size.toNat ≤ config.scratchpadL3Size.toNat
  l3 : 0 < config.scratchpadL3Size.toNat ∧ 256 ∣ config.scratchpadL3Size.toNat

end VeloxHash.Randomx.Config

namespace VeloxHash.BytecodeMachine

open Randomx CodeBuffer Confinement

variable {v : VectorUnit} {ibc : InstructionByteCode} {m t : Machine v} {n : Nat}

/-- The scratchpad, and the machine without it. -/
def Machine.view (v : VectorUnit) : View (Machine v) (Machine v) where
  rest m := { m with scratchpad := fun _ => 0 }
  memory m := m.scratchpad

/-- The eight bytes that an instruction may access end at the bound. -/
def Inside (n : Nat) (ibc : InstructionByteCode) : Prop :=
  ibc.type ≠ .cbranch → ibc.memMask.toNat + 8 ≤ n

theorem Machine.eq_of_same {m m' : Machine v} (h : (view v).Same n m m') :
    m' = { m with scratchpad := m'.scratchpad } := by
  obtain ⟨r, f, e, a, scratchpad, mode, pc⟩ := m
  obtain ⟨r', f', e', a', scratchpad', mode', pc'⟩ := m'
  cases h.1
  rfl

theorem and_mask_le (x : UInt64) (mask : UInt32) : (x &&& mask.toUInt64).toNat ≤ mask.toNat := by
  rw [UInt64.toNat_and]
  exact Nat.and_le_right

theorem loaded_congr {scratchpad : Memory} (hmask : ibc.memMask.toNat + 8 ≤ n)
    (h : ∀ a < n, m.scratchpad a = scratchpad a) :
    ({ m with scratchpad } : Machine v).loaded ibc = m.loaded ibc := by
  have haddress : m.address ibc ≤ ibc.memMask.toNat := and_mask_le ..
  refine read_congr fun a _ ha => (h a ?_).symm
  change a < m.address ibc + 8 at ha
  omega

theorem same_onVec {scratchpad : Memory} (op : v.Vec → v.Vec)
    (h : ∀ a < n, m.scratchpad a = scratchpad a) :
    (Machine.view v).Same n (m.onVec ibc op)
      (({ m with scratchpad } : Machine v).onVec ibc op) := by
  unfold Machine.onVec Machine.setVec
  cases ibc.fdst <;> exact ⟨rfl, h⟩

theorem same_exeIswapR {scratchpad : Memory} (h : ∀ a < n, m.scratchpad a = scratchpad a) :
    (Machine.view v).Same n (exeIswapR ibc m) (exeIswapR ibc { m with scratchpad }) := by
  unfold exeIswapR
  dsimp only
  cases ibc.isrc <;> exact ⟨rfl, h⟩

theorem executeInstruction_reads {scratchpad : Memory} (hin : Inside n ibc)
    (h : ∀ a < n, m.scratchpad a = scratchpad a) :
    Option.Rel ((Machine.view v).Same n) (executeInstruction ibc m)
      (executeInstruction ibc { m with scratchpad }) := by
  unfold executeInstruction
  cases htype : ibc.type with
  | imulRcp => exact .none
  | iaddM | isubM | imulM | imulhM | ismulhM | ixorM =>
    have hload := loaded_congr (hin (by simp [htype])) h
    simp only [Machine.load64, hload]
    exact .some ⟨rfl, h⟩
  | faddM | fsubM | fdivM =>
    have hload := loaded_congr (hin (by simp [htype])) h
    simp only [hload]
    exact .some (same_onVec _ h)
  | fswapR | faddR | fsubR | fscalR | fmulR | fsqrtR => exact .some (same_onVec _ h)
  | iswapR => exact .some (same_exeIswapR h)
  | istore => exact .some ⟨rfl, write_congr h⟩
  | _ => exact .some ⟨rfl, h⟩

theorem executeInstruction_writes (hin : Inside n ibc) (h : executeInstruction ibc m = some t) :
    ∀ a, n ≤ a → t.scratchpad a = m.scratchpad a := by
  intro a ha
  unfold executeInstruction at h
  cases htype : ibc.type with
  | imulRcp =>
    rw [htype] at h
    cases h
  | istore =>
    rw [htype] at h
    obtain rfl := Option.some.inj h
    have hmask := hin (by simp [htype])
    have haddress := and_mask_le (m.r ibc.idst + ibc.imm) ibc.memMask
    refine write_above ?_
    rw [length_le]
    omega
  | iswapR =>
    rw [htype] at h
    obtain rfl := Option.some.inj h
    unfold exeIswapR
    dsimp only
    cases ibc.isrc <;> rfl
  | fswapR | faddR | faddM | fsubR | fsubM | fscalR | fmulR | fdivM | fsqrtR =>
    rw [htype] at h
    obtain rfl := Option.some.inj h
    unfold Machine.onVec Machine.setVec
    cases ibc.fdst <;> rfl
  | _ =>
    rw [htype] at h
    obtain rfl := Option.some.inj h
    rfl

theorem confined_executeInstruction (hin : Inside n ibc) :
    Confined (Machine.view v) (Machine.view v) n (executeInstruction ibc) where
  reads m m' h := by
    rw [Machine.eq_of_same h]
    exact executeInstruction_reads hin h.2
  writes _ _ := executeInstruction_writes hin

section Loop

variable {config : Config} {bytecode : List InstructionByteCode}

/-- The instruction that a round executes. -/
def fetch (bytecode : List InstructionByteCode) (m : Machine v) : Option InstructionByteCode :=
  if 0 ≤ m.pc then bytecode[m.pc.toNat]? else none

theorem round_eq (bytecode : List InstructionByteCode) (m : Machine v) :
    round bytecode m = (fetch bytecode m).bind fun ibc =>
      (executeInstruction ibc m).bind fun t => some { t with pc := t.pc + 1 } := by
  unfold round fetch
  by_cases hpc : 0 ≤ m.pc
  · simp only [if_pos hpc]
    rfl
  · simp only [if_neg hpc]
    rfl

theorem mem_of_fetch (h : fetch bytecode m = some ibc) : ibc ∈ bytecode := by
  unfold fetch at h
  split at h
  · exact List.mem_of_getElem? h
  · cases h

theorem confined_round (hin : ∀ ibc ∈ bytecode, Inside n ibc) :
    Confined (Machine.view v) (Machine.view v) n (round bytecode) := by
  refine (Confined.dependent (v := Machine.view v) (f := fun rest m =>
    (fetch bytecode rest).bind fun ibc =>
      (executeInstruction ibc m).bind fun t => some { t with pc := t.pc + 1 }) fun rest => ?_).congr
    (round_eq bytecode)
  cases hfetch : fetch bytecode rest with
  | none => exact .none
  | some ibc =>
    refine (confined_executeInstruction (hin ibc (mem_of_fetch hfetch))).bind
      (.some (fun s t h => ?_) fun _ _ _ => rfl)
    rw [Machine.eq_of_same h]
    exact ⟨rfl, h.2⟩

/-- The machine at the end of a run, with what the run executed. -/
def visitedView (v : VectorUnit) : View (List Visit × Machine v) (List Visit × Machine v) where
  rest x := (x.1, (Machine.view v).rest x.2)
  memory x := x.2.scratchpad

theorem confined_visit (visit : Visit) : Confined (visitedView v) (visitedView v) n
    fun x : List Visit × Machine v => some (visit :: x.1, x.2) := by
  refine .some (fun x y h => ?_) fun _ _ _ => rfl
  obtain ⟨hvisits, hrest⟩ := Prod.mk.inj h.1
  exact ⟨Prod.ext (congrArg (List.cons visit) hvisits) hrest, h.2⟩

theorem confined_executeFrom (hin : ∀ ibc ∈ bytecode, Inside n ibc) (fuel : Nat) :
    Confined (Machine.view v) (visitedView v) n (executeFrom config bytecode fuel) := by
  induction fuel with
  | zero => exact .none
  | succ fuel ih =>
    refine (Confined.dependent (v := Machine.view v) (f := fun rest m =>
      if rest.pc < config.programSize then
        (round bytecode m).bind fun t => (executeFrom config bytecode fuel t).bind fun x =>
          some (⟨rest.pc.toNat, t.pc != rest.pc + 1⟩ :: x.1, x.2)
      else some ([], m)) fun rest => ?_).congr fun m => ?_
    · split
      · refine (confined_round hin).bind ((Confined.dependent (v := Machine.view v)
          (f := fun next t => (executeFrom config bytecode fuel t).bind fun x =>
            some (⟨rest.pc.toNat, next.pc != rest.pc + 1⟩ :: x.1, x.2)) fun next => ?_).congr
          fun _ => rfl)
        exact ih.bind (confined_visit _)
      · exact .some (fun s t h => ⟨congrArg (Prod.mk []) h.1, h.2⟩) fun _ _ _ => rfl
    · rw [executeFrom]
      rfl

theorem confined_executeBytecode (hin : ∀ ibc ∈ bytecode, Inside n ibc) (fuel : Nat) :
    Confined (Machine.view v) (visitedView v) n (executeBytecode config bytecode fuel) := by
  refine ((Confined.some (f := fun m : Machine v => { m with pc := 0 }) (fun s t h => ?_)
    fun _ _ _ => rfl).bind (confined_executeFrom hin fuel)).congr fun _ => rfl
  rw [Machine.eq_of_same h]
  exact ⟨rfl, h.2⟩

end Loop

/-- A mask of whole units leaves room for one of them. -/
theorem mask_le {size units width : UInt32} (hunits : 1 ≤ units)
    (h : units.toNat * width.toNat ≤ size.toNat) :
    ((units - 1) * width).toNat + width.toNat ≤ size.toNat := by
  have hlt := size.toNat_lt
  have hpos : 1 ≤ units.toNat := UInt32.le_iff_toNat_le.mp hunits
  have hlast : (units.toNat - 1) * width.toNat + width.toNat = units.toNat * width.toNat := by
    rw [← Nat.succ_mul, Nat.succ_eq_add_one, Nat.sub_add_cancel hpos]
  rw [UInt32.toNat_mul, UInt32.toNat_sub_of_le _ _ hunits]
  change (units.toNat - 1) * width.toNat % 2 ^ 32 + _ ≤ _
  rw [Nat.mod_eq_of_lt (by omega)]
  omega

theorem mask_inside {size : UInt32} (h : 8 ≤ size.toNat) :
    ((size / 8 - 1) * 8).toNat + 8 ≤ size.toNat := by
  have hdiv : (size / 8).toNat = size.toNat / 8 := UInt32.toNat_div size 8
  have hone : (1 : UInt32) ≤ size / 8 := by
    rw [UInt32.le_iff_toNat_le, hdiv]
    change 1 ≤ _
    omega
  exact mask_le hone (hdiv ▸ Nat.div_mul_le_self size.toNat 8)

theorem addressMask_inside {config : Config} (h : config.Sized) (modMem : Fin 4) :
    (config.addressMask modMem).toNat + 8 ≤ config.scratchpadL3Size.toNat := by
  unfold Config.addressMask
  split
  · exact (mask_inside h.l2.1).trans h.l2.2
  · exact (mask_inside h.l1.1).trans h.l1.2

theorem scratchpadL3Mask_inside {config : Config} (h : config.Sized) :
    config.scratchpadL3Mask.toNat + 8 ≤ config.scratchpadL3Size.toNat :=
  mask_inside (h.l1.1.trans h.l1.2)

/-- The bytecode of a program is executed within a bound on its tests. -/
theorem executeBytecode_total {config : Config} (program : Program config) (m : Machine v) :
    ∃ x, executeBytecode config (compiled config 0 beginCompilation program.instructions).1
      (3 * config.programSize + 1) m = some x := by
  obtain ⟨visits, last, hrun, -⟩ := executeFrom_spec (m := { m with pc := 0 })
    (structured_compiled program) (3 * config.programSize + 1) (p := 0) rfl (Nat.zero_le _)
    (Nat.lt_succ_of_le (sum_visitsLeft_le program _))
  exact ⟨(visits, last), hrun⟩

theorem inside_compileType {config : Config} (h : config.Sized) (instr : Instruction) (i : Int)
    (usage : Usage) (type : InstructionType) :
    Inside config.scratchpadL3Size.toNat (compileType config instr i usage type).1 := by
  have hzero : (0 : UInt32).toNat + 8 ≤ config.scratchpadL3Size.toNat := h.l1.1.trans h.l1.2
  have hmask := addressMask_inside h instr.getModMem
  have hl3 := scratchpadL3Mask_inside h
  intro hbranch
  cases type with
  | cbranch => exact absurd rfl hbranch
  | imulRcp =>
    rw [compileType, compileImulRcp]
    split <;> exact hzero
  | iswapR =>
    rw [compileType, compileIswapR]
    split <;> exact hzero
  | iaddM | isubM | imulM | imulhM | ismulhM | ixorM =>
    rw [compileType, memoryOperand]
    split
    · exact hmask
    · exact hl3
  | isubR | imulR | ixorR | irorR | irolR =>
    rw [compileType, registerOrImm]
    split <;> exact hzero
  | faddM | fsubM | fdivM => exact hmask
  | istore =>
    rw [compileType, compileIstore]
    dsimp only
    split
    · exact hmask
    · exact hl3
  | _ => exact hzero

theorem inside_compiled {config : Config} (h : config.Sized) (program : List Instruction) :
    ∀ ibc ∈ (compiled config 0 beginCompilation program).1,
      Inside config.scratchpadL3Size.toNat ibc := by
  intro ibc hmem
  obtain ⟨k, hk⟩ := List.mem_iff_getElem?.mp hmem
  rw [compiled_getElem?] at hk
  obtain ⟨instr, -, rfl⟩ := Option.map_eq_some_iff.mp hk
  exact inside_compileType h instr k _ _

end VeloxHash.BytecodeMachine
