import VeloxHash.BytecodeExecution

/-! `BytecodeMachine::executeBytecode` comes to an end. Every loop is a `CBRANCH` that jumps
behind the last write to its register or behind the branch before it; what it adds makes it
fall through at the third pass. -/

namespace VeloxHash.BytecodeMachine

open Randomx CodeBuffer

section Condition

variable {s : Nat} {ibc : InstructionByteCode} {x : UInt64}

/-- A branch whose condition starts at bit `s + 8`. -/
structure Conditional (ibc : InstructionByteCode) (s : Nat) : Prop where
  shift_lt : s < 16
  mask : ibc.memMask.toUInt64.toNat = 255 * 2 ^ (s + 8)
  bit : ibc.imm.toNat.testBit (s + 8) = true
  below : ibc.imm.toNat.testBit (s + 7) = false

theorem testBit_branchImm (instr : Instruction) :
    (branchImm instr).toNat.testBit (instr.getModCond + 8) = true ∧
      (branchImm instr).toNat.testBit (instr.getModCond + 7) = false := by
  have hlt := instr.getModCond_lt
  have hpow : ∀ s < 16, ((1 <<< UInt64.ofNat jumpOffset : UInt64) <<< UInt64.ofNat s).toNat =
      2 ^ (s + 8) ∧ ((1 <<< UInt64.ofNat (jumpOffset - 1) : UInt64) <<< UInt64.ofNat s).toNat =
        2 ^ (s + 7) := by decide +kernel
  obtain ⟨hset, hclear⟩ := hpow _ hlt
  have hnot (i : Nat) (hi : i < 64) : (~~~((1 <<< UInt64.ofNat (jumpOffset - 1) : UInt64) <<<
      UInt64.ofNat instr.getModCond)).toNat.testBit i = !decide (instr.getModCond + 7 = i) := by
    rw [UInt64.toNat_not, show UInt64.size - 1 - ((1 <<< UInt64.ofNat (jumpOffset - 1) : UInt64) <<<
      UInt64.ofNat instr.getModCond).toNat = 2 ^ 64 - (((1 <<< UInt64.ofNat (jumpOffset - 1) :
        UInt64) <<< UInt64.ofNat instr.getModCond).toNat + 1) from by rw [UInt64.size]; omega,
      Nat.testBit_two_pow_sub_succ (UInt64.toNat_lt _), hclear, Nat.testBit_two_pow,
      decide_eq_true hi, Bool.true_and]
  unfold branchImm
  dsimp only
  rw [UInt64.toNat_and, UInt64.toNat_or, Nat.testBit_and, Nat.testBit_and, Nat.testBit_or,
    hnot _ (by omega), hnot _ (by omega), hset, Nat.testBit_two_pow_self]
  simp

theorem conditional_compile (instr : Instruction) (i : Int) (usage : Usage) :
    Conditional (compileCbranch instr i usage).1 instr.getModCond := by
  have hlt := instr.getModCond_lt
  have hmask : ∀ s < 16, (conditionMask <<< UInt32.ofNat s).toUInt64.toNat = 255 * 2 ^ (s + 8) := by
    decide +kernel
  exact ⟨hlt, hmask _ hlt, (testBit_branchImm instr).1, (testBit_branchImm instr).2⟩

/-- What the condition and the bit below it say of a value. -/
def field (s : Nat) (x : UInt64) : Nat := x.toNat / 2 ^ (s + 7) % 512

theorem taken_iff (h : Conditional ibc s) (x : UInt64) : taken ibc x = true ↔ field s x < 2 := by
  have hand (n : Nat) : n &&& 255 * 2 ^ (s + 8) = n / 2 ^ (s + 8) % 256 * 2 ^ (s + 8) := by
    apply Nat.eq_of_testBit_eq
    intro i
    rw [Nat.testBit_and, Nat.testBit_mul_two_pow, Nat.testBit_mul_two_pow,
      show 256 = 2 ^ 8 by norm_num, Nat.testBit_mod_two_pow, Nat.testBit_div_two_pow,
      show 255 = 2 ^ 8 - 1 by norm_num, Nat.testBit_two_pow_sub_one]
    by_cases hi : s + 8 ≤ i
    · rw [Nat.sub_add_cancel hi]
      simp [hi, Bool.and_comm]
    · simp [hi]
  have hdiv : x.toNat / 2 ^ (s + 8) = x.toNat / 2 ^ (s + 7) / 2 := by
    rw [Nat.div_div_eq_div_mul, ← pow_succ]
  have hpos : 2 ^ (s + 8) ≠ 0 := by positivity
  rw [taken, beq_iff_eq, ← UInt64.toNat_inj, UInt64.toNat_and, h.mask, hand, hdiv, field]
  change _ * _ = 0 ↔ _
  rw [Nat.mul_eq_zero, or_iff_left hpos]
  omega

theorem field_imm (h : Conditional ibc s) : field s ibc.imm % 4 = 2 ∧ field s ibc.imm < 512 := by
  have hset := h.bit
  have hclear := h.below
  rw [Nat.testBit_eq_decide_div_mod_eq, decide_eq_true_eq] at hset
  rw [Nat.testBit_eq_decide_div_mod_eq, decide_eq_false_iff_not] at hclear
  have hdiv : ibc.imm.toNat / 2 ^ (s + 8) = ibc.imm.toNat / 2 ^ (s + 7) / 2 := by
    rw [Nat.div_div_eq_div_mul, ← pow_succ]
  rw [hdiv] at hset
  unfold field
  omega

/-- Adding the immediate adds up the fields, perhaps with a carry from below. -/
theorem field_add (h : Conditional ibc s) (x : UInt64) :
    ∃ c ≤ 1, field s (x + ibc.imm) = (field s x + field s ibc.imm + c) % 512 := by
  have hlt := h.shift_lt
  obtain ⟨d, hd⟩ : 512 ∣ 2 ^ (57 - s) := by
    rw [show 512 = 2 ^ 9 by norm_num]
    exact pow_dvd_pow 2 (by omega)
  have hword : 2 ^ 64 = 2 ^ (s + 7) * 2 ^ (57 - s) := by
    rw [← pow_add]
    congr 1
    omega
  have hwrap (n : Nat) : n % 2 ^ 64 / 2 ^ (s + 7) % 512 = n / 2 ^ (s + 7) % 512 := by
    rw [hword, Nat.mod_mul_right_div_self, hd, Nat.mod_mod_of_dvd _ (Nat.dvd_mul_right ..)]
  refine ⟨if 2 ^ (s + 7) ≤ x.toNat % 2 ^ (s + 7) + ibc.imm.toNat % 2 ^ (s + 7) then 1 else 0,
    by split <;> omega, ?_⟩
  unfold field
  rw [UInt64.toNat_add, hwrap, Nat.add_div (by positivity)]
  omega

/-- How often the branch jumps when it is passed again and again, from a value of its register. -/
def jumps (ibc : InstructionByteCode) (x : UInt64) : Nat :=
  if taken ibc (x + ibc.imm) then if taken ibc (x + ibc.imm + ibc.imm) then 2 else 1 else 0

theorem jumps_le (ibc : InstructionByteCode) (x : UInt64) : jumps ibc x ≤ 2 := by
  unfold jumps
  split
  · split <;> omega
  · omega

/-- A branch that jumped twice does not jump a third time. -/
theorem jumps_add (h : Conditional ibc s) (htaken : taken ibc (x + ibc.imm) = true) :
    jumps ibc (x + ibc.imm) + 1 ≤ jumps ibc x := by
  unfold jumps
  rw [if_pos htaken]
  by_cases hagain : taken ibc (x + ibc.imm + ibc.imm) = true
  · have hthird : ¬taken ibc (x + ibc.imm + ibc.imm + ibc.imm) = true := by
      rw [taken_iff h] at htaken hagain ⊢
      obtain ⟨c, hc, hfirst⟩ := field_add h (x + ibc.imm)
      obtain ⟨c', hc', hsecond⟩ := field_add h (x + ibc.imm + ibc.imm)
      have himm := field_imm h
      omega
    rw [if_pos hagain, if_neg hthird, if_pos hagain]
  · rw [if_neg hagain, if_neg hagain]

end Condition

section Compiled

variable {config : Config}

/-- The compiler's record of the last write of a register. -/
theorem usageAfter_spec (config : Config) (instrs : List Instruction) (r : Fin 8) :
    -1 ≤ usageAfter config instrs r ∧ usageAfter config instrs r < instrs.length ∧
      ∀ (k : Nat) instr, usageAfter config instrs r < k → instrs[k]? = some instr →
        touches (config.instructionType instr) instr r = false := by
  induction instrs using List.reverseRecOn with
  | nil => exact ⟨le_rfl, (by decide : (-1 : Int) < 0), fun k instr _ hget => nomatch hget⟩
  | append_singleton instrs last ih =>
    obtain ⟨hlow, hlt, hfree⟩ := ih
    rw [usageAfter_append, compileType_usage, List.length_append, List.length_singleton]
    split
    case isTrue htouch =>
      refine ⟨by omega, by push_cast; omega, fun k instr hk hget => ?_⟩
      rw [List.getElem?_eq_none (by
        rw [List.length_append, List.length_singleton]
        omega)] at hget
      exact nomatch hget
    case isFalse hkeep =>
      refine ⟨hlow, by push_cast; omega, fun k instr hk hget => ?_⟩
      rcases Nat.lt_or_ge k instrs.length with hold | hnew
      · rw [List.getElem?_append_left hold] at hget
        exact hfree k instr hk hget
      · rw [List.getElem?_append_right hnew, List.getElem?_singleton] at hget
        obtain ⟨-, hlast⟩ := Option.ite_none_right_eq_some.mp hget
        obtain rfl := Option.some.inj hlast
        exact Bool.eq_false_iff.mpr hkeep

section Kinds

variable (config) (instr : Instruction) (i : Int) (usage : Usage) (type : InstructionType)

/-- The compiler takes note of every register that the instruction may write. -/
theorem touches_of_writes {r : Fin 8}
    (h : writes (compileType config instr i usage type).1 r = true) :
    touches type instr r = true := by
  cases type with
  | imulRcp =>
    simp only [compileType, compileImulRcp] at h
    unfold touches
    split at h
    case isTrue hrcp => simpa [writes, hrcp] using h
    case isFalse => cases h
  | iswapR =>
    simp only [compileType, compileIswapR] at h
    unfold touches
    split at h
    case isTrue hne =>
      simp only [writes, Bool.or_eq_true, beq_iff_eq, IntSource.reg.injEq] at h
      simpa [hne] using h.imp_right Eq.symm
    case isFalse => cases h
  | iaddM | isubM | imulM | imulhM | ismulhM | ixorM =>
    simp only [compileType, memoryOperand] at h
    unfold touches
    split at h <;> exact h
  | isubR | imulR | ixorR | irorR | irolR =>
    simp only [compileType, registerOrImm] at h
    unfold touches
    split at h <;> exact h
  | cbranch => rfl
  | _ => exact h

theorem compileType_type :
    ((compileType config instr i usage type).1.type = .cbranch ↔ type = .cbranch) ∧
      (compileType config instr i usage type).1.type ≠ .imulRcp := by
  cases type with
  | imulRcp =>
    simp only [compileType, compileImulRcp]
    split <;> simp
  | iswapR =>
    simp only [compileType, compileIswapR]
    split <;> simp
  | iaddM | isubM | imulM | imulhM | ismulhM | ixorM =>
    simp only [compileType, memoryOperand]
    split <;> simp
  | isubR | imulR | ixorR | irorR | irolR =>
    simp only [compileType, registerOrImm]
    split <;> simp
  | _ => simp [compileType, compileIaddRs, registerOperand, compileFswapR, floatMemoryOperand,
      compileCbranch, compileCfround, compileIstore]

end Kinds

variable {program : List Instruction}

/-- A branch that jumps to just behind the last write of its register, with no branch between. -/
structure Loop (bytecode : List InstructionByteCode) (i : Nat) (ibc : InstructionByteCode) :
    Prop where
  target_ge : -1 ≤ ibc.target.toInt
  target_lt : ibc.target.toInt < i
  body : ∀ (k : Nat) b, ibc.target.toInt < k → k < i → bytecode[k]? = some b →
    b.type ≠ .cbranch ∧ writes b ibc.idst = false
  condition : ∃ s, Conditional ibc s

theorem loop_compiled (hlen : program.length ≤ programMaxSize) {i : Nat}
    {ibc : InstructionByteCode}
    (hget : (compiled config 0 beginCompilation program).1[i]? = some ibc)
    (hbranch : ibc.type = .cbranch) :
    Loop (compiled config 0 beginCompilation program).1 i ibc := by
  rw [compiled_getElem?] at hget
  obtain ⟨instr, hinstr, rfl⟩ := Option.map_eq_some_iff.mp hget
  obtain ⟨hi, -⟩ := List.getElem?_eq_some_iff.mp hinstr
  rw [(compileType_type ..).1] at hbranch
  rw [hbranch]
  obtain ⟨hlow, hlt, hfree⟩ := usageAfter_spec config (program.take i) instr.dst
  rw [List.length_take_of_le hi.le] at hlt
  have htarget : (Int16.ofInt (usageAfter config (program.take i) instr.dst)).toInt =
      usageAfter config (program.take i) instr.dst := by
    unfold programMaxSize at hlen
    exact Int16.toInt_ofInt_of_le (by omega) (by omega)
  refine ⟨?_, ?_, fun k b hk hki hb => ?_, _, conditional_compile instr i _⟩
  · change -1 ≤ (Int16.ofInt _).toInt
    rwa [htarget]
  · change (Int16.ofInt _).toInt < _
    rwa [htarget]
  · change (Int16.ofInt _).toInt < _ at hk
    rw [htarget] at hk
    rw [compiled_getElem?] at hb
    obtain ⟨earlier, hearlier, rfl⟩ := Option.map_eq_some_iff.mp hb
    have hclean := hfree k earlier hk (by rwa [List.getElem?_take_of_lt hki])
    constructor
    · rw [Ne, (compileType_type ..).1]
      intro htype
      rw [htype] at hclean
      exact nomatch hclean
    · cases hw : writes (compileType config earlier k (usageAfter config (program.take k))
        (config.instructionType earlier)).1 instr.dst with
      | false => exact hw
      | true => exact nomatch hclean.symm.trans (touches_of_writes _ _ _ _ _ hw)

end Compiled

section Execution

variable {v : VectorUnit} {bytecode : List InstructionByteCode} {m t : Machine v}

/-- An executed instruction, and whether it set the counter of the loop back. -/
structure Visit where
  pc : Nat
  jumped : Bool

/-- The body of the loop in `executeBytecode` and its `++pc`. -/
def round (bytecode : List InstructionByteCode) (m : Machine v) : Option (Machine v) := do
  let ibc ← if 0 ≤ m.pc then bytecode[m.pc.toNat]? else none
  let t ← executeInstruction ibc m
  return { t with pc := t.pc + 1 }

/-- The loop of `executeBytecode`, with the instructions that it executes; `none` when it makes
more than the given number of tests, or cannot execute an instruction. -/
def executeFrom (config : Config) (bytecode : List InstructionByteCode) :
    Nat → Machine v → Option (List Visit × Machine v)
  | 0, _ => none
  | fuel + 1, m =>
    if m.pc < config.programSize then do
      let t ← round bytecode m
      let (visits, last) ← executeFrom config bytecode fuel t
      return (⟨m.pc.toNat, t.pc != m.pc + 1⟩ :: visits, last)
    else
      some ([], m)

def executeBytecode (config : Config) (bytecode : List InstructionByteCode) (fuel : Nat)
    (m : Machine v) : Option (List Visit × Machine v) :=
  executeFrom config bytecode fuel { m with pc := 0 }

/-- What the compiler guarantees the executor. -/
structure Structured (config : Config) (bytecode : List InstructionByteCode) : Prop where
  length_eq : bytecode.length = config.programSize
  executable : ∀ ibc ∈ bytecode, ibc.type ≠ .imulRcp
  loop : ∀ (i : Nat) ibc, bytecode[i]? = some ibc → ibc.type = .cbranch → Loop bytecode i ibc

theorem structured_compiled {config : Config} (program : Program config) :
    Structured config (compiled config 0 beginCompilation program.instructions).1 where
  length_eq := (length_compiled ..).trans program.length_eq
  executable := by
    intro ibc hmem
    obtain ⟨k, hk⟩ := List.mem_iff_getElem?.mp hmem
    rw [compiled_getElem?] at hk
    obtain ⟨instr, -, rfl⟩ := Option.map_eq_some_iff.mp hk
    exact (compileType_type ..).2
  loop _ _ := loop_compiled program.length_le

/-- One round goes on to the next instruction, or takes one of the jumps that a branch has left. -/
theorem round_cases {config : Config} (hb : Structured config bytecode) {p : Nat}
    (hpc : m.pc = p) (hp : p < config.programSize) :
    ∃ ibc t, bytecode[p]? = some ibc ∧ round bytecode m = some t ∧
      (∀ q, writes ibc q = false → t.r q = m.r q) ∧
      (t.pc = p + 1 ∨ ibc.type = .cbranch ∧ t.pc = ibc.target.toInt + 1 ∧
        jumps ibc (t.r ibc.idst) + 1 ≤ jumps ibc (m.r ibc.idst)) := by
  rw [← hb.length_eq] at hp
  have hget : bytecode[p]? = some bytecode[p] := List.getElem?_eq_getElem hp
  obtain ⟨m', hm'⟩ := Option.isSome_iff_exists.mp
    (executeInstruction_isSome (m := m) (hb.executable _ (List.getElem_mem hp)))
  refine ⟨bytecode[p], { m' with pc := m'.pc + 1 }, hget, ?_,
    fun q hq => show m'.r q = m.r q from executeInstruction_r hm' hq, ?_⟩
  · unfold round
    rw [hpc, if_pos (Int.natCast_nonneg p), Int.toNat_natCast, hget]
    simp only [Option.bind_eq_bind, Option.bind_some, hm']
    rfl
  · by_cases htype : bytecode[p].type = .cbranch
    · have hm : exeCbranch bytecode[p] m = m' := by
        unfold executeInstruction at hm'
        rw [htype] at hm'
        exact Option.some.inj hm'
      subst hm
      obtain ⟨s, hcond⟩ := (hb.loop p _ hget htype).condition
      by_cases htaken : taken bytecode[p] (m.r bytecode[p].idst + bytecode[p].imm) = true
      · refine .inr ⟨htype, ?_, ?_⟩
        · simp only [exeCbranch, if_pos htaken]
        · simp only [exeCbranch, Machine.setReg, Function.update_self]
          exact jumps_add hcond htaken
      · left
        simp only [exeCbranch, if_neg htaken, hpc]
    · left
      simp only [executeInstruction_pc hm' htype, hpc]

/-- The jumps that a branch may still take. -/
def left (i : Nat) (ibc : InstructionByteCode) (m : Machine v) : Nat :=
  if m.pc ≤ i then if ibc.target.toInt < m.pc then jumps ibc (m.r ibc.idst) else 2 else 0

theorem left_le (i : Nat) (ibc : InstructionByteCode) (m : Machine v) : left i ibc m ≤ 2 := by
  unfold left
  split
  · split
    · exact jumps_le ..
    · exact le_rfl
  · omega

section Step

variable {config : Config} (hb : Structured config bytecode) {p j : Nat} {b : InstructionByteCode}
include hb

/-- The rounds of one branch leave the others where they are. -/
theorem left_round (hpc : m.pc = p) (hp : p < config.programSize)
    (hround : round bytecode m = some t) (hget : bytecode[j]? = some b) (hbranch : b.type = .cbranch) :
    left j b t + (if p = j ∧ t.pc ≠ p + 1 then 1 else 0) ≤ left j b m := by
  obtain ⟨ibc, t', hibc, hround', hframe, hnext⟩ := round_cases hb hpc hp
  obtain rfl := Option.some.inj (hround.symm.trans hround')
  have hloop := hb.loop j b hget hbranch
  have htwo := left_le j b t
  rcases hnext with hforward | ⟨htype, hjump, hless⟩
  · rw [if_neg fun h => h.2 hforward]
    unfold left at htwo ⊢
    rw [hforward] at htwo ⊢
    rw [hpc]
    by_cases hle : (p : Int) + 1 ≤ j
    · by_cases hin : b.target.toInt < p
      · have hclean := (hloop.body p ibc hin (by omega) hibc).2
        rw [if_pos hle, if_pos (by omega), if_pos (by omega), if_pos hin, hframe _ hclean]
        exact le_rfl
      · rw [if_pos (show (p : Int) ≤ j by omega), if_neg hin]
        exact htwo
    · rw [if_neg hle]
      exact Nat.zero_le _
  · have htaken := hb.loop p ibc hibc htype
    have hlow := htaken.target_lt
    rcases Nat.lt_trichotomy j p with hlt | rfl | hgt
    · have hafter : ¬ibc.target.toInt < j := fun hin =>
        (htaken.body j b hin (by omega) hget).1 hbranch
      have hnot : ¬(p = j ∧ t.pc ≠ p + 1) := fun h => absurd h.1 (by omega)
      unfold left
      rw [if_neg hnot, hjump, if_neg (by omega)]
      exact Nat.zero_le _
    · obtain rfl := Option.some.inj (hget.symm.trans hibc)
      have hback : j = j ∧ t.pc ≠ j + 1 := ⟨rfl, by omega⟩
      unfold left
      rw [if_pos hback, hjump, hpc, if_pos (by omega), if_pos (by omega), if_pos le_rfl,
        if_pos hlow]
      exact hless
    · have hbefore : ¬b.target.toInt < p := fun hin =>
        (hloop.body p ibc hin (by omega) hibc).1 htype
      have hnot : ¬(p = j ∧ t.pc ≠ p + 1) := fun h => absurd h.1 (by omega)
      rw [if_neg hnot]
      unfold left at htwo ⊢
      rw [hpc, if_pos (show (p : Int) ≤ j by omega), if_neg hbefore]
      exact htwo

end Step

/-- The body of the loop that a branch closes. -/
structure InBody (bytecode : List InstructionByteCode) (q : Nat) (x : Nat × InstructionByteCode) :
    Prop where
  get : bytecode[x.1]? = some x.2
  branch : x.2.type = .cbranch
  target_lt : x.2.target.toInt < q
  le : q ≤ x.1

/-- No instruction is in the loop bodies of two branches. -/
theorem inBody_unique {config : Config} (hb : Structured config bytecode) {q : Nat}
    {x y : Nat × InstructionByteCode} (hx : InBody bytecode q x) (hy : InBody bytecode q y) :
    x = y := by
  have happart {x y : Nat × InstructionByteCode} (hx : InBody bytecode q x)
      (hy : InBody bytecode q y) : ¬x.1 < y.1 := by
    intro hlt
    have hq := hx.le
    exact ((hb.loop _ _ hy.get hy.branch).body x.1 x.2 (by have := hy.target_lt; omega) hlt
      hx.get).1 hx.branch
  have hfst : x.1 = y.1 := Nat.le_antisymm (Nat.not_lt.mp (happart hy hx))
    (Nat.not_lt.mp (happart hx hy))
  exact Prod.ext hfst (Option.some.inj (hx.get.symm.trans (hfst ▸ hy.get)))

open Classical in
/-- The jumps back over an instruction that are left. -/
noncomputable def repeats (bytecode : List InstructionByteCode) (q : Nat) (m : Machine v) : Nat :=
  if h : ∃ x, InBody bytecode q x then left h.choose.1 h.choose.2 m else 0

theorem repeats_eq {config : Config} (hb : Structured config bytecode) {q : Nat}
    {x : Nat × InstructionByteCode} (hx : InBody bytecode q x) (m : Machine v) :
    repeats bytecode q m = left x.1 x.2 m := by
  have hex : ∃ x, InBody bytecode q x := ⟨x, hx⟩
  rw [repeats, dif_pos hex, inBody_unique hb hex.choose_spec hx]

theorem repeats_le (bytecode : List InstructionByteCode) (q : Nat) (m : Machine v) :
    repeats bytecode q m ≤ 2 := by
  unfold repeats
  split
  · exact left_le ..
  · omega

/-- How often an instruction may still be executed. -/
noncomputable def visitsLeft (bytecode : List InstructionByteCode) (m : Machine v) (q : Nat) :
    Nat :=
  (if m.pc ≤ q then 1 else 0) + repeats bytecode q m

theorem visitsLeft_le (bytecode : List InstructionByteCode) (q : Nat) (m : Machine v) :
    visitsLeft bytecode m q ≤ 3 := by
  have := repeats_le bytecode q m
  unfold visitsLeft
  split <;> omega

section Step

variable {config : Config} (hb : Structured config bytecode) {p : Nat}
include hb

theorem repeats_round (hpc : m.pc = p) (hp : p < config.programSize)
    (hround : round bytecode m = some t) (q : Nat) :
    repeats bytecode q t ≤ repeats bytecode q m := by
  by_cases hex : ∃ x, InBody bytecode q x
  · obtain ⟨x, hx⟩ := hex
    rw [repeats_eq hb hx, repeats_eq hb hx]
    exact Nat.le_of_add_right_le (left_round hb hpc hp hround hx.get hx.branch)
  · unfold repeats
    rw [dif_neg hex, dif_neg hex]

/-- A round uses up one of the executions that its instruction has left. -/
theorem visitsLeft_round (hpc : m.pc = p) (hp : p < config.programSize)
    (hround : round bytecode m = some t) (q : Nat) :
    visitsLeft bytecode t q + (if q = p then 1 else 0) ≤ visitsLeft bytecode m q := by
  obtain ⟨ibc, t', hibc, hround', -, hnext⟩ := round_cases hb hpc hp
  obtain rfl := Option.some.inj (hround.symm.trans hround')
  have hmono := repeats_round hb hpc hp hround q
  unfold visitsLeft
  rcases hnext with hforward | ⟨htype, hjump, -⟩
  · rw [hforward, hpc]
    split_ifs <;> omega
  · have hlow := (hb.loop p ibc hibc htype).target_lt
    by_cases hin : ibc.target.toInt < q ∧ q ≤ p
    · have hbody : InBody bytecode q (p, ibc) := ⟨hibc, htype, hin.1, hin.2⟩
      have hless := left_round hb hpc hp hround hibc htype
      have hback : p = p ∧ t.pc ≠ p + 1 := ⟨rfl, by omega⟩
      rw [if_pos hback] at hless
      rw [repeats_eq hb hbody, repeats_eq hb hbody, hjump, hpc, if_pos (by omega)]
      dsimp only
      split_ifs <;> omega
    · rw [hjump, hpc]
      split_ifs <;> omega

theorem sum_visitsLeft_round (hpc : m.pc = p) (hp : p < config.programSize)
    (hround : round bytecode m = some t) :
    (∑ q ∈ Finset.range config.programSize, visitsLeft bytecode t q) + 1 ≤
      ∑ q ∈ Finset.range config.programSize, visitsLeft bytecode m q := by
  have hone : ∑ q ∈ Finset.range config.programSize, (if q = p then 1 else 0) = 1 := by
    rw [Finset.sum_ite_eq', if_pos (Finset.mem_range.mpr hp)]
  calc (∑ q ∈ Finset.range config.programSize, visitsLeft bytecode t q) + 1
      = ∑ q ∈ Finset.range config.programSize,
          (visitsLeft bytecode t q + if q = p then 1 else 0) := by
        rw [Finset.sum_add_distrib, hone]
    _ ≤ _ := Finset.sum_le_sum fun q _ => visitsLeft_round hb hpc hp hround q

/-- The loop ends before the executions that are left run out, and a branch jumps no more often
than it may. -/
theorem executeFrom_spec (fuel : Nat) (hpc : m.pc = p) (hp : p ≤ config.programSize)
    (hfuel : ∑ q ∈ Finset.range config.programSize, visitsLeft bytecode m q < fuel) :
    ∃ visits last, executeFrom config bytecode fuel m = some (visits, last) ∧
      visits.length ≤ ∑ q ∈ Finset.range config.programSize, visitsLeft bytecode m q ∧
      ∀ j b, bytecode[j]? = some b → b.type = .cbranch →
        visits.countP (fun x => x.pc == j && x.jumped) ≤ left j b m := by
  induction fuel generalizing m p with
  | zero => exact absurd hfuel (Nat.not_lt_zero _)
  | succ fuel ih =>
    unfold executeFrom
    by_cases hlt : p < config.programSize
    · obtain ⟨ibc, t, hibc, hround, -, hnext⟩ := round_cases hb hpc hlt
      obtain ⟨p', hp', hpc'⟩ : ∃ p' : Nat, p' ≤ config.programSize ∧ t.pc = p' := by
        rcases hnext with hforward | ⟨htype, hjump, -⟩
        · exact ⟨p + 1, hlt, hforward⟩
        · have hloop := hb.loop p ibc hibc htype
          have := hloop.target_ge
          have := hloop.target_lt
          exact ⟨t.pc.toNat, by omega, by omega⟩
      have hsum := sum_visitsLeft_round hb hpc hlt hround
      obtain ⟨visits, last, hrun, hlen, hcount⟩ := ih hpc' hp' (by omega)
      refine ⟨⟨m.pc.toNat, t.pc != m.pc + 1⟩ :: visits, last, ?_, ?_, fun j b hget hbranch => ?_⟩
      · rw [if_pos (by omega), hround]
        simp only [Option.bind_eq_bind, Option.bind_some, hrun]
        rfl
      · rw [List.length_cons]
        omega
      · have hstep := left_round hb hpc hlt hround hget hbranch
        have hrest := hcount j b hget hbranch
        rw [List.countP_cons, hpc]
        simp only [Int.toNat_natCast, Bool.and_eq_true, beq_iff_eq, bne_iff_ne]
        omega
    · rw [if_neg (by omega)]
      exact ⟨[], m, rfl, Nat.zero_le _, fun j b _ _ => Nat.zero_le _⟩

end Step

theorem sum_visitsLeft_le {config : Config} (program : Program config) (m : Machine v) :
    ∑ q ∈ Finset.range config.programSize,
      visitsLeft (compiled config 0 beginCompilation program.instructions).1 m q ≤
        3 * config.programSize := by
  refine (Finset.sum_le_card_nsmul _ _ 3 fun q _ => visitsLeft_le _ q _).trans ?_
  rw [Finset.card_range, smul_eq_mul, Nat.mul_comm]

/-- Every program runs to its end on every machine. Its branches close loops that have no
instruction in common, each taken at most twice, so that three times the size of the program
bounds what is executed. -/
theorem executeBytecode_terminates {config : Config} (program : Program config) (m : Machine v) :
    ∃ bytecode usage, compileProgram program = some (bytecode, usage) ∧
      (∀ i ibc, bytecode[i]? = some ibc → ibc.type = .cbranch → Loop bytecode i ibc) ∧
      (∀ q x y, InBody bytecode q x → InBody bytecode q y → x = y) ∧
      ∃ visits last,
        executeBytecode config bytecode (3 * config.programSize + 1) m = some (visits, last) ∧
        visits.length ≤ 3 * config.programSize ∧
        ∀ i ibc, bytecode[i]? = some ibc → ibc.type = .cbranch →
          visits.countP (fun x => x.pc == i && x.jumped) ≤ 2 := by
  have hb := structured_compiled program
  have htotal := sum_visitsLeft_le program { m with pc := 0 }
  obtain ⟨visits, last, hrun, hlen, hcount⟩ := executeFrom_spec (m := { m with pc := 0 }) hb
    (3 * config.programSize + 1) (p := 0) rfl (Nat.zero_le _) (Nat.lt_succ_of_le htotal)
  exact ⟨_, _, compileFrom_eq .., hb.loop, fun q x y => inBody_unique hb, visits, last, hrun,
    hlen.trans htotal, fun i ibc hget hbranch => (hcount i ibc hget hbranch).trans (left_le ..)⟩

end Execution

end VeloxHash.BytecodeMachine
