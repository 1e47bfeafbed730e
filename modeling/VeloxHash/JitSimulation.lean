import VeloxHash.JitExecution
import VeloxHash.StutteringSimulation

/-! The processor simulates the interpreter, up to instructions without code and up to
rounding-mode changes that no rounding instruction sees. -/

namespace VeloxHash.JitSimulation

open Randomx CodeBuffer CodeBuffer.Store JitCompilerX86 BytecodeMachine JitLayout JitBranchTarget
  JitRounding JitExecution StutteringSimulation

/-- What a finished buffer decodes to. -/
structure Decodes (b : Build) (code : Memory) : Prop where
  branch : ∀ c instr, b.Has c instr .cbranch → branchAt code (b.start c) =
    some ⟨instr.dst, (branchAddend instr).toNat, (branchMask instr).toNat,
      b.start (c + 1) - b.start c, b.start (b.usageAt c instr.dst + 1).toNat - b.start (c + 1)⟩
  round : ∀ c instr, b.Has c instr .cfround →
    decodeRound (read code (b.start c) (b.start (c + 1) - b.start c)) =
        some (.load instr.src (roundRotate instr).toNat b.host.amd) ∨
      decodeRound (read code (b.start c) (b.start (c + 1) - b.start c)) = some .skip ∧
        Masked b (c + 1)

theorem decodes_finished (b : Build) (hlen : b.instrs.length ≤ programMaxSize)
    (tail : List Store) : Decodes b ((b.stateAt b.instrs.length).put tail).code where
  branch c instr h := branchAt_eq b hlen h tail
  round c instr h := by
    have hc : c < b.instrs.length := (List.getElem?_eq_some_iff.mp h.get).1
    have hend : b.start c + roundSize b.host ≤ (b.stateAt b.instrs.length).codePos := by
      rw [← h.start_cfround]
      exact b.start_mono hc
    rw [h.start_cfround, Nat.add_sub_cancel_left, put_code, read_emit_below tail hend]
    rcases read_cfround h hc with hkept | ⟨hdropped, hmasked⟩
    · rw [hkept]
      exact .inl (decodeRound_code b.host instr)
    · rw [hdropped]
      exact .inr ⟨decodeRound_nops b.host, hmasked⟩

variable {D : Type*} (dp : Datapath D) {b : Build} {code : Memory} {i : Nat} {instr : Instruction}
  {type : InstructionType}

/-- A change that is not dropped takes effect, whether or not the last mode is kept. -/
theorem runRound_load {t : Processor D} (reg c : Nat) (cached : Bool)
    (hslot : t.slot = 0xFFFFFFFF ∨ cached = true ∧ t.mxcsr = controlWord t.slot) :
    (runRound dp (.load reg c cached) t).mxcsr =
        controlWord ((JitExecution.rotr64 (dp.reg t.data (.ofNat 8 reg)) c).toUInt32 &&& 12) ∧
      ((runRound dp (.load reg c cached) t).slot = 0xFFFFFFFF ∨
        cached = true ∧ (runRound dp (.load reg c cached) t).mxcsr =
          controlWord (runRound dp (.load reg c cached) t).slot) ∧
      (runRound dp (.load reg c cached) t).data = t.data ∧
      (runRound dp (.load reg c cached) t).rounded = t.rounded := by
  have hword (x : UInt32) : x &&& 12 ≠ 0xFFFFFFFF := fun h => by
    have hle : (x &&& 12).toNat ≤ 12 := by
      rw [UInt32.toNat_and]
      exact Nat.and_le_right
    rw [h] at hle
    exact absurd hle (by decide)
  simp only [runRound]
  cases cached with
  | false =>
    have hunused : t.slot = 0xFFFFFFFF := hslot.resolve_right (by simp)
    exact ⟨rfl, .inl hunused, rfl, rfl⟩
  | true =>
    simp only [if_true]
    split
    · rename_i heq
      have hkept := (hslot.resolve_left (heq ▸ hword _)).2
      exact ⟨heq ▸ hkept, .inr ⟨trivial, hkept⟩, rfl, rfl⟩
    · exact ⟨rfl, .inr ⟨trivial, rfl⟩, rfl, rfl⟩

/-- Both machines are about to run instruction `i` on the same data, under the same control
word unless the next rounding is masked. -/
structure RelatedAt (b : Build) (i : Nat) (s : Interpreter D) (t : Processor D) : Prop where
  le : i ≤ b.instrs.length
  pc : s.pc = i
  pos : t.pc = b.start i
  data : t.data = s.data
  rounded : t.rounded = s.rounded
  mode : t.mxcsr = s.mxcsr ∨ Masked b i
  slot : t.slot = 0xFFFFFFFF ∨ b.host.amd = true ∧ t.mxcsr = controlWord t.slot

def Related (b : Build) (s : Interpreter D) (t : Processor D) : Prop := ∃ i, RelatedAt b i s t

/-- The bytecode of a compilation. -/
def bytecodeOf (b : Build) : List InstructionByteCode :=
  (compiled b.config 0 beginCompilation b.instrs).1

theorem length_bytecodeOf (b : Build) : (bytecodeOf b).length = b.instrs.length :=
  length_compiled ..

theorem bytecodeOf_get (h : b.Has i instr type) :
    (bytecodeOf b)[i]? = some (compileType b.config instr i (b.usageAt i) type).1 := by
  rw [bytecodeOf, compiled_getElem?, h.get, Option.map_some, h.type_eq]
  rfl

theorem interpret_eq (h : b.Has i instr type) {s : Interpreter D} (hpc : s.pc = i) :
    interpret dp (bytecodeOf b) s =
      let s' := JitExecution.executeInstruction dp
        (compileType b.config instr i (b.usageAt i) type).1 s
      some { s' with pc := s'.pc + 1 } := by
  have hi : i < b.instrs.length := (List.getElem?_eq_some_iff.mp h.get).1
  rw [interpret, hpc, length_bytecodeOf, if_neg (by omega), Int.toNat_natCast, bytecodeOf_get h,
    Option.map_some]

theorem process_eq (h : b.Has i instr type) {t : Processor D} (hpos : t.pc = b.start i)
    (hne : b.start i ≠ b.start (i + 1)) : process dp b code t = runCode dp b code i t := by
  have hi : i < b.instrs.length := (List.getElem?_eq_some_iff.mp h.get).1
  have hlt : b.start i < b.start (i + 1) := lt_of_le_of_ne (b.start_succ i).1 hne
  have hend := b.start_mono (show i + 1 ≤ b.instrs.length from hi)
  rw [process, hpos, if_neg (by omega), codeAt_start b hi hne, Option.bind_some]

section Step

variable {s : Interpreter D} {t : Processor D}

theorem RelatedAt.wrap (hst : RelatedAt b b.instrs.length s t) :
    ∃ s', interpret dp (bytecodeOf b) s = some s' ∧
      ∃ t', process dp b code t = some t' ∧ Related b s' t' := by
  refine ⟨_, if_pos (by rw [hst.pc, length_bytecodeOf]), _, if_pos hst.pos, 0, ?_⟩
  have hmode : t.mxcsr = s.mxcsr := hst.mode.resolve_right fun hm => absurd hm.lt (lt_irrefl _)
  exact ⟨Nat.zero_le _, rfl, rfl, by rw [hst.data], hst.rounded, .inl hmode, hst.slot⟩

theorem RelatedAt.cfround (hcode : Decodes b code) (h : b.Has i instr .cfround)
    (hst : RelatedAt b i s t) :
    ∃ s', interpret dp (bytecodeOf b) s = some s' ∧
      ∃ t', process dp b code t = some t' ∧ Related b s' t' := by
  have hi : i < b.instrs.length := (List.getElem?_eq_some_iff.mp h.get).1
  have hne : b.start i ≠ b.start (i + 1) := by
    rw [h.start_cfround, roundSize]
    split <;> omega
  have hrun (round : RoundCode)
      (hround : decodeRound (read code (b.start i) (b.start (i + 1) - b.start i)) = some round) :
      process dp b code t = some { runRound dp round t with pc := b.start (i + 1) } := by
    rw [process_eq dp h hst.pos hne, runCode, h.get, Option.map_some, h.type_eq, Option.bind_some]
    simp only
    rw [hst.pos, hround, Option.map_some]
  have hword : controlWord
      ((JitExecution.rotr64 (dp.reg s.data instr.src) (roundRotate instr).toNat).toUInt32 &&& 12) =
        setRoundingMode
          (JitExecution.rotr64 (dp.reg s.data instr.src)
            (instr.imm32 &&& 63).toUInt64.toNat % 4).toUInt32 := by
    have hmask : (instr.imm32 &&& 63).toUInt64.toNat = instr.imm32.toNat % 64 := by
      rw [UInt32.toNat_toUInt64, UInt32.toNat_and]
      exact Nat.and_two_pow_sub_one_eq_mod _ 6
    rw [hmask]
    exact controlWord_eq _ (Nat.mod_lt _ (by decide)) (toNat_roundRotate instr)
  refine ⟨_, interpret_eq dp h hst.pc, ?_⟩
  rcases hcode.round i instr h with hload | ⟨hskip, hmasked⟩
  · obtain ⟨hmode, hslot, hdata, hrounded⟩ :=
      runRound_load dp instr.src.val (roundRotate instr).toNat b.host.amd hst.slot
    rw [show Fin.ofNat 8 instr.src.val = instr.src from Fin.ofNat_val_eq_self _, hst.data,
      hword] at hmode
    refine ⟨_, hrun _ hload, i + 1, hi, ?_, rfl, hdata.trans hst.data, hrounded.trans hst.rounded,
      .inl hmode, hslot⟩
    simp [JitExecution.executeInstruction, compileType, compileCfround, exeCfround, hst.pc]
  · refine ⟨_, hrun _ hskip, i + 1, hi, ?_, rfl, hst.data, hst.rounded, .inr hmasked, hst.slot⟩
    simp [JitExecution.executeInstruction, compileType, compileCfround, exeCfround, hst.pc]

theorem RelatedAt.cbranch (hlen : b.instrs.length ≤ programMaxSize) (hcode : Decodes b code) (h : b.Has i instr .cbranch)
    (hst : RelatedAt b i s t) :
    ∃ s', interpret dp (bytecodeOf b) s = some s' ∧
      ∃ t', process dp b code t = some t' ∧ Related b s' t' := by
  have hi : i < b.instrs.length := (List.getElem?_eq_some_iff.mp h.get).1
  have hne : b.start i ≠ b.start (i + 1) := by
    rw [h.start_cbranch, size_branchCode]
    omega
  have hend := (b.start_succ i).1
  obtain ⟨hlow, hback, -⟩ := b.registerUsage_eq i hi.le instr.dst
  have hrun : process dp b code t = some (runBranch dp
      ⟨instr.dst, (branchAddend instr).toNat, (branchMask instr).toNat,
        b.start (i + 1) - b.start i,
        b.start (b.usageAt i instr.dst + 1).toNat - b.start (i + 1)⟩ t) := by
    rw [process_eq dp h hst.pos hne, runCode, h.get, Option.map_some, h.type_eq, Option.bind_some]
    simp only
    rw [hst.pos, hcode.branch i instr h, Option.map_some]
  refine ⟨_, interpret_eq dp h hst.pc, _, hrun, ?_⟩
  have htarget : (Int16.ofInt (b.usageAt i instr.dst)).toInt = b.usageAt i instr.dst :=
    b.target_toInt hlen hi.le instr.dst
  simp only [runBranch, JitExecution.executeInstruction, compileType, compileCbranch,
    JitExecution.exeCbranch,
    Fin.ofNat_val_eq_self, UInt32.ofNat_toNat, signExtend_addend, signExtend_mask, hst.data]
  by_cases htaken : (dp.reg s.data instr.dst + branchImm instr) &&&
      (conditionMask <<< UInt32.ofNat instr.getModCond).toUInt64 = 0
  · simp only [htaken, if_true, htarget]
    refine ⟨(b.usageAt i instr.dst + 1).toNat, by omega, ?_, ?_, rfl, hst.rounded,
      hst.mode.imp_right fun hm => hm.branch h, hst.slot⟩
    · simp only
      omega
    · simp only [hst.pos]
      omega
  · simp only [htaken, if_false]
    refine ⟨i + 1, hi, ?_, ?_, rfl, hst.rounded, hst.mode.imp_right fun hm => hm.succ h (by decide),
      hst.slot⟩
    · simp only [hst.pc]
      omega
    · simp only [hst.pos]
      omega

theorem executeInstruction_straight {ibc : InstructionByteCode} (hbranch : ibc.type ≠ .cbranch)
    (hround : ibc.type ≠ .cfround) (hnop : ibc.type ≠ .nop) (s : Interpreter D) :
    JitExecution.executeInstruction dp ibc s =
      if ibc.type.rounds then
        { s with
          data := dp.round s.pc.toNat s.mxcsr s.data
          rounded := (s.pc, s.mxcsr) :: s.rounded }
      else
        { s with data := dp.plain s.pc.toNat s.data } := by
  unfold JitExecution.executeInstruction
  split
  · contradiction
  · contradiction
  · contradiction
  · rfl

theorem runCode_straight (h : b.Has i instr type) (hbranch : type ≠ .cbranch)
    (hround : type ≠ .cfround) (hnop : type ≠ .nop) (t : Processor D) :
    runCode dp b code i t =
      some (if type.rounds then
        { t with
          data := dp.round i t.mxcsr t.data
          rounded := (i, t.mxcsr) :: t.rounded
          pc := b.start (i + 1) }
      else
        { t with data := dp.plain i t.data, pc := b.start (i + 1) }) := by
  rw [runCode, h.get, Option.map_some, h.type_eq, Option.bind_some]
  split
  · contradiction
  · contradiction
  · contradiction
  · rfl

/-- The instructions left before the end of the pass. -/
def rank (b : Build) (s : Interpreter D) : Nat := (b.instrs.length - s.pc).toNat

theorem RelatedAt.straight (h : b.Has i instr type) (hbranch : type ≠ .cbranch)
    (hround : type ≠ .cfround) (hst : RelatedAt b i s t) :
    ∃ s', interpret dp (bytecodeOf b) s = some s' ∧
      (Related b s' t ∧ rank b s' < rank b s ∨
        ∃ t', process dp b code t = some t' ∧ Related b s' t') := by
  have hi : i < b.instrs.length := (List.getElem?_eq_some_iff.mp h.get).1
  have hmode := hst.mode.imp_right fun hm => hm.succ h hround
  have hpcnat : s.pc.toNat = i := by rw [hst.pc, Int.toNat_natCast]
  have hpcnext : s.pc + 1 = ((i + 1 : Nat) : Int) := by rw [hst.pc, Int.natCast_succ]
  refine ⟨_, interpret_eq dp h hst.pc, ?_⟩
  by_cases hnop : type = .nop
  · -- one byte of code and no effect on either side
    subst hnop
    have hone : b.start (i + 1) = b.start i + 1 := by
      rw [Build.start, h.stateAt_succ, Build.start]
      rfl
    refine .inr ⟨{ t with pc := b.start (i + 1) }, ?_, i + 1, hi, hpcnext, rfl, hst.data,
      hst.rounded, hmode, hst.slot⟩
    rw [process_eq dp h hst.pos (by omega), runCode, h.get, Option.map_some, h.type_eq,
      Option.bind_some]
  · have hempty := handler_empty_iff b.host b.config instr (b.stateAt i) i (b.usageAt i) type
      hbranch hround hnop
    rw [← h.stateAt_succ] at hempty
    by_cases hcode : b.start (i + 1) = b.start i
    · have hskip := hempty.mp hcode
      left
      simp only [JitExecution.executeInstruction, hskip]
      refine ⟨⟨i + 1, hi, hpcnext, by rw [hst.pos, hcode], hst.data, hst.rounded, hmode,
        hst.slot⟩, ?_⟩
      simp only [rank, hst.pc]
      omega
    · have hibc := JitExecution.compileType_type b.config instr i (b.usageAt i) type
      have hskip := mt hempty.mpr hcode
      generalize (compileType b.config instr i (b.usageAt i) type).1 = ibc at hibc hskip
      have hkind : ibc.type ≠ .cbranch ∧ ibc.type ≠ .cfround ∧
          ibc.type.rounds = type.rounds := by
        rcases hibc with heq | ⟨hsource, himul | hnone⟩
        · rw [heq]
          exact ⟨hbranch, hround, rfl⟩
        · rw [himul]
          rcases hsource with rfl | rfl <;> decide
        · contradiction
      right
      refine ⟨_, (process_eq dp h hst.pos (Ne.symm hcode)).trans
        (runCode_straight dp h hbranch hround hnop t), i + 1, ?_⟩
      rw [executeInstruction_straight dp hkind.1 hkind.2.1 hskip, hkind.2.2, hpcnat]
      cases hfp : type.rounds with
      | false =>
        exact ⟨hi, hpcnext, rfl, by simp [hst.data], hst.rounded, hmode, hst.slot⟩
      | true =>
        have hword : t.mxcsr = s.mxcsr :=
          hst.mode.resolve_right fun hm => by simp [hm.not_rounds h] at hfp
        exact ⟨hi, hpcnext, rfl, by simp [hst.data, hword], by simp [hst.rounded, hst.pc, hword],
          hmode, hst.slot⟩

end Step

theorem simulates (hlen : b.instrs.length ≤ programMaxSize) (hcode : Decodes b code) :
    Simulates (interpret dp (bytecodeOf b)) (process dp b code) (Related b) (rank b) := by
  rintro s t ⟨i, hst⟩
  rcases Nat.lt_or_eq_of_le hst.le with hi | rfl
  · have h := b.has_of_get (List.getElem?_eq_getElem hi)
    generalize b.config.instructionType b.instrs[i] = type at h
    by_cases hround : type = .cfround
    · obtain ⟨s', hs, hnext⟩ := hst.cfround dp hcode (hround ▸ h)
      exact ⟨s', hs, .inr hnext⟩
    · by_cases hbranch : type = .cbranch
      · obtain ⟨s', hs, hnext⟩ := hst.cbranch dp hlen hcode (hbranch ▸ h)
        exact ⟨s', hs, .inr hnext⟩
      · exact hst.straight dp h hbranch hround
  · obtain ⟨s', hs, hnext⟩ := hst.wrap dp
    exact ⟨s', hs, .inr hnext⟩

/-- Every floating-point instruction of the compiled program runs under the control word, hence
the rounding mode, it has in the interpreter: for every data path, and so for every path
through the branches, each prefix of either execution is matched by one of the other in
which the same instructions rounded under the same words and the data agree. -/
theorem rounding_modes (host : Host) {config : Config} (program : Program config)
    (readReg2 readReg3 : UInt32) (fixed : Memory) (tail : List Store) (dp : Datapath D) (data : D)
    (mxcsr : UInt32) :
    ∃ bytecode usage, compileProgram program = some (bytecode, usage) ∧
      let b := buildOf host program fixed
      let code := ((generateProgramPrologue host program readReg2 readReg3 fixed).put tail).code
      let interpreted n := steps (interpret dp bytecode) n ⟨0, mxcsr, data, []⟩
      let executed n := steps (process dp b code) n ⟨b.start 0, mxcsr, 0xFFFFFFFF, data, []⟩
      (∀ n, ∃ s k t, interpreted n = some s ∧ executed k = some t ∧
        t.rounded = s.rounded ∧ t.data = s.data) ∧
      ∀ k, ∃ t n s, executed k = some t ∧ interpreted n = some s ∧
        t.rounded = s.rounded ∧ t.data = s.data := by
  refine ⟨_, _, compileFrom_eq .., ?_⟩
  obtain ⟨stores, hdone⟩ := finished host program readReg2 readReg3 fixed tail
  have hlen : (buildOf host program fixed).instrs.length ≤ programMaxSize := program.length_le
  simp only [hdone]
  have hsim := simulates dp hlen (decodes_finished (buildOf host program fixed) hlen stores)
  have hstart : Related (buildOf host program fixed) (⟨0, mxcsr, data, []⟩ : Interpreter D)
      ⟨(buildOf host program fixed).start 0, mxcsr, 0xFFFFFFFF, data, []⟩ :=
    ⟨0, Nat.zero_le _, rfl, rfl, rfl, rfl, .inl rfl, .inl rfl⟩
  refine ⟨fun n => ?_, fun k => ?_⟩
  · obtain ⟨s, k, t, hs, -, ht, i, hst⟩ := hsim.forward n hstart
    exact ⟨s, k, t, hs, ht, hst.rounded, hst.data⟩
  · obtain ⟨t, n, s, ht, hs, i, hst⟩ := hsim.backward k hstart
    exact ⟨t, n, s, ht, hs, hst.rounded, hst.data⟩

end VeloxHash.JitSimulation
