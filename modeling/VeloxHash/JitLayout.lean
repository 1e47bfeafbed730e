import VeloxHash.BytecodeMachine
import VeloxHash.JitCompilerX86
import Mathlib.Data.Nat.Bitwise

/-! What one handler does to the compiler's state, and from it where the code of each
instruction lies in the finished buffer and what it reads back as. -/

namespace VeloxHash.JitLayout

open Randomx CodeBuffer CodeBuffer.Store JitCompilerX86 BytecodeMachine

section Fields

variable (s : Jit) (dst r : Fin 8) (stores : List Store)

@[simp] theorem put_code : (s.put stores).code = emit s.code s.codePos stores := rfl
@[simp] theorem put_codePos : (s.put stores).codePos = s.codePos + size stores := rfl
@[simp] theorem put_registerUsage : (s.put stores).registerUsage = s.registerUsage := rfl
@[simp] theorem put_prevCFROUND : (s.put stores).prevCFROUND = s.prevCFROUND := rfl
@[simp] theorem put_prevFPOperation : (s.put stores).prevFPOperation = s.prevFPOperation := rfl
@[simp] theorem put_storage : (s.put stores).imulRcpStorage = s.imulRcpStorage := rfl
@[simp] theorem put_storageUsed : (s.put stores).imulRcpStorageUsed = s.imulRcpStorageUsed := rfl

@[simp] theorem use_code : (s.use r).code = s.code := rfl
@[simp] theorem use_codePos : (s.use r).codePos = s.codePos := rfl
@[simp] theorem use_prevCFROUND : (s.use r).prevCFROUND = s.prevCFROUND := rfl
@[simp] theorem use_prevFPOperation : (s.use r).prevFPOperation = s.prevFPOperation := rfl
@[simp] theorem use_storage : (s.use r).imulRcpStorage = s.imulRcpStorage := rfl
@[simp] theorem use_storageUsed : (s.use r).imulRcpStorageUsed = s.imulRcpStorageUsed := rfl

@[simp] theorem use_registerUsage (q : Fin 8) :
    (s.use r).registerUsage q = if q = r then (s.codePos : Int) else s.registerUsage q :=
  Function.update_apply ..

end Fields

/-- `s'` is `s` with stores emitted at the cursor of a buffer `m`. -/
def Emitted (s s' : Jit) (m : Memory) : Prop :=
  ∃ stores, size stores ≤ 33 ∧ s'.codePos = s.codePos + size stores ∧
    s'.code = emit m s.codePos stores

@[simp] theorem advance_put32 (v : UInt32) (n : Fin 5) : (put32 v n).advance = n := rfl
@[simp] theorem advance_put64 (v : UInt64) (n : Fin 9) : (put64 v n).advance = n := rfl
@[simp] theorem advance_put (bytes : List UInt8) : (put bytes).advance = bytes.length := rfl
@[simp] theorem advance_putByte (b : UInt8) : (putByte b).advance = 1 := rfl

theorem size_genAddressReg_le (config : Config) (instr : Instruction) (rax : Bool) (src : Fin 8) :
    size (genAddressReg config instr rax src) ≤ 14 := by
  have hlea : (addTable src).val ≤ 4 := Nat.lt_succ_iff.mp (addTable src).isLt
  cases rax <;> simp [genAddressReg, hlea]

variable (host : Host) (config : Config) (instr : Instruction) (s : Jit)

theorem integerHandler_emitted (dst : Fin 8) {stores : List Store} (h : size stores ≤ 33) :
    Emitted s (integerHandler dst stores s) s.code := ⟨stores, h, rfl, rfl⟩

theorem roundingHandler_emitted {stores : List Store} (h : size stores ≤ 33) :
    Emitted s (roundingHandler stores s) s.code := ⟨stores, h, rfl, rfl⟩

theorem put_emitted {stores : List Store} (h : size stores ≤ 33) :
    Emitted s (s.put stores) s.code := ⟨stores, h, rfl, rfl⟩

theorem memoryHandler_emitted (viaRegister viaImm : UInt32) :
    Emitted s (memoryHandler config instr viaRegister viaImm s) s.code := by
  have := size_genAddressReg_le config instr true instr.src
  refine integerHandler_emitted s _ ?_
  split
  · simp
    omega
  · simp [genAddressImm]

theorem highMemoryHandler_emitted (viaRegister viaImm : UInt64) :
    Emitted s (highMemoryHandler config instr viaRegister viaImm s) s.code := by
  have := size_genAddressReg_le config instr false instr.src
  refine integerHandler_emitted s _ ?_
  split
  · simp
    omega
  · simp [genAddressImm]

theorem rotateHandler_emitted (viaRegister : UInt64) (viaImm : UInt32) :
    Emitted s (rotateHandler instr viaRegister viaImm s) s.code := by
  refine integerHandler_emitted s _ ?_
  split <;> simp

theorem handler_emitted (type : InstructionType) (hround : type ≠ .cfround)
    (hbranch : type ≠ .cbranch) (hrcp : type ≠ .imulRcp) :
    Emitted s (handler host config instr type s) s.code := by
  have hsize := size_genAddressReg_le config instr true instr.src
  have hsizeRcx := size_genAddressReg_le config instr false instr.src
  cases type with
  | cfround | cbranch | imulRcp => contradiction
  | iaddM | isubM | ixorM => exact memoryHandler_emitted ..
  | ismulhM => exact highMemoryHandler_emitted ..
  | irorR | irolR => exact rotateHandler_emitted ..
  | iaddRs =>
    refine integerHandler_emitted s _ ?_
    simp
    split <;> simp
  | isubR | imulR | ixorR =>
    refine integerHandler_emitted s _ ?_
    split <;> simp
  | imulM =>
    refine integerHandler_emitted s _ ?_
    split
    · simp
      omega
    · simp [genAddressImm]
  | imulhR =>
    rw [handler]
    split <;> exact integerHandler_emitted s _ (by simp)
  | imulhM =>
    rw [handler]
    split
    · refine integerHandler_emitted s _ ?_
      split
      · simp
        omega
      · simp
    · exact highMemoryHandler_emitted ..
  | ismulhR | inegR => exact integerHandler_emitted s _ (by simp)
  | iswapR =>
    rw [handler, hIswapR]
    split
    · exact ⟨_, by simp, rfl, rfl⟩
    · exact ⟨[], by simp, rfl, rfl⟩
  | fswapR | fscalR | nop => exact put_emitted s (by simp)
  | istore =>
    refine put_emitted s ?_
    simp [genAddressRegDst]
    split <;> simp
  | faddR | fsubR | fmulR | fsqrtR => exact roundingHandler_emitted s (by simp)
  | faddM | fsubM =>
    refine roundingHandler_emitted s ?_
    simp
    omega
  | fdivM =>
    refine roundingHandler_emitted s ?_
    rw [size_append]
    split <;> simp <;> omega

/-- The size of a rounding-mode change, and of the no-ops that replace it. -/
def roundSize : Nat :=
  (if host.amd then 25 else 13) + if host.hasBMI2 then 0 else 1

def roundNops : List UInt8 :=
  if host.hasBMI2 then (if host.amd then nop25 else nop13) else (if host.amd then nop26 else nop14)

def roundCode : List Store :=
  if host.hasBMI2 then roundStoresBmi2 host instr else roundStores host instr

theorem length_roundNops : (roundNops host).length = roundSize host := by
  unfold roundNops roundSize
  cases host.hasBMI2 <;> cases host.amd <;> rfl

theorem size_roundCode : size (roundCode host instr) = roundSize host := by
  unfold roundCode roundSize
  cases hbmi : host.hasBMI2 <;> cases hamd : host.amd <;>
    simp [roundStores, roundStoresBmi2, roundTail, hamd]

theorem handler_cfround :
    handler host config instr .cfround s =
      roundHandler (roundNops host) (roundCode host instr) s := by
  unfold handler roundNops roundCode
  cases host.hasBMI2 <;> rfl

theorem handler_usage (type : InstructionType) (r : Fin 8) :
    (handler host config instr type s).registerUsage r =
      if touches type instr r then ((handler host config instr type s).codePos : Int)
      else s.registerUsage r := by
  cases type with
  | imulRcp =>
    cases h : isZeroOrPowerOf2 instr.imm32
    · by_cases hused : s.imulRcpStorageUsed < 16 <;>
        simp [handler, hImulRcp, integerHandler, touches, h, hused]
    · simp [handler, hImulRcp, touches, h]
  | iswapR =>
    by_cases h : instr.src = instr.dst
    · simp [handler, hIswapR, touches, h]
    · by_cases hdst : r = instr.dst <;> by_cases hsrc : r = instr.src <;>
        simp [handler, hIswapR, integerHandler, touches, h, hdst, hsrc]
  | imulhR | imulhM =>
    rw [handler]
    split <;> simp [hImulhRBmi2, hImulhR, hImulhMBmi2, hImulhM, highMemoryHandler, integerHandler,
      touches]
  | cbranch => simp [handler, hCbranch, Jit.useAll, touches]
  | cfround =>
    rw [handler_cfround]
    simp only [roundHandler, touches, put_registerUsage]
    split <;> rfl
  | iaddM | isubM | ixorM => simp [handler, hIaddM, hIsubM, hIxorM, memoryHandler, integerHandler, touches]
  | ismulhM => simp [handler, hIsmulhM, highMemoryHandler, integerHandler, touches]
  | irorR | irolR => simp [handler, hIrorR, hIrolR, rotateHandler, integerHandler, touches]
  | iaddRs | isubR | imulR | imulM | ismulhR | inegR | ixorR =>
    simp [handler, hIaddRs, hIsubR, hImulR, hImulM, hIsmulhR, hInegR, hIxorR, integerHandler, touches]
  | fswapR | fscalR | nop | istore => simp [handler, hFswapR, hFscalR, hNop, hIstore, touches]
  | faddR | faddM | fsubR | fsubM | fmulR | fdivM | fsqrtR =>
    simp [handler, hFaddR, hFaddM, hFsubR, hFsubM, hFmulR, hFdivM, hFsqrtR, roundingHandler, touches]

/-- A handler is an integer handler, a rounding handler or neither; what it notes besides
`registerUsage` follows. -/
theorem handler_notes (type : InstructionType) (hround : type ≠ .cfround)
    (hbranch : type ≠ .cbranch) :
    (handler host config instr type s).prevCFROUND = s.prevCFROUND ∧
      (handler host config instr type s).prevFPOperation =
        if type.rounds then (s.codePos : Int) else s.prevFPOperation := by
  cases type with
  | cfround | cbranch => contradiction
  | imulRcp =>
    rw [handler, hImulRcp]
    split
    · exact ⟨rfl, rfl⟩
    · simp only
      split <;> exact ⟨rfl, rfl⟩
  | iswapR =>
    rw [handler, hIswapR]
    split <;> exact ⟨rfl, rfl⟩
  | imulhR | imulhM =>
    rw [handler]
    split <;> exact ⟨rfl, rfl⟩
  | _ => exact ⟨rfl, rfl⟩

theorem handler_storage (type : InstructionType) (hrcp : type ≠ .imulRcp) :
    (handler host config instr type s).imulRcpStorage = s.imulRcpStorage ∧
      (handler host config instr type s).imulRcpStorageUsed = s.imulRcpStorageUsed := by
  cases type with
  | imulRcp => contradiction
  | iswapR =>
    rw [handler, hIswapR]
    split <;> exact ⟨rfl, rfl⟩
  | imulhR | imulhM =>
    rw [handler]
    split <;> exact ⟨rfl, rfl⟩
  | cfround =>
    rw [handler_cfround, roundHandler]
    simp only [put_storage, put_storageUsed]
    split <;> exact ⟨rfl, rfl⟩
  | _ => exact ⟨rfl, rfl⟩

theorem xor_lt_iff (a b : Nat) : a ^^^ b < 32 ↔ a / 32 = b / 32 := by
  rw [show (32 : Nat) = 2 ^ 5 from rfl, ← Nat.shiftRight_eq_div_pow, ← Nat.shiftRight_eq_div_pow,
    ← Nat.xor_eq_zero_iff, ← Nat.shiftRight_xor_distrib, Nat.shiftRight_eq_div_pow,
    Nat.div_eq_zero_iff]
  simp

/-- The fused branch is moved only when it meets a 32-byte boundary, hence by 13 at most. -/
theorem alignmentSize_le (pos : Nat) (jmpOffset : Int) : alignmentSize pos jmpOffset ≤ 13 := by
  have hlen : (if jmpOffset ≥ -128 then 9 else 13) ≤ 13 := by split <;> decide
  unfold alignmentSize
  generalize (if jmpOffset ≥ -128 then 9 else 13) = len at hlen
  have hcross := xor_lt_iff (pos + 7) (pos + 7 + len)
  by_cases h : pos + 7 ^^^ pos + 7 + len ≥ 32
  · rw [if_pos h]
    omega
  · rw [if_neg h]
    omega

def branchAlignment : Nat :=
  if host.jccErratum then
    alignmentSize s.codePos (s.registerUsage instr.dst - (s.codePos + 16))
  else 0

theorem branchAlignment_le : branchAlignment host instr s ≤ 13 := by
  unfold branchAlignment
  split
  · exact alignmentSize_le ..
  · decide

theorem length_jmpAlignPrefix {n : Nat} (h : n ≤ 13) : (jmpAlignPrefix.getD n []).length = n := by
  interval_cases n <;> rfl

/-- The distance from the end of the short form to the target. -/
def branchOffset : Int :=
  s.registerUsage instr.dst - (s.codePos + 16) - branchAlignment host instr s

def branchCode : List Store :=
  branchStores instr (branchAlignment host instr s) (branchOffset host instr s)

theorem size_branchCode :
    size (branchCode host instr s) =
      branchAlignment host instr s + 14 + if branchOffset host instr s ≥ -128 then 2 else 6 := by
  rw [branchCode, branchStores]
  simp only [size_cons, size_nil, advance_put, advance_put32,
    length_jmpAlignPrefix (branchAlignment_le host instr s), jumpStore]
  split <;> simp

theorem handler_cbranch :
    (handler host config instr .cbranch s).code =
        emit s.code s.codePos (branchCode host instr s) ∧
      (handler host config instr .cbranch s).codePos =
        s.codePos + size (branchCode host instr s) ∧
      (handler host config instr .cbranch s).prevCFROUND = s.prevCFROUND ∧
      (handler host config instr .cbranch s).prevFPOperation =
        if s.registerUsage instr.dst ≤ s.prevFPOperation then (s.codePos : Int)
        else s.prevFPOperation := ⟨rfl, rfl, rfl, rfl⟩

/-- The state of the table of reciprocals: it stays inside its part of the prologue. -/
structure Storage (s : Jit) : Prop where
  used_le : s.imulRcpStorageUsed ≤ 16
  at_eq : s.imulRcpStorage = host.imulRcpStorage + 11 * s.imulRcpStorageUsed

theorem handler_imulRcp {s : Jit} (h : Storage host s) :
    Storage host (handler host config instr .imulRcp s) ∧
      ∃ m : Memory, Emitted s (handler host config instr .imulRcp s) m ∧
        ∀ a, host.codePosFirst ≤ a → m a = s.code a := by
  rw [handler, hImulRcp]
  split
  · exact ⟨h, s.code, ⟨[], by simp, rfl, rfl⟩, fun _ _ => rfl⟩
  · simp only
    split
    · rename_i hused
      have hplace := host.storage_below
      have hat := h.at_eq
      refine ⟨⟨by simpa [integerHandler] using hused, ?_⟩, _, ⟨_, ?_, rfl, rfl⟩, ?_⟩
      · simp [integerHandler]
        omega
      · simp
      · intro a ha
        exact write_above (by simp; omega)
    · exact ⟨⟨h.used_le, h.at_eq⟩, s.code, integerHandler_emitted s _ (by simp), fun _ _ => rfl⟩

/-- One compilation: the inputs of the instruction loop. -/
structure Build where
  host : Host
  config : Config
  instrs : List Instruction
  code : Memory

namespace Build

variable (b : Build) {c k : Nat} {instr : Instruction}

/-- The compiler's state before instruction `k`. -/
def stateAt (k : Nat) : Jit := compileAll b.host b.config (b.instrs.take k) (begin b.host b.code)

/-- The first byte of the code of instruction `k`. -/
def start (k : Nat) : Nat := (b.stateAt k).codePos

/-- The interpreter's `registerUsage` before instruction `k`. -/
def usageAt (k : Nat) : Usage := usageAfter b.config (b.instrs.take k)

/-- Instruction `k` is `instr` and has type `type`. -/
structure Has (k : Nat) (instr : Instruction) (type : InstructionType) : Prop where
  get : b.instrs[k]? = some instr
  type_eq : b.config.instructionType instr = type

theorem has_of_get (h : b.instrs[k]? = some instr) :
    b.Has k instr (b.config.instructionType instr) := ⟨h, rfl⟩

variable {b} {type : InstructionType}

theorem Has.unique {instr' : Instruction} {type' : InstructionType} (h : b.Has k instr type)
    (h' : b.Has k instr' type') : instr = instr' ∧ type = type' := by
  obtain rfl := Option.some.inj (h.get.symm.trans h'.get)
  exact ⟨rfl, h.type_eq.symm.trans h'.type_eq⟩

theorem Has.take_succ (h : b.Has k instr type) :
    b.instrs.take (k + 1) = b.instrs.take k ++ [instr] := by
  rw [List.take_add_one, h.get, Option.toList_some]

theorem Has.stateAt_succ (h : b.Has k instr type) :
    b.stateAt (k + 1) = handler b.host b.config instr type (b.stateAt k) := by
  rw [stateAt, h.take_succ, compileAll, List.foldl_append, ← h.type_eq]
  rfl

theorem Has.usageAt_succ (h : b.Has k instr type) (r : Fin 8) :
    b.usageAt (k + 1) r = if touches type instr r then (k : Int) else b.usageAt k r := by
  have hk : k < b.instrs.length := (List.getElem?_eq_some_iff.mp h.get).1
  rw [usageAt, h.take_succ, usageAfter_append, compileType_usage, List.length_take_of_le hk.le,
    h.type_eq]
  rfl

theorem stateAt_past (h : b.instrs.length ≤ k) : b.stateAt (k + 1) = b.stateAt k := by
  rw [stateAt, stateAt, List.take_of_length_le h, List.take_of_length_le (by omega)]

theorem storage_stateAt (b : Build) (k : Nat) : Storage b.host (b.stateAt k) := by
  induction k with
  | zero => exact ⟨by simp [stateAt, compileAll, begin], by simp [stateAt, compileAll, begin]⟩
  | succ k ih =>
    cases h : b.instrs[k]? with
    | none => rwa [stateAt_past (List.getElem?_eq_none_iff.mp h)]
    | some instr =>
      have hk := b.has_of_get h
      rw [hk.stateAt_succ]
      by_cases hrcp : b.config.instructionType instr = .imulRcp
      · rw [hrcp]
        exact (handler_imulRcp b.host b.config instr ih).1
      · have hkept := handler_storage b.host b.config instr (b.stateAt k) _ hrcp
        exact ⟨hkept.2 ▸ ih.used_le, by rw [hkept.1, hkept.2, ih.at_eq]⟩

/-- Step `k` overwrites the rounding-mode change before it. -/
def Drops (b : Build) (k : Nat) : Prop :=
  (∃ instr, b.Has k instr .cfround) ∧
    (b.stateAt k).prevFPOperation < (b.stateAt k).prevCFROUND

/-- Below the cursor a step writes into the prologue, and over the code it drops. -/
theorem step_emitted (b : Build) (k : Nat) :
    ∃ m, Emitted (b.stateAt k) (b.stateAt (k + 1)) m ∧
      ∀ a, b.host.codePosFirst ≤ a →
        (b.Drops k → a < (b.stateAt k).prevCFROUND.toNat ∨
          (b.stateAt k).prevCFROUND.toNat + roundSize b.host ≤ a) →
        m a = (b.stateAt k).code a := by
  cases h : b.instrs[k]? with
  | none =>
    rw [stateAt_past (List.getElem?_eq_none_iff.mp h)]
    exact ⟨_, ⟨[], by simp, rfl, rfl⟩, fun _ _ _ => rfl⟩
  | some instr =>
    obtain ⟨type, hk⟩ : ∃ type, b.Has k instr type := ⟨_, b.has_of_get h⟩
    rw [hk.stateAt_succ]
    by_cases hrcp : type = .imulRcp
    · obtain ⟨m, hm, hkeep⟩ := (handler_imulRcp b.host b.config instr (b.storage_stateAt k)).2
      exact ⟨m, hrcp ▸ hm, fun a ha _ => hkeep a ha⟩
    · by_cases hround : type = .cfround
      · subst hround
        have hsize : size (roundCode b.host instr) ≤ 33 := by
          rw [size_roundCode, roundSize]
          split <;> split <;> decide
        rw [handler_cfround, roundHandler]
        by_cases hdrop : (b.stateAt k).prevFPOperation < (b.stateAt k).prevCFROUND
        · rw [if_pos hdrop]
          refine ⟨_, ⟨_, hsize, rfl, rfl⟩, fun a _ hpatch => ?_⟩
          rcases hpatch ⟨⟨instr, hk⟩, hdrop⟩ with hlt | hle
          · exact write_below hlt
          · exact write_above (by rwa [length_roundNops])
        · rw [if_neg hdrop]
          exact ⟨_, ⟨_, hsize, rfl, rfl⟩, fun _ _ _ => rfl⟩
      · by_cases hbranch : type = .cbranch
        · subst hbranch
          refine ⟨_, ⟨branchCode b.host instr (b.stateAt k), ?_, rfl, rfl⟩, fun _ _ _ => rfl⟩
          have := branchAlignment_le b.host instr (b.stateAt k)
          rw [size_branchCode]
          split <;> omega
        · exact ⟨_, handler_emitted _ _ _ _ _ hround hbranch hrcp, fun _ _ _ => rfl⟩

theorem start_succ (b : Build) (k : Nat) :
    b.start k ≤ b.start (k + 1) ∧ b.start (k + 1) ≤ b.start k + 33 := by
  obtain ⟨_, ⟨stores, hsize, hpos, -⟩, -⟩ := b.step_emitted k
  unfold start
  omega

theorem start_mono (b : Build) : Monotone b.start :=
  monotone_nat_of_le_succ fun k => (b.start_succ k).1

theorem start_le (b : Build) (k : Nat) : b.start k ≤ b.host.codePosFirst + 33 * k := by
  induction k with
  | zero => exact le_rfl
  | succ k ih =>
    have := (b.start_succ k).2
    omega

theorem first_le_start (b : Build) (k : Nat) : b.host.codePosFirst ≤ b.start k :=
  b.start_mono (Nat.zero_le k)

theorem Has.start_cfround (h : b.Has k instr .cfround) :
    b.start (k + 1) = b.start k + roundSize b.host := by
  rw [start, h.stateAt_succ, handler_cfround, roundHandler, put_codePos, size_roundCode]
  split <;> rfl

variable (b)

variable {b} in
theorem Has.touched (h : b.Has k instr type) (r : Fin 8) :
    (b.stateAt (k + 1)).registerUsage r =
      if touches type instr r then (b.start (k + 1) : Int) else (b.stateAt k).registerUsage r := by
  rw [h.stateAt_succ, handler_usage, start, h.stateAt_succ]

/-- The compilers agree on the last use of every register: the code position is where the
instruction after it begins. -/
theorem registerUsage_eq (k : Nat) (hk : k ≤ b.instrs.length) (r : Fin 8) :
    -1 ≤ b.usageAt k r ∧ b.usageAt k r < k ∧
      (b.stateAt k).registerUsage r = b.start (b.usageAt k r + 1).toNat := by
  induction k with
  | zero =>
    refine ⟨?_, ?_, ?_⟩ <;>
      simp [usageAt, usageAfter, compiled, beginCompilation, stateAt, compileAll, begin, start]
  | succ k ih =>
    obtain ⟨instr, hget⟩ : ∃ instr, b.instrs[k]? = some instr :=
      ⟨_, List.getElem?_eq_getElem hk⟩
    have h := b.has_of_get hget
    rw [h.usageAt_succ, h.touched]
    cases touches (b.config.instructionType instr) instr r with
    | true =>
      simp only [if_true]
      refine ⟨by omega, by omega, ?_⟩
      rw [show ((k : Int) + 1).toNat = k + 1 by omega]
    | false =>
      simp only [Bool.false_eq_true, if_false]
      obtain ⟨hlow, hhigh, heq⟩ := ih (by omega)
      exact ⟨hlow, by omega, heq⟩

/-- A use that is noted fits the 16 bits of a branch target. -/
theorem target_toInt (hlen : b.instrs.length ≤ programMaxSize) (hk : k ≤ b.instrs.length)
    (r : Fin 8) : (Int16.ofInt (b.usageAt k r)).toInt = b.usageAt k r := by
  obtain ⟨hlow, hhigh, -⟩ := b.registerUsage_eq k hk r
  simp only [programMaxSize] at hlen
  rw [Int16.toInt_ofInt]
  exact Int.bmod_eq_of_le (le_trans (by decide) hlow) (hhigh.trans (by simp only [Int16.size]; omega))

/-- The last rounding-mode change, as the compiler notes it. -/
theorem prevCFROUND_eq (k : Nat) :
    (b.stateAt k).prevCFROUND = -1 ∨
      ∃ c instr, c < k ∧ b.Has c instr .cfround ∧ (b.stateAt k).prevCFROUND = b.start c := by
  induction k with
  | zero => exact .inl rfl
  | succ k ih =>
    cases hget : b.instrs[k]? with
    | none =>
      rw [stateAt_past (List.getElem?_eq_none_iff.mp hget)]
      exact ih.imp_right fun ⟨c, i, hc, h⟩ => ⟨c, i, by omega, h⟩
    | some instr =>
      obtain ⟨type, h⟩ : ∃ type, b.Has k instr type := ⟨_, b.has_of_get hget⟩
      by_cases hround : type = .cfround
      · subst hround
        refine .inr ⟨k, instr, by omega, h, ?_⟩
        rw [h.stateAt_succ, handler_cfround, roundHandler, put_prevCFROUND, start]
        split <;> rfl
      · have hkeep : (b.stateAt (k + 1)).prevCFROUND = (b.stateAt k).prevCFROUND := by
          rw [h.stateAt_succ]
          by_cases hbranch : type = .cbranch
          · rw [hbranch]
            rfl
          · exact (handler_notes _ _ _ _ _ hround hbranch).1
        rw [hkeep]
        exact ih.imp_right fun ⟨c, i, hc, h⟩ => ⟨c, i, by omega, h⟩

theorem neg_one_le_prevFPOperation (k : Nat) : -1 ≤ (b.stateAt k).prevFPOperation := by
  induction k with
  | zero => exact le_rfl
  | succ k ih =>
    cases hget : b.instrs[k]? with
    | none => rwa [stateAt_past (List.getElem?_eq_none_iff.mp hget)]
    | some instr =>
      obtain ⟨type, h⟩ : ∃ type, b.Has k instr type := ⟨_, b.has_of_get hget⟩
      rw [h.stateAt_succ]
      by_cases hround : type = .cfround
      · subst hround
        rw [handler_cfround, roundHandler, put_prevFPOperation]
        split <;> exact ih
      · by_cases hbranch : type = .cbranch
        · rw [hbranch, (handler_cbranch ..).2.2.2]
          split <;> omega
        · rw [(handler_notes _ _ _ _ _ hround hbranch).2]
          split <;> omega

variable {b} in
/-- What a step drops is the code of an earlier rounding-mode change. -/
theorem Drops.target (h : b.Drops k) :
    ∃ c instr, c < k ∧ b.Has c instr .cfround ∧ (b.stateAt k).prevCFROUND = b.start c := by
  refine (b.prevCFROUND_eq k).resolve_left fun hnone => ?_
  have := b.neg_one_le_prevFPOperation k
  have := h.2
  omega

/-- The code of instruction `c` survives the steps that do not drop it. -/
theorem step_keeps (hc : c < k) {n : Nat} (hn : b.start c + n ≤ b.start (c + 1))
    (hdrop : b.Drops k → (b.stateAt k).prevCFROUND ≠ b.start c ∨ n = 0) :
    read (b.stateAt (k + 1)).code (b.start c) n = read (b.stateAt k).code (b.start c) n := by
  obtain ⟨m, ⟨stores, -, -, hcode⟩, hkeep⟩ := b.step_emitted k
  have hbelow : b.start (c + 1) ≤ b.start k := b.start_mono hc
  have hend : b.start c + n ≤ (b.stateAt k).codePos := hn.trans hbelow
  rw [hcode, read_emit_below stores hend]
  refine read_congr fun a hle hlt => hkeep a (le_trans (b.first_le_start c) hle) fun hd => ?_
  obtain ⟨c', instr', -, hc', hnote⟩ := hd.target
  have hsize := hc'.start_cfround
  rw [hnote, Int.toNat_natCast]
  rcases Nat.lt_trichotomy c c' with hlt' | rfl | hgt
  · have := b.start_mono (show c + 1 ≤ c' from hlt')
    exact .inl (by omega)
  · rcases hdrop hd with hne | rfl
    · exact absurd hnote hne
    · omega
  · have := b.start_mono (show c' + 1 ≤ c from hgt)
    exact .inr (by omega)

variable {b}

/-- The code of an instruction other than `CFROUND` is final once emitted. -/
theorem Has.read_eq (h : b.Has c instr type) (hround : type ≠ .cfround) (hck : c < k) {n : Nat}
    (hn : b.start c + n ≤ b.start (c + 1)) :
    read (b.stateAt k).code (b.start c) n = read (b.stateAt (c + 1)).code (b.start c) n := by
  induction k, hck using Nat.le_induction with
  | base => rfl
  | succ k hck ih =>
    rw [b.step_keeps hck hn fun hd => ?_, ih]
    obtain ⟨c', instr', -, hc', hnote⟩ := hd.target
    rw [hnote]
    by_cases hn0 : n = 0
    · exact .inr hn0
    · refine .inl fun heq => ?_
      have hne : c' ≠ c := fun hcc => hround ((hcc ▸ h).unique hc').2
      have hsize := hc'.start_cfround
      have hpos : 0 < roundSize b.host := by
        unfold roundSize
        split <;> omega
      rcases Nat.lt_or_gt_of_ne hne with hlt | hgt
      · have := b.start_mono (show c' + 1 ≤ c from hlt)
        omega
      · have := b.start_mono (show c + 1 ≤ c' from hgt)
        omega

theorem Has.start_cbranch (h : b.Has k instr .cbranch) :
    b.start (k + 1) = b.start k + size (branchCode b.host instr (b.stateAt k)) := by
  rw [start, h.stateAt_succ, (handler_cbranch ..).2.1, start]

theorem Has.read_cbranch (h : b.Has c instr .cbranch) (hck : c < k) :
    read (b.stateAt k).code (b.start c) (size (branchCode b.host instr (b.stateAt c))) =
      CodeBuffer.code (branchCode b.host instr (b.stateAt c)) := by
  rw [h.read_eq (by decide) hck h.start_cbranch.ge, h.stateAt_succ, (handler_cbranch ..).1]
  exact read_emit _

end Build

end VeloxHash.JitLayout
