import VeloxHash.JitLayout

/-! Where a `CBRANCH` of the compiled code lands: the bytes are decoded as the processor
reads them, and the target is compared with the one the interpreter compiled. -/

namespace VeloxHash.JitBranchTarget

open Randomx CodeBuffer CodeBuffer.Store JitCompilerX86 BytecodeMachine JitLayout

/-- `add r, addend; test r, mask; jz displacement`, as the processor sees it. -/
structure Branch where
  reg : Nat
  addend : Nat
  mask : Nat
  length : Nat
  displacement : Int
  deriving DecidableEq, Repr

/-- The one-instruction no-ops of up to five bytes. -/
def nopLength : List UInt8 → Nat
  | 0x90 :: _ => 1
  | 0x66 :: 0x90 :: _ => 2
  | 0x66 :: 0x66 :: 0x90 :: _ => 3
  | 0x0F :: 0x1F :: 0x40 :: 0x00 :: _ => 4
  | 0x0F :: 0x1F :: 0x44 :: 0x00 :: 0x00 :: _ => 5
  | _ => 0

def segmentLength (bytes : List UInt8) : Nat := (bytes.takeWhile (· == 0x2E)).length

/-- `jz rel8` or `jz rel32`: length and displacement. -/
def decodeJump : List UInt8 → Option (Nat × Int)
  | 0x74 :: rest => some (2, (ofLe (rest.take 1) : Int).bmod (2 ^ 8))
  | 0x0F :: 0x84 :: rest => some (6, (ofLe (rest.take 4) : Int).bmod (2 ^ 32))
  | _ => none

def decodeTest (reg : UInt8) : List UInt8 → Option (Nat × Nat × Int)
  | 0x49 :: 0xF7 :: modRM :: rest =>
    if modRM = reg then (decodeJump (rest.drop 4)).map fun jump => (ofLe (rest.take 4), jump)
    else none
  | _ => none

def decodeAdd : List UInt8 → Option Branch
  | 0x49 :: 0x81 :: modRM :: rest =>
    if modRM.toNat / 8 = 24 then
      (decodeTest modRM (rest.drop 4)).map fun (mask, len, displacement) =>
        { reg := modRM.toNat % 8, addend := ofLe (rest.take 4), mask, length := 14 + len
          displacement }
    else none
  | _ => none

/-- A no-op, segment prefixes as far as the 15 bytes of an instruction allow, the branch. -/
def decodeBranch (bytes : List UInt8) : Option Branch :=
  let nop := nopLength bytes
  let segment := segmentLength (bytes.drop nop)
  if segment ≤ 8 then
    (decodeAdd (bytes.drop (nop + segment))).map fun branch =>
      { branch with length := nop + segment + branch.length }
  else none

/-- The branch whose code begins at `pos`; no code of a branch is longer than 33 bytes. -/
def branchAt (m : Memory) (pos : Nat) : Option Branch := decodeBranch (read m pos 33)

/-- Where the processor continues when the branch at `pos` is taken. -/
def branchDestination (m : Memory) (pos : Nat) : Option Int :=
  (branchAt m pos).map fun branch => pos + branch.length + branch.displacement

theorem toNat_shl32 (x : UInt32) {n : UInt32} (hn : n.toNat < 32) :
    (shl32 x n).toNat = x.toNat * 2 ^ n.toNat % 2 ^ 32 := by
  rw [shl32, UInt32.toNat_shiftLeft, Nat.mod_eq_of_lt hn, Nat.shiftLeft_eq]

theorem toNat_shl64 (x : UInt64) {n : UInt64} (hn : n.toNat < 64) :
    (shl64 x n).toNat = x.toNat * 2 ^ n.toNat % 2 ^ 64 := by
  rw [shl64, UInt64.toNat_shiftLeft, Nat.mod_eq_of_lt hn, Nat.shiftLeft_eq]

theorem ofNat_eq_of_mod {v : Nat} {b : UInt8} (h : v % 256 = b.toNat) : UInt8.ofNat v = b :=
  UInt8.toNat_inj.mp (by rw [UInt8.toNat_ofNat', h])

theorem jump_short {offset : Int} (hlow : -128 ≤ offset) (hhigh : offset < 128)
    (more : List UInt8) :
    decodeJump ((jumpStore offset).code ++ more) = some (2, offset) := by
  have hv : (0x74 + shl32 (.ofInt offset) 8).toNat =
      (0x74 + (offset % 2 ^ 32).toNat * 256 % 2 ^ 32) % 2 ^ 32 := by
    rw [UInt32.toNat_add, toNat_shl32 _ (by decide), UInt32.ofInt, UInt32.toNat_ofNat',
      show (0x74 : UInt32).toNat = 0x74 from rfl, show (8 : UInt32).toNat = 8 from rfl]
    omega
  rw [jumpStore, if_pos (by omega)]
  generalize 0x74 + shl32 (.ofInt offset) 8 = v at hv
  have hcode : (put32 v 2).code = [0x74, UInt8.ofNat (v.toNat / 256)] := by
    have h0 : UInt8.ofNat v.toNat = 0x74 := ofNat_eq_of_mod (by
      rw [hv]
      change _ = 116
      omega)
    rw [← h0]
    rfl
  rw [hcode]
  simp only [List.cons_append, List.nil_append, decodeJump, List.take_succ_cons, List.take_zero,
    ofLe, UInt8.toNat_ofNat', Option.some.injEq, Prod.mk.injEq, true_and]
  rw [Int.bmod_def]
  omega

theorem jump_near {offset : Int} (hlow : -2 ^ 31 ≤ offset - 4) (hhigh : offset < -128)
    (more : List UInt8) :
    decodeJump ((jumpStore offset).code ++ more) = some (6, offset - 4) := by
  have hv : (0x840f + shl64 (.ofInt (offset - 4)) 16).toNat =
      (0x840f + ((offset - 4) % 2 ^ 64).toNat * 65536 % 2 ^ 64) % 2 ^ 64 := by
    rw [UInt64.toNat_add, toNat_shl64 _ (by decide), UInt64.ofInt, UInt64.toNat_ofNat',
      show (0x840f : UInt64).toNat = 0x840f from rfl, show (16 : UInt64).toNat = 16 from rfl]
    omega
  rw [jumpStore, if_neg (by omega)]
  generalize 0x840f + shl64 (.ofInt (offset - 4)) 16 = v at hv
  have hcode : (put64 v 6).code = 0x0F :: 0x84 :: le (v.toNat / 256 / 256) 4 := by
    have h0 : UInt8.ofNat v.toNat = 0x0F := ofNat_eq_of_mod (by
      rw [hv]
      change _ = 15
      omega)
    have h1 : UInt8.ofNat (v.toNat / 256) = 0x84 := ofNat_eq_of_mod (by
      rw [hv]
      change _ = 132
      omega)
    rw [← h0, ← h1]
    rfl
  rw [hcode]
  simp only [List.cons_append, decodeJump]
  rw [List.take_left' (length_le _ 4), ofLe_le]
  simp only [Option.some.injEq, Prod.mk.injEq, true_and]
  rw [Int.bmod_def]
  omega

theorem code_addOpcode (r : Fin 8) :
    (put32 (0x00c08149 + shl32 (reg32 r) 16) 3).code = [0x49, 0x81, 0xC0 + UInt8.ofNat r] := by
  revert r
  decide

theorem code_testOpcode (r : Fin 8) :
    (put32 (0x00c0f749 + shl32 (reg32 r) 16) 3).code = [0x49, 0xF7, 0xC0 + UInt8.ofNat r] := by
  revert r
  decide

theorem code_put32 (v : UInt32) : (put32 v 4).code = le v.toNat 4 :=
  List.take_of_length_le (length_le _ _).le

theorem modRM_reg (r : Fin 8) :
    (0xC0 + UInt8.ofNat r).toNat / 8 = 24 ∧ (0xC0 + UInt8.ofNat r).toNat % 8 = r.val := by
  revert r
  decide

/-- The condition mask of a branch. -/
def branchMask (instr : Instruction) : UInt32 := shl32 conditionMask (.ofNat instr.getModCond)

/-- The branch after its prefix. -/
theorem decodeAdd_branch (instr : Instruction) {offset disp : Int} {len : Nat} (more : List UInt8)
    (hjump : decodeJump ((jumpStore offset).code ++ more) = some (len, disp)) :
    decodeAdd ((put32 (0x00c08149 + shl32 (reg32 instr.dst) 16) 3).code ++
        (put32 (branchAddend instr) 4).code ++
        (put32 (0x00c0f749 + shl32 (reg32 instr.dst) 16) 3).code ++
        (put32 (branchMask instr) 4).code ++ (jumpStore offset).code ++ more) =
      some ⟨instr.dst, (branchAddend instr).toNat, (branchMask instr).toNat, 14 + len, disp⟩ := by
  have hword (v : UInt32) : v.toNat % 256 ^ 4 = v.toNat := Nat.mod_eq_of_lt v.toNat_lt
  rw [code_addOpcode, code_testOpcode, code_put32, code_put32]
  simp only [List.append_assoc, List.cons_append, List.nil_append]
  rw [decodeAdd, if_pos (modRM_reg instr.dst).1, List.drop_left' (length_le _ 4), decodeTest,
    if_pos rfl, List.drop_left' (length_le _ 4), hjump, List.take_left' (length_le _ 4),
    List.take_left' (length_le _ 4), ofLe_le, ofLe_le, (modRM_reg instr.dst).2,
    hword, hword]
  rfl

/-- Every row of the alignment table is skipped before the branch. -/
theorem decodeBranch_aligned {n : Nat} (hn : n ≤ 13) (body : List UInt8) :
    decodeBranch (jmpAlignPrefix.getD n [] ++ 0x49 :: body) =
      (decodeAdd (0x49 :: body)).map fun branch => { branch with length := n + branch.length } := by
  interval_cases n <;> rfl

/-- The displacement that leads to the noted use of the branch register. -/
theorem decodeBranch_code (host : Host) (instr : Instruction) (s : Jit) (more : List UInt8)
    (hback : s.registerUsage instr.dst ≤ s.codePos)
    (hnear : (s.codePos : Int) - s.registerUsage instr.dst ≤ 2 ^ 30) :
    decodeBranch (CodeBuffer.code (branchCode host instr s) ++ more) =
      some ⟨instr.dst, (branchAddend instr).toNat, (branchMask instr).toNat,
        size (branchCode host instr s),
        s.registerUsage instr.dst - (s.codePos + size (branchCode host instr s))⟩ := by
  have halign := branchAlignment_le host instr s
  have hsize := size_branchCode host instr s
  have hoffset : branchOffset host instr s =
    s.registerUsage instr.dst - (s.codePos + 16) - branchAlignment host instr s := rfl
  obtain ⟨len, hjump, hlen⟩ : ∃ len : Nat,
      decodeJump ((jumpStore (branchOffset host instr s)).code ++ more) =
        some (len, branchOffset host instr s + 2 - len) ∧
      size (branchCode host instr s) = branchAlignment host instr s + 14 + len := by
    by_cases hshort : branchOffset host instr s ≥ -128
    · rw [if_pos hshort] at hsize
      refine ⟨2, ?_, hsize⟩
      rw [jump_short hshort (by omega)]
      simp
    · rw [if_neg hshort] at hsize
      refine ⟨6, ?_, hsize⟩
      rw [jump_near (by omega) (by omega), show ((6 : Nat) : Int) = 2 + 4 from rfl]
      congr 2
      omega
  have hcode : CodeBuffer.code (branchCode host instr s) ++ more =
      jmpAlignPrefix.getD (branchAlignment host instr s) [] ++
        ((put32 (0x00c08149 + shl32 (reg32 instr.dst) 16) 3).code ++
          (put32 (branchAddend instr) 4).code ++
          (put32 (0x00c0f749 + shl32 (reg32 instr.dst) 16) 3).code ++
          (put32 (branchMask instr) 4).code ++ (jumpStore (branchOffset host instr s)).code ++
          more) := by
    simp only [CodeBuffer.code, branchCode, branchStores, List.flatMap_cons, List.flatMap_nil,
      List.append_nil, List.append_assoc, branchMask]
    rw [Store.code, put, List.take_length]
  have hbody := decodeAdd_branch instr more hjump
  rw [hcode]
  rw [code_addOpcode] at hbody ⊢
  simp only [List.append_assoc, List.cons_append] at hbody ⊢
  rw [decodeBranch_aligned halign, hbody, Option.map_some, hlen]
  simp only [Option.some.injEq, Branch.mk.injEq, true_and]
  omega

theorem put_put (s : Jit) (xs ys : List Store) : (s.put xs).put ys = s.put (xs ++ ys) := by
  simp only [Jit.put, emit_append, size_append, Nat.add_assoc]

/-- The branch compiled from instruction `c`, read off the finished buffer. -/
theorem branchAt_eq (b : Build) (hlen : b.instrs.length ≤ programMaxSize) {c : Nat}
    {instr : Instruction} (h : b.Has c instr .cbranch) (tail : List Store) :
    branchAt ((b.stateAt b.instrs.length).put tail).code (b.start c) =
      some ⟨instr.dst, (branchAddend instr).toNat, (branchMask instr).toNat,
        b.start (c + 1) - b.start c,
        b.start (b.usageAt c instr.dst + 1).toNat - b.start (c + 1)⟩ := by
  have hc : c < b.instrs.length := (List.getElem?_eq_some_iff.mp h.get).1
  obtain ⟨hlow, hhigh, husage⟩ := b.registerUsage_eq c hc.le instr.dst
  have hstart := h.start_cbranch
  have hbound := (b.start_succ c).2
  have hfar := b.start_le c
  have hback : b.start (b.usageAt c instr.dst + 1).toNat ≤ b.start c := b.start_mono (by omega)
  have hfirst := b.first_le_start (b.usageAt c instr.dst + 1).toNat
  have hread : read ((b.stateAt b.instrs.length).put tail).code (b.start c)
      (size (branchCode b.host instr (b.stateAt c))) =
        CodeBuffer.code (branchCode b.host instr (b.stateAt c)) := by
    have hend : b.start (c + 1) ≤ (b.stateAt b.instrs.length).codePos := b.start_mono hc
    rw [put_code, read_emit_below tail (by omega)]
    exact h.read_cbranch hc
  obtain ⟨more, hmore⟩ : ∃ more, 33 = size (branchCode b.host instr (b.stateAt c)) + more :=
    Nat.exists_eq_add_of_le (by omega)
  have hpos : (b.stateAt c).codePos = b.start c := rfl
  rw [branchAt, hmore, read_add, hread, decodeBranch_code]
  · rw [husage, hpos]
    congr 2 <;> omega
  · rw [husage, hpos]
    exact_mod_cast hback
  · rw [husage, hpos]
    simp only [programMaxSize] at hlen
    omega

/-- The compilation of a program behind a fixed part of the code. -/
def buildOf (host : Host) {config : Config} (program : Program config) (code : Memory) : Build :=
  ⟨host, config, program.instructions, code⟩

/-- What follows the instruction loop is emitted behind their code. -/
theorem finished (host : Host) {config : Config} (program : Program config)
    (readReg2 readReg3 : UInt32) (code : Memory) (tail : List Store) :
    ∃ stores, (generateProgramPrologue host program readReg2 readReg3 code).put tail =
      ((buildOf host program code).stateAt (buildOf host program code).instrs.length).put
        stores := by
  have hall : (buildOf host program code).stateAt (buildOf host program code).instrs.length =
      compileAll host config program.instructions (begin host code) := by
    rw [Build.stateAt, buildOf, List.take_length]
  rw [hall]
  exact ⟨_, put_put _ _ tail⟩

/-- Every branch in the finished buffer leads to the first byte of the code that follows the
interpreter's target, and both compilers keep the same `registerUsage` after every
instruction. `tail` is whatever is emitted behind the program. -/
theorem branch_targets (host : Host) {config : Config} (program : Program config)
    (readReg2 readReg3 : UInt32) (code : Memory) (tail : List Store) :
    ∃ bytecode usage, compileProgram program = some (bytecode, usage) ∧
      (∀ (c : Nat) instr ibc, program.instructions[c]? = some instr →
        config.instructionType instr = .cbranch → bytecode[c]? = some ibc →
        -1 ≤ ibc.target.toInt ∧ ibc.target.toInt < c ∧
          branchDestination
              ((generateProgramPrologue host program readReg2 readReg3 code).put tail).code
              ((buildOf host program code).start c) =
            some ((buildOf host program code).start (ibc.target.toInt + 1).toNat : Int)) ∧
      ∀ k ≤ program.instructions.length, ∃ bytecode usage,
        compileFrom config 0 beginCompilation (program.instructions.take k) =
            some (bytecode, usage) ∧
          ∀ r, -1 ≤ usage r ∧ usage r < k ∧
            (compileAll host config (program.instructions.take k)
              (begin host code)).registerUsage r =
              (buildOf host program code).start (usage r + 1).toNat := by
  have hlen := program.length_le
  refine ⟨_, _, compileFrom_eq .., fun c instr ibc hget htype hibc => ?_, fun k hk => ?_⟩
  · have hc : c < program.instructions.length := (List.getElem?_eq_some_iff.mp hget).1
    have h : (buildOf host program code).Has c instr .cbranch := ⟨hget, htype⟩
    obtain ⟨hlow, hhigh, -⟩ := (buildOf host program code).registerUsage_eq c hc.le instr.dst
    have htarget : ibc.target.toInt = (buildOf host program code).usageAt c instr.dst := by
      rw [compiled_getElem?, hget, Option.map_some, htype] at hibc
      obtain rfl := Option.some.inj hibc
      exact (buildOf host program code).target_toInt hlen hc.le instr.dst
    refine ⟨htarget ▸ hlow, htarget ▸ hhigh, ?_⟩
    have hend : (buildOf host program code).start c ≤ (buildOf host program code).start (c + 1) :=
      ((buildOf host program code).start_succ c).1
    obtain ⟨stores, hdone⟩ := finished host program readReg2 readReg3 code tail
    rw [branchDestination, hdone, branchAt_eq _ hlen h, Option.map_some, htarget]
    congr 1
    simp only
    omega
  · refine ⟨_, _, compileFrom_eq .., fun r => ?_⟩
    exact (buildOf host program code).registerUsage_eq k hk r

end VeloxHash.JitBranchTarget
