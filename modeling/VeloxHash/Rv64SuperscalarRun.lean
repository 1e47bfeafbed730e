import VeloxHash.Rv64SuperscalarCode

/-! The scalar code of superscalar programs against the interpreter. -/

namespace VeloxHash.JitCompilerRv64

open CodeBuffer EncodedMachine RiscVMachine RiscVSuperscalar BytecodeMachine LiteralPool Randomx
  Superscalar WordArithmetic

section Registers

/-- The register of `r0` to `r7`. -/
def xOf (r : Fin 8) : Register := reg (regSS r)

def scalars (s : State) : Registers := fun r => s.x (xOf r)

theorem xOf_injective : Function.Injective xOf := by decide

theorem xOf_ne (r : Fin 8) : xOf r ≠ 0 ∧ xOf r ≠ reg sshTmp1Reg ∧ xOf r ≠ reg sshTmp2Reg ∧
    xOf r ≠ reg sshPoolReg ∧ xOf r ≠ reg sshRcpReg := by
  revert r
  decide

theorem get_xOf (s : State) (r : Fin 8) : s.get (reg (regSS r)) = scalars s r :=
  s.get_of_ne_zero (xOf_ne r).1

variable {s t : State} {isn : Instruction} {v : UInt64}

/-- A result in the target, and nothing else changed but the first temporary. -/
structure Assigns (dst : Fin 8) (v : UInt64) (s t : State) : Prop where
  result : t.x (xOf dst) = v
  keeps : Keeps [xOf dst, reg sshTmp1Reg] s t

theorem Assigns.scalars_eq {dst : Fin 8} (h : Assigns dst v s t) :
    scalars t = Function.update (scalars s) dst v := by
  funext r
  by_cases hr : r = dst
  · rw [hr, Function.update_self]
    exact h.result
  · rw [Function.update_of_ne hr]
    refine h.keeps.x _ ?_
    simp only [List.mem_cons, List.not_mem_nil, or_false, not_or]
    exact ⟨fun he => hr (xOf_injective he), (xOf_ne r).2.1⟩

theorem Assigns.kept {dst : Fin 8} (h : Assigns dst v s t) :
    t.x (reg sshPoolReg) = s.x (reg sshPoolReg) ∧ t.x (reg sshRcpReg) = s.x (reg sshRcpReg) := by
  obtain ⟨-, -, -, hpool, hrcp⟩ := xOf_ne dst
  refine ⟨h.keeps.x _ ?_, h.keeps.x _ ?_⟩
  · simp only [List.mem_cons, List.not_mem_nil, or_false, not_or]
    exact ⟨hpool.symm, by decide⟩
  · simp only [List.mem_cons, List.not_mem_nil, or_false, not_or]
    exact ⟨hrcp.symm, by decide⟩

end Registers

section Operations

variable (s : State) (dst src : Fin 8) (isn : Instruction)

/-- One operation whose result goes to the target. -/
theorem assigns_set (v : UInt64) (pc : Nat) : Assigns dst v s { s.set (xOf dst) v with pc := pc } :=
  ⟨Function.update_self .., keeps_set _ s (by simp) _ _⟩

variable {s dst} in
/-- A temporary value does not matter to what is assigned afterwards. -/
theorem Assigns.after {u t : State} {v : UInt64} (h : Assigns dst v u t)
    (hkeeps : Keeps [reg sshTmp1Reg] s u) : Assigns dst v s t :=
  ⟨h.result, (hkeeps.mono (by simp)).trans h.keeps⟩

variable {s} in
theorem scalars_keeps {u : State} (h : Keeps [reg sshTmp1Reg] s u) : scalars u = scalars s :=
  funext fun r => h.x _ (by simpa using (xOf_ne r).2.1)

variable {s} in
/-- The target with the temporary. -/
theorem assigns_binary (op : AluOp) {u : State} {a : UInt64} (hkeeps : Keeps [reg sshTmp1Reg] s u)
    (htmp : u.x (reg sshTmp1Reg) = a) (pc : Nat) :
    Assigns dst (op.apply (scalars s dst) a) s { u.set (xOf dst)
      (op.apply (u.get (reg (regSS dst))) (u.get (reg sshTmp1Reg))) with pc := pc } := by
  rw [get_xOf, scalars_keeps hkeeps, u.get_of_ne_zero (by decide), htmp]
  exact (assigns_set u dst _ pc).after hkeeps

/-- The two shifts of a rotation. -/
theorem rotate_shifts (a : UInt64) {n : Nat} (h : 1 ≤ n ∧ n ≤ 63) :
    a <<< .ofNat ((64 - n) % 64) ||| a >>> .ofNat n = ⟨a.toBitVec.rotateRight n⟩ := by
  have hcount {m : Nat} (hm : m < 64) : ((UInt64.ofNat m).toBitVec % 64).toNat = m := by
    change (UInt64.ofNat m).toNat % 64 = m
    rw [UInt64.toNat_ofNat']
    omega
  apply UInt64.toBitVec_inj.mp
  rw [UInt64.toBitVec_or, UInt64.toBitVec_shiftLeft, UInt64.toBitVec_shiftRight,
    BitVec.shiftLeft_eq', BitVec.ushiftRight_eq', hcount (by omega), hcount (by omega),
    BitVec.rotateRight_def, BitVec.or_comm, Nat.mod_eq_of_lt (show n < 64 by omega),
    Nat.mod_eq_of_lt (show 64 - n < 64 by omega)]

/-- The two parts of a rotation, one in the temporary and one in the target. -/
theorem assigns_parts (left right : UInt64) (pc pc' pc'' : Nat) :
    let u : State := { s.set (reg sshTmp1Reg) right with pc := pc }
    let w : State := { u.set (xOf dst) left with pc := pc' }
    Assigns dst (left ||| right) s { w.set (xOf dst)
      (w.get (reg (regSS dst)) ||| w.get (reg sshTmp1Reg)) with pc := pc'' } := by
  intro u w
  have hdst : w.get (reg (regSS dst)) = left := by
    rw [get_xOf]
    exact Function.update_self (xOf dst) left u.x
  have htmp : w.get (reg sshTmp1Reg) = right := by
    rw [State.get_of_ne_zero _ (by decide)]
    refine (Function.update_of_ne (xOf_ne dst).2.1.symm left u.x).trans ?_
    exact Function.update_self (reg sshTmp1Reg) right s.x
  rw [hdst, htmp]
  have hu : Keeps [reg sshTmp1Reg] s u := keeps_set _ s (by simp) _ _
  have hw : Keeps [xOf dst, reg sshTmp1Reg] u w := keeps_set _ u (by simp) _ _
  refine ⟨?_, ((hu.mono (by simp)).trans hw).trans (keeps_set _ w (by simp) _ _)⟩
  exact Function.update_self (xOf dst) (left ||| right) w.x

/-- A constant is loaded without the temporary of an addition. -/
theorem immCode_tmp (imm : UInt32) {dst src : Nat} (h : src ≠ dst) (tmp : Nat) :
    immCode imm dst src tmp = immCode imm dst src dst := by
  unfold immCode
  simp only [if_pos h]

variable (ext : Extensions)

/-- What every instruction but `IMUL_RCP` does. -/
theorem instrCode_assigns (n : Nat) (lastLiteral : Bool) {type : SuperscalarInstructionType}
    (hvalid : Superscalar.Valid isn) (htype : superscalarType isn = some type)
    (hrcp : type ≠ .imulRcp) :
    Assigns isn.dst (superscalarResult isn (scalars s isn.dst) (scalars s isn.src) type) s
      (block processor Instr.bytes (instrCode ext n lastLiteral isn type) s) := by
  cases type with
  | isubR | ixorR | imulR | imulhR | ismulhR =>
    rw [← get_xOf, ← get_xOf]
    exact assigns_set s isn.dst _ _
  | iaddRs =>
    have hshift : isn.getModShift < 4 := Nat.mod_lt _ (by decide)
    unfold instrCode superscalarResult
    dsimp only
    split
    · rename_i hzero
      rw [hzero, show UInt64.ofNat 0 = 0 from rfl, UInt64.shiftLeft_zero, ← get_xOf, ← get_xOf]
      exact assigns_set s isn.dst _ _
    · split
      · rw [UInt64.add_comm, ← get_xOf, ← get_xOf]
        have hcases : isn.getModShift = 1 ∨ isn.getModShift = 2 ∨ isn.getModShift = 3 := by omega
        rcases hcases with h | h | h
        · rw [h]
          exact assigns_set s isn.dst _ _
        · rw [h]
          exact assigns_set s isn.dst _ _
        · rw [h]
          exact assigns_set s isn.dst _ _
      · rw [← get_xOf s isn.src]
        exact assigns_binary isn.dst .add (keeps_set _ s (by simp) _ _) (Function.update_self ..) _
  | irorC =>
    obtain ⟨hlow, hhigh⟩ := hvalid.irorC htype
    have hmod : isn.imm32.toNat % 64 = isn.imm32.toNat := Nat.mod_eq_of_lt (by omega)
    unfold instrCode superscalarResult rotr64
    dsimp only
    rw [hmod]
    split
    · rw [← get_xOf]
      exact assigns_set s isn.dst _ _
    · let u : State := { s.set (reg sshTmp1Reg)
        (s.get (reg (regSS isn.dst)) >>> .ofNat isn.imm32.toNat) with pc := s.pc + 4 }
      have hu : u.get (reg (regSS isn.dst)) = scalars s isn.dst := by
        rw [get_xOf, scalars_keeps (keeps_set _ s (by simp) _ _)]
      rw [← rotate_shifts _ ⟨hlow, hhigh⟩]
      nth_rewrite 1 [← hu]
      rw [← get_xOf s isn.dst]
      exact assigns_parts s isn.dst _ _ _ _ _
  | iaddC7 | iaddC8 | iaddC9 =>
    have hregs := regSS_lt isn.dst
    have htmp : sshTmp1Reg = 28 := rfl
    have himm : ImmRegisters (regSS isn.dst) (regSS isn.dst) sshTmp1Reg :=
      ⟨by omega, by omega, by omega, fun _ => by omega⟩
    obtain ⟨hx, hkeeps⟩ := imm_run isn.imm32 himm s
    rw [get_xOf] at hx
    exact ⟨hx, hkeeps⟩
  | ixorC7 | ixorC8 | ixorC9 =>
    have himm : ImmRegisters sshTmp1Reg 0 sshTmp1Reg :=
      ⟨by decide, by decide, by decide, fun h => absurd h (by decide)⟩
    obtain ⟨hx, hkeeps⟩ := imm_run isn.imm32 himm s
    unfold instrCode
    dsimp only
    rw [immCode_tmp _ (by decide), block_append]
    have hzero : s.get (reg 0) = 0 := if_pos rfl
    rw [hzero, UInt64.zero_add] at hx
    exact assigns_binary isn.dst .xor (hkeeps.mono (by simp)) hx _
  | imulRcp => exact absurd rfl hrcp

end Operations

section Literals

/-- Where the pool register points when the literal of number `n` has been loaded. -/
def poolPointer (code n : Nat) : Nat :=
  code + superScalarLiteralPoolRefOffset - 4096 * ((n + 1) / 512)

/-- The literal of number `n`, if there is one, has been loaded. -/
structure Loaded (code : Nat) (literals : List UInt64) (n : Nat) (s : State) : Prop where
  pool : n < literals.length → (s.x (reg sshPoolReg)).toNat = poolPointer code n
  next : ∀ v, literals[n]? = some v → s.x (reg sshRcpReg) = v

/-- The offset in a load with its sign. -/
theorem loadOffset_signed (n : Nat) :
    signed 12 (loadOffset n % 2 ^ 12).toNat = 2040 - 8 * (n % 512 : Nat) := by
  unfold signed loadOffset literalOffset
  split <;> omega

theorem loadOffset_eq_iff (n : Nat) : loadOffset n = 0x800 ↔ n % 512 = 511 := by
  unfold loadOffset literalOffset
  omega

variable {code n : Nat} {literals : List UInt64} {s : State} {v : UInt64}

/-- What a buffer of literals needs of the addresses. -/
structure Fits (code : Nat) (literals : List UInt64) : Prop where
  memory : code + superScalarHashOffset ≤ 2 ^ 64
  room : literals.length ≤ superscalarLiteraPoolSize / 8

/-- The load finds the next literal. -/
theorem load_literal (hfits : Fits code literals) (hheld : Holds (literalPool code) s.memory 0 literals)
    (hpool : (s.x (reg sshPoolReg)).toNat = poolPointer code n)
    (hv : literals[n + 1]? = some v) :
    s.load (s.address (reg sshPoolReg) (signed 12 (loadOffset (n + 1) % 2 ^ 12).toNat)) = v := by
  obtain ⟨hlt, hget⟩ := List.getElem?_eq_some_iff.mp hv
  have hroom : literals.length ≤ 8192 := hfits.room
  have hmemory : code + 90112 ≤ 2 ^ 64 := hfits.memory
  have haddress : s.address (reg sshPoolReg) (signed 12 (loadOffset (n + 1) % 2 ^ 12).toNat) =
      (literalPool code).slot (0 + (n + 1)) := by
    unfold State.address
    rw [s.get_of_ne_zero (by decide), loadOffset_signed, UInt64.toNat_add, toNat_ofInt64, hpool]
    change (code + 88064 - 4096 * ((n + 1) / 512) +
        (((2040 : Int) - 8 * ((n + 1) % 512 : Nat)) % 2 ^ 64).toNat) % 2 ^ 64 =
      code + 88064 + 2040 - 8 * (0 + (n + 1))
    omega
  rw [haddress, State.load, hheld (n + 1) hlt, hget, ofNat_ofLe_le]

/-- The registers of the literals. -/
def literalRegs : List Register := [reg sshTmp2Reg, reg sshPoolReg, reg sshRcpReg]

theorem scalars_literalRegs {t : State} (h : Keeps literalRegs s t) : scalars t = scalars s := by
  funext r
  obtain ⟨-, -, h2, hpool, hrcp⟩ := xOf_ne r
  refine h.x _ ?_
  simp only [literalRegs, List.mem_cons, List.not_mem_nil, or_false, not_or]
  exact ⟨h2, hpool, hrcp⟩

/-- The pool register moves down by 4 KB. -/
theorem movePool_run (s : State) (hpool : 4096 ≤ (s.x (reg sshPoolReg)).toNat) :
    let t := block processor Instr.bytes [clui sshTmp2Reg (-1), cadd sshPoolReg sshTmp2Reg] s
    (t.x (reg sshPoolReg)).toNat = (s.x (reg sshPoolReg)).toNat - 4096 ∧
      t.x (reg sshRcpReg) = s.x (reg sshRcpReg) ∧ Keeps literalRegs s t := by
  intro t
  have hlt := (s.x (reg sshPoolReg)).toNat_lt
  let u : State := { s.set (reg sshTmp2Reg) (signExtendWord ((-1 % 2 ^ 20 : Int).toNat * 2 ^ 12)) with
    pc := s.pc + 2 }
  have ht : t = { u.set (reg sshPoolReg) (u.get (reg sshPoolReg) + u.get (reg sshTmp2Reg)) with
    pc := s.pc + 2 + 2 } := rfl
  have hbase : u.get (reg sshPoolReg) = s.x (reg sshPoolReg) := rfl
  have hoffset : u.get (reg sshTmp2Reg) = 0xFFFFFFFFFFFFF000 := rfl
  rw [ht, hbase, hoffset]
  refine ⟨?_, rfl, ?_⟩
  · change (s.x (reg sshPoolReg) + 0xFFFFFFFFFFFFF000).toNat = _
    rw [UInt64.toNat_add]
    change ((s.x (reg sshPoolReg)).toNat + 0xFFFFFFFFFFFFF000) % 2 ^ 64 = _
    omega
  · exact (keeps_set _ s (by simp [literalRegs]) _ _).trans (keeps_set _ u (by simp [literalRegs]) _ _)

/-- The load of the next literal, and what it leaves alone. -/
theorem literalCode_run (hfits : Fits code literals)
    (hheld : Holds (literalPool code) s.memory 0 literals)
    (hpool : (s.x (reg sshPoolReg)).toNat = poolPointer code n) (hn : n + 1 < literals.length) :
    let t := block processor Instr.bytes (literalCode (n + 1)) s
    Loaded code literals (n + 1) t ∧ Keeps literalRegs s t := by
  intro t
  have hroom : literals.length ≤ 8192 := hfits.room
  obtain ⟨v, hv⟩ : ∃ v, literals[n + 1]? = some v := ⟨_, List.getElem?_eq_getElem hn⟩
  have hload := load_literal hfits hheld hpool hv
  let u : State := { s.set (reg sshRcpReg) v with pc := s.pc + 4 }
  have hu : Keeps literalRegs s u := keeps_set _ s (by simp [literalRegs]) _ _
  have hrcp : u.x (reg sshRcpReg) = v := by
    change Function.update s.x (reg sshRcpReg) v (reg sshRcpReg) = v
    exact Function.update_self ..
  have hupool : (u.x (reg sshPoolReg)).toNat = poolPointer code n := by
    rw [← hpool]
    rfl
  have hexec : processor.exec (ld sshRcpReg sshPoolReg (loadOffset (n + 1)))
      (ld sshRcpReg sshPoolReg (loadOffset (n + 1))).bytes.length s = u := by
    change ({ s.set _ _ with pc := _ } : State) = u
    rw [hload]
    rfl
  have ht : t = block processor Instr.bytes (if loadOffset (n + 1) = 0x800 then
      [clui sshTmp2Reg (-1), cadd sshPoolReg sshTmp2Reg] else []) u := by
    change block processor Instr.bytes (literalCode (n + 1)) s = _
    rw [literalCode, block_cons, hexec]
  have hnext {w : UInt64} (hw : literals[n + 1]? = some w) : w = v := Option.some.inj (hw.symm.trans hv)
  by_cases hend : (n + 1) % 512 = 511
  · rw [if_pos ((loadOffset_eq_iff _).mpr hend)] at ht
    have hpointer : poolPointer code (n + 1) = poolPointer code n - 4096 ∧
        4096 ≤ poolPointer code n := by
      change code + 88064 - 4096 * ((n + 1 + 1) / 512) = code + 88064 - 4096 * ((n + 1) / 512) - 4096 ∧
        4096 ≤ code + 88064 - 4096 * ((n + 1) / 512)
      omega
    obtain ⟨hmoved, hkept, hkeeps⟩ := movePool_run u (hupool ▸ hpointer.2)
    rw [ht]
    refine ⟨⟨fun _ => ?_, fun w hw => ?_⟩, hu.trans hkeeps⟩
    · rw [hmoved, hupool, hpointer.1]
    · rw [hnext hw, ← hrcp]
      exact hkept
  · rw [if_neg fun h => hend ((loadOffset_eq_iff _).mp h)] at ht
    have hpointer : poolPointer code (n + 1) = poolPointer code n := by
      change code + 88064 - 4096 * ((n + 1 + 1) / 512) = code + 88064 - 4096 * ((n + 1) / 512)
      omega
    rw [ht]
    exact ⟨⟨fun _ => hpointer ▸ hupool, fun w hw => hnext hw ▸ hrcp⟩, hu⟩

end Literals

section Programs

/-- The registers of the scalar code, as the only choice. -/
def scalarView (_ : Unit) : State → Registers := scalars

variable {code n : Nat} {literals : List UInt64} {s t : State} {isn : Instruction}

/-- The literal of an `IMUL_RCP` has number `n`, and it is known whether it is the last one. -/
structure Placed (literals : List UInt64) (n : Nat) (lastLiteral : Bool) (isn : Instruction) :
    Prop where
  literal : isRcp isn = true → literals[n]? = some (randomxReciprocal isn.imm32)
  last : isRcp isn = true → (lastLiteral = true ↔ literals.length = n + 1)

theorem Loaded.congr (h : Loaded code literals n s)
    (hkept : t.x (reg sshPoolReg) = s.x (reg sshPoolReg) ∧ t.x (reg sshRcpReg) = s.x (reg sshRcpReg)) :
    Loaded code literals n t :=
  ⟨fun hn => hkept.1 ▸ h.pool hn, fun v hv => hkept.2 ▸ h.next v hv⟩

variable (ext : Extensions) {lastLiteral : Bool} (hvalid : Superscalar.Valid isn)
  (hfits : Fits code literals)

include hvalid hfits in
theorem codeOf_registers (hheld : Holds (literalPool code) s.memory 0 literals)
    (hplaced : Placed literals n lastLiteral isn) (hloaded : Loaded code literals n s) :
    let t := block processor Instr.bytes (codeOf ext n lastLiteral isn) s
    scalars t = executeInstruction (scalars s) isn ∧
      Loaded code literals (n + (literalsOf isn).length) t := by
  obtain ⟨type, htype⟩ := Option.isSome_iff_exists.mp hvalid.known
  unfold codeOf
  rw [htype, Option.elim_some, executeInstruction_eq htype]
  by_cases hrcp : type = .imulRcp
  · subst hrcp
    have hisRcp : isRcp isn = true := decide_eq_true htype
    have hliteral := hplaced.literal hisRcp
    obtain ⟨hn, -⟩ := List.getElem?_eq_some_iff.mp hliteral
    have hlast := hplaced.last hisRcp
    have hmul : Assigns isn.dst (scalars s isn.dst * randomxReciprocal isn.imm32) s
        (processor.exec (rtype opMul .mul (regSS isn.dst) (regSS isn.dst) sshRcpReg) 4 s) := by
      rw [← get_xOf, ← hloaded.next _ hliteral, ← s.get_of_ne_zero (by decide)]
      exact assigns_set s isn.dst _ _
    generalize hu : processor.exec (rtype opMul .mul (regSS isn.dst) (regSS isn.dst) sshRcpReg) 4 s =
      u at hmul
    have hblock : block processor Instr.bytes (instrCode ext n lastLiteral isn .imulRcp) s =
        block processor Instr.bytes (if lastLiteral then [] else literalCode (n + 1)) u := by
      rw [← hu]
      rfl
    have hone : (literalsOf isn).length = 1 := by rw [literalsOf, if_pos hisRcp]; rfl
    rw [hblock, hone]
    have hregisters := hmul.scalars_eq
    cases lastLiteral with
    | true =>
      have hend : literals.length = n + 1 := hlast.mp rfl
      refine ⟨hregisters, fun h => absurd h (by omega), fun v hv => ?_⟩
      exact absurd (List.getElem?_eq_some_iff.mp hv).1 (by omega)
    | false =>
      have hmore : n + 1 < literals.length := by
        have hne : literals.length ≠ n + 1 := fun h => absurd (hlast.mpr h) Bool.false_ne_true
        omega
      have hmemory : u.memory = s.memory := hmul.keeps.memory
      obtain ⟨hnext, hkeeps⟩ := literalCode_run (s := u) hfits (hmemory ▸ hheld)
        (hmul.kept.1 ▸ hloaded.pool hn) hmore
      exact ⟨(scalars_literalRegs hkeeps).trans hregisters, hnext⟩
  · have hnone : (literalsOf isn).length = 0 := by
      rw [literalsOf, if_neg]
      · rfl
      · rw [isRcp, htype]
        simpa using hrcp
    have hassigns := instrCode_assigns s isn ext n lastLiteral hvalid htype hrcp
    rw [hnone]
    exact ⟨hassigns.scalars_eq, hloaded.congr hassigns.kept⟩

include hvalid in
theorem encodes_codeOf (n : Nat) (lastLiteral : Bool) :
    ∀ i ∈ codeOf ext n lastLiteral isn, processor.Encodes i.bytes i := by
  obtain ⟨type, htype⟩ := Option.isSome_iff_exists.mp hvalid.known
  unfold codeOf
  rw [htype]
  exact encodes_instrCode ext n lastLiteral isn type

include hvalid hfits in
/-- One instruction from memory. -/
theorem codeOf_run (hheld : Holds (literalPool code) s.memory 0 literals)
    (hplaced : Placed literals n lastLiteral isn) (hloaded : Loaded code literals n s)
    (hread : read s.memory s.pc (assemble Instr.bytes (codeOf ext n lastLiteral isn)).length =
      assemble Instr.bytes (codeOf ext n lastLiteral isn)) :
    ∃ t, Computes scalarView [isn] s t ∧
      t.pc = s.pc + (assemble Instr.bytes (codeOf ext n lastLiteral isn)).length ∧
      Loaded code literals (n + (literalsOf isn).length) t := by
  have hencodes := encodes_codeOf ext hvalid n lastLiteral
  have hstraight : ∀ i ∈ codeOf ext n lastLiteral isn, processor.Straight i := fun i _ => straight i
  obtain ⟨hregisters, hnext⟩ := codeOf_registers ext hvalid hfits hheld hplaced hloaded
  have hreaches := reaches_block hencodes hstraight hread
  refine ⟨_, computes_single hreaches (memory_block hstraight) (fun _ => hregisters) ?_,
    pc_block hstraight, hnext⟩
  intro hrcp
  have hliteral := hplaced.literal (decide_eq_true hrcp)
  have hcode : codeOf ext n lastLiteral isn =
      rtype opMul .mul (regSS isn.dst) (regSS isn.dst) sshRcpReg ::
        if lastLiteral then [] else literalCode (n + 1) := by
    rw [codeOf, hrcp]
    rfl
  rw [hcode] at hencodes hread
  obtain ⟨hfirst, -⟩ := read_append hread
  refine ⟨s, .refl, hreaches, fun _ => rfl, _, _, _,
    decode_of_encodes (hencodes _ List.mem_cons_self) hfirst, rfl, ?_⟩
  rw [s.get_of_ne_zero (by decide)]
  exact hloaded.next _ hliteral

/-- The first instruction of what is left of a program, with the literals before and behind. -/
theorem placed_head {rest : List Instruction} {before after : List UInt64}
    (hlast : isRcp isn = true → (lastLiteral = true ↔ programLiterals rest = [] ∧ after = [])) :
    Placed (before ++ programLiterals (isn :: rest) ++ after) before.length lastLiteral isn := by
  refine ⟨fun hrcp => literal_head before after rest hrcp, fun hrcp => ?_⟩
  rw [hlast hrcp, programLiterals_cons, literalsOf_rcp hrcp, ← List.length_eq_zero_iff,
    ← List.length_eq_zero_iff]
  simp only [List.length_append, List.length_cons, List.length_nil]
  omega

/-- A program from memory, behind the literals `before`. -/
theorem programCode_run {last : Option (Nat × Nat)} {j : Nat} {before after : List UInt64}
    {prog : List Instruction} {i : Nat} (hvalid : ∀ isn ∈ prog, Superscalar.Valid isn)
    (hliterals : literals = before ++ programLiterals prog ++ after)
    (hfits : Fits code literals) (hheld : Holds (literalPool code) s.memory 0 literals)
    (hlast : ∀ pre isn post, prog = pre ++ isn :: post → isRcp isn = true →
      (last = some (j, i + pre.length) ↔ programLiterals post = [] ∧ after = []))
    (hloaded : Loaded code literals before.length s)
    (hread : read s.memory s.pc
        (assemble Instr.bytes (programCode ext last j i before.length prog)).length =
      assemble Instr.bytes (programCode ext last j i before.length prog)) :
    ∃ t, Computes scalarView prog s t ∧
      t.pc = s.pc + (assemble Instr.bytes (programCode ext last j i before.length prog)).length ∧
      Loaded code literals (before.length + (programLiterals prog).length) t := by
  induction prog generalizing before i s with
  | nil => exact ⟨s, .nil s, rfl, hloaded⟩
  | cons isn rest ih =>
    rw [programCode, assemble_append] at hread ⊢
    obtain ⟨hfirst, hrest⟩ := read_append hread
    have hplaced : Placed literals before.length (last = some (j, i)) isn := by
      rw [hliterals]
      exact placed_head fun hrcp => by simpa using hlast [] isn rest rfl hrcp
    obtain ⟨u, hu, hupc, huloaded⟩ := codeOf_run ext (hvalid isn List.mem_cons_self) hfits hheld
      hplaced hloaded hfirst
    rw [← hupc, ← hu.memory] at hrest
    rw [← List.length_append] at huloaded hrest
    obtain ⟨t, ht, htpc, htloaded⟩ := ih
      (fun i hi => hvalid i (List.mem_cons_of_mem _ hi))
      (by rw [hliterals, programLiterals_cons]; simp only [List.append_assoc])
      (hu.memory.symm ▸ hheld)
      (fun pre isn' post heq hrcp => by
        have hiff := hlast (isn :: pre) isn' post (by rw [heq]; rfl) hrcp
        rwa [List.length_cons, ← Nat.add_assoc, Nat.add_right_comm] at hiff)
      huloaded hrest
    refine ⟨t, hu.cons ht, ?_, ?_⟩
    · rw [htpc, hupc, List.length_append, List.length_append, Nat.add_assoc]
    · rw [programLiterals_cons, List.length_append, ← Nat.add_assoc, ← List.length_append]
      exact htloaded

end Programs

section LastLiteral

variable {isn : Instruction}

theorem programLiterals_eq_nil_iff (prog : List Instruction) :
    lastRcp prog = none ↔ programLiterals prog = [] := by
  induction prog with
  | nil => exact ⟨fun _ => rfl, fun _ => rfl⟩
  | cons isn rest ih =>
    rw [lastRcp, programLiterals_cons, literalsOf, List.append_eq_nil_iff, ← ih, Option.or_eq_none_iff,
      Option.map_eq_none_iff]
    cases isRcp isn <;> simp

/-- An instruction with a literal is the last one if none follows. -/
theorem lastRcp_eq_iff (pre post : List Instruction) (h : isRcp isn = true) :
    lastRcp (pre ++ isn :: post) = some pre.length ↔ programLiterals post = [] := by
  induction pre with
  | nil =>
    rw [List.nil_append, lastRcp, if_pos h, ← programLiterals_eq_nil_iff]
    cases lastRcp post <;> simp
  | cons first pre ih =>
    rw [List.cons_append, lastRcp, List.length_cons, ← ih]
    cases hlast : lastRcp (pre ++ isn :: post) with
    | none =>
      have hnone := (programLiterals_eq_nil_iff _).mp hlast
      rw [programLiterals, List.flatMap_append, List.flatMap_cons, literalsOf_rcp h] at hnone
      exact absurd hnone (by simp)
    | some k => simp

end LastLiteral

end VeloxHash.JitCompilerRv64
