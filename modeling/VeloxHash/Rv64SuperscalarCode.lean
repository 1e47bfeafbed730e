import VeloxHash.Rv64Superscalar

/-! What the scalar generator writes: the bytes of which instructions, and which literals. -/

namespace VeloxHash.JitCompilerRv64

open CodeBuffer EncodedMachine RiscVMachine RiscVSuperscalar BytecodeMachine LiteralPool Randomx
  Superscalar
open SuperscalarGenerator (SuperscalarProgram)

section Instructions

/-- An operation on two registers from `x8` on. -/
def cpair (op : UInt16) (a : AluOp) (dst src : Nat) : Instr :=
  halfOf (rvc op (.ofNat (dst - 8)) (.ofNat (src - 8))) (.alu a (reg dst) (reg dst) (reg src))

def shxaddOp : Nat → AluOp
  | 1 => .sh1add
  | 2 => .sh2add
  | _ => .sh3add

def shxadd (rd rs1 rs2 shift : Nat) : Instr :=
  wordOf (shxaddWord rd rs1 rs2 shift) (.alu (shxaddOp shift) (reg rd) (reg rs1) (reg rs2))

/-- The load of the literal of number `n`, with the move of the pool register behind it. -/
def literalCode (n : Nat) : List Instr :=
  ld sshRcpReg sshPoolReg (loadOffset n) ::
    if loadOffset n = 0x800 then [clui sshTmp2Reg (-1), cadd sshPoolReg sshTmp2Reg] else []

variable (ext : Extensions)

/-- The instructions for `isn` behind `n` literals. -/
def instrCode (n : Nat) (lastLiteral : Bool) (isn : Instruction) :
    SuperscalarInstructionType → List Instr :=
  let dst := regSS isn.dst
  let src := regSS isn.src
  fun
  | .isubR => [cpair opCSub .sub dst src]
  | .ixorR => [cpair opCXor .xor dst src]
  | .iaddRs =>
    if isn.getModShift = 0 then [cadd dst src]
    else if ext.zba then [shxadd dst src dst isn.getModShift]
    else [shiftBy opSlli .slli sshTmp1Reg src isn.getModShift, cadd dst sshTmp1Reg]
  | .imulR => [rtype opMul .mul dst dst src]
  | .irorC =>
    let immr := isn.imm32.toNat % 64
    if ext.zbb then [shiftBy opRori .rori dst dst immr]
    else
      [shiftBy opSrli .srli sshTmp1Reg dst immr, cslli dst ((64 - immr) % 64),
        rtype opOr .or dst dst sshTmp1Reg]
  | .iaddC7 | .iaddC8 | .iaddC9 => immCode isn.imm32 dst dst sshTmp1Reg
  | .ixorC7 | .ixorC8 | .ixorC9 =>
    immCode isn.imm32 sshTmp1Reg 0 0 ++ [rtype opXor .xor dst dst sshTmp1Reg]
  | .imulhR => [rtype opMulhu .mulhu dst dst src]
  | .ismulhR => [rtype opMulh .mulh dst dst src]
  | .imulRcp => rtype opMul .mul dst dst sshRcpReg :: if lastLiteral then [] else literalCode (n + 1)

def codeOf (n : Nat) (lastLiteral : Bool) (isn : Instruction) : List Instr :=
  (superscalarType isn).elim [] (instrCode ext n lastLiteral isn)

variable (last : Option (Nat × Nat))

/-- The instructions of the program of number `j` from its number `i` on, behind `n` literals. -/
def programCode (j i n : Nat) : List Instruction → List Instr
  | [] => []
  | isn :: rest =>
    codeOf ext n (last = some (j, i)) isn ++
      programCode j (i + 1) (n + (literalsOf isn).length) rest

end Instructions

section Encodings

theorem cpair_decodes (dst src : Fin 8) :
    decodeHalf (rvc opCSub (.ofNat dst) (.ofNat src)).toNat =
        some (.alu .sub (reg (dst + 8)) (reg (dst + 8)) (reg (src + 8))) ∧
      decodeHalf (rvc opCXor (.ofNat dst) (.ofNat src)).toNat =
        some (.alu .xor (reg (dst + 8)) (reg (dst + 8)) (reg (src + 8))) := by
  revert dst src
  decide +kernel

theorem encodes_cpair (dst src : Fin 8) {op : UInt16} {a : AluOp}
    (h : op = opCSub ∧ a = .sub ∨ op = opCXor ∧ a = .xor) :
    processor.Encodes (cpair op a (regSS dst) (regSS src)).bytes
      (cpair op a (regSS dst) (regSS src)) := by
  obtain ⟨hsub, hxor⟩ := cpair_decodes dst src
  rcases h with ⟨rfl, rfl⟩ | ⟨rfl, rfl⟩
  · exact encodes_half hsub
  · exact encodes_half hxor

theorem shxadd_decodes (dst src : Fin 8) : ∀ shift ∈ [1, 2, 3],
    decodeWord (shxaddWord (dst + 8) (src + 8) (dst + 8) shift).toNat =
      some (.alu (shxaddOp shift) (reg (dst + 8)) (reg (src + 8)) (reg (dst + 8))) := by
  revert dst src
  decide +kernel

theorem regSS_lt (r : Fin 8) : 8 ≤ regSS r ∧ regSS r < 16 := by
  unfold regSS
  omega

theorem encodes_literalCode (n : Nat) : ∀ i ∈ literalCode n, processor.Encodes i.bytes i := by
  unfold literalCode
  intro i hi
  rcases List.mem_cons.mp hi with rfl | hi
  · exact encodes_ld (by decide) (by decide) _
  · split at hi
    · simp only [List.mem_cons, List.not_mem_nil, or_false] at hi
      rcases hi with rfl | rfl
      · exact encodes_clui (by decide) (by decide) (by decide) (by decide) (by decide)
      · exact encodes_cadd (by decide) (by decide) (by decide) (by decide)
    · exact absurd hi (List.not_mem_nil)

variable (ext : Extensions)

theorem encodes_instrCode (n : Nat) (lastLiteral : Bool) (isn : Instruction)
    (type : SuperscalarInstructionType) :
    ∀ i ∈ instrCode ext n lastLiteral isn type, processor.Encodes i.bytes i := by
  have hdst := regSS_lt isn.dst
  have hsrc := regSS_lt isn.src
  have hshift : isn.getModShift < 4 := Nat.mod_lt _ (by decide)
  have htmp : sshTmp1Reg = 28 := rfl
  have hmask : isn.imm32.toNat % 64 < 64 := Nat.mod_lt _ (by decide)
  cases type with
  | isubR =>
    exact List.forall_mem_singleton.mpr (encodes_cpair isn.dst isn.src (.inl ⟨rfl, rfl⟩))
  | ixorR =>
    exact List.forall_mem_singleton.mpr (encodes_cpair isn.dst isn.src (.inr ⟨rfl, rfl⟩))
  | iaddRs =>
    unfold instrCode
    dsimp only
    split
    · exact List.forall_mem_singleton.mpr
        (encodes_cadd (by omega) (by omega) (by omega) (by omega))
    · split
      · have hmem : isn.getModShift ∈ [1, 2, 3] := by
          simp only [List.mem_cons, List.not_mem_nil, or_false]
          omega
        exact List.forall_mem_singleton.mpr
          (encodes_word (shxadd_decodes isn.dst isn.src _ hmem))
      · refine List.forall_mem_cons.mpr ⟨?_, List.forall_mem_singleton.mpr ?_⟩
        · exact encodes_shiftBy (by decide) (by omega) (by omega) ⟨0, 1, rfl, .inl rfl, rfl⟩
        · exact encodes_cadd (by omega) (by decide) (by omega) (by decide)
  | imulR =>
    exact List.forall_mem_singleton.mpr
      (encodes_rtype (by omega) (by omega) (by omega) ⟨1, 0, rfl, by decide, rfl⟩)
  | imulhR =>
    exact List.forall_mem_singleton.mpr
      (encodes_rtype (by omega) (by omega) (by omega) ⟨1, 3, rfl, by decide, rfl⟩)
  | ismulhR =>
    exact List.forall_mem_singleton.mpr
      (encodes_rtype (by omega) (by omega) (by omega) ⟨1, 1, rfl, by decide, rfl⟩)
  | irorC =>
    unfold instrCode
    dsimp only
    split
    · exact List.forall_mem_singleton.mpr
        (encodes_shiftBy (by omega) (by omega) hmask ⟨0x18, 5, rfl, .inr rfl, rfl⟩)
    · refine List.forall_mem_cons.mpr ⟨?_, List.forall_mem_cons.mpr
        ⟨?_, List.forall_mem_singleton.mpr ?_⟩⟩
      · exact encodes_shiftBy (by decide) (by omega) hmask ⟨0, 5, rfl, .inr rfl, rfl⟩
      · exact encodes_cslli (by omega) (by omega) (by omega)
      · exact encodes_rtype (by omega) (by omega) (by decide) ⟨0, 6, rfl, by decide, rfl⟩
  | iaddC7 | iaddC8 | iaddC9 =>
    exact immCode_encodes ⟨by omega, by omega, by omega, fun _ => by omega⟩ _
  | ixorC7 | ixorC8 | ixorC9 =>
    refine List.forall_mem_append.mpr ⟨?_, List.forall_mem_singleton.mpr ?_⟩
    · exact immCode_encodes ⟨by decide, by decide, by decide, fun h => absurd h (by decide)⟩ _
    · exact encodes_rtype (by omega) (by omega) (by decide) ⟨0, 4, rfl, by decide, rfl⟩
  | imulRcp =>
    refine List.forall_mem_cons.mpr ⟨?_, ?_⟩
    · exact encodes_rtype (by omega) (by omega) (by decide) ⟨1, 0, rfl, by decide, rfl⟩
    · split
      · exact nofun
      · exact encodes_literalCode _

end Encodings

section Emission

/-- The literals go downwards from just below the code. -/
def literalPool (code : Nat) : Pool where
  slot n := code + superScalarLiteralPoolRefOffset + 2040 - 8 * n
  limit := superscalarLiteraPoolSize / 8
  base := code + superScalarHashOffset
  below := by
    intro n hn
    change n < 8192 at hn
    change code + 88064 + 2040 - 8 * n + 8 ≤ code + 90112
    omega
  apart := by
    intro m hm n hn hne
    change m < 8192 at hm
    change n < 8192 at hn
    change code + 88064 + 2040 - 8 * m + 8 ≤ code + 88064 + 2040 - 8 * n ∨
      code + 88064 + 2040 - 8 * n + 8 ≤ code + 88064 + 2040 - 8 * m
    omega

def Buffer.cursor (b : Buffer) : Cursor := ⟨b.memory, b.code + b.codePos, b.rcpCount⟩

/-- From `a` to `b`, bytes and literals were added. -/
structure Emits (a b : Buffer) (bytes : List UInt8) (literals : List UInt64) : Prop where
  code : b.code = a.code
  emitted : Emitted (literalPool a.code) a.cursor b.cursor bytes literals

variable {a b c : Buffer} {bytes bytes' : List UInt8} {literals literals' : List UInt64}

theorem Emits.refl (b : Buffer) : Emits b b [] [] := ⟨rfl, .refl _ _⟩

theorem Emits.codePos (h : Emits a b bytes literals) : b.codePos = a.codePos + bytes.length := by
  have hposition := h.emitted.position
  have hcode := h.code
  unfold Buffer.cursor at hposition
  dsimp only at hposition
  omega

theorem Emits.rcpCount (h : Emits a b bytes literals) :
    b.rcpCount = a.rcpCount + literals.length := h.emitted.count

/-- One piece after the other, behind the pool and while it has room. -/
theorem Emits.trans (h : Emits a b bytes literals) (h' : Emits b c bytes' literals')
    (hpos : superScalarHashOffset ≤ a.codePos)
    (hcount : a.rcpCount + literals.length + literals'.length ≤ superscalarLiteraPoolSize / 8) :
    Emits a c (bytes ++ bytes') (literals ++ literals') := by
  refine ⟨h'.code.trans h.code, h.emitted.append (h.code ▸ h'.emitted) ?_ ?_⟩
  · have hc := h'.rcpCount
    rw [h.rcpCount] at hc
    exact hc.le.trans hcount
  · exact Nat.add_le_add_left hpos _

theorem emits_emit (b : Buffer) (bytes : List UInt8) : Emits b (b.emit bytes) bytes [] := by
  refine ⟨rfl, ?_⟩
  have hput : (b.emit bytes).cursor = b.cursor.put bytes := by
    unfold Buffer.cursor Buffer.emit Cursor.put
    simp only [Nat.add_assoc]
  rw [hput]
  exact emitted_put _ _ _

theorem Buffer.emit_emit (b : Buffer) (xs ys : List UInt8) :
    (b.emit xs).emit ys = b.emit (xs ++ ys) := by
  unfold Buffer.emit
  dsimp only
  rw [← Nat.add_assoc, write_append, List.length_append, Nat.add_assoc]

/-- A literal that has room goes to its slot. -/
theorem emits_literal (b : Buffer) (v : UInt64) (h : b.rcpCount < superscalarLiteraPoolSize / 8) :
    Emits b (storeLiteral b v) [] [v] := by
  refine ⟨rfl, ?_⟩
  have hslot : b.code + (superScalarLiteralPoolRefOffset + literalOffset b.rcpCount).toNat =
      (literalPool b.code).slot b.rcpCount := by
    change b.rcpCount < 8192 at h
    change b.code + ((88064 : Nat) + (2040 - (b.rcpCount : Int) * 8)).toNat =
      b.code + 88064 + 2040 - 8 * b.rcpCount
    omega
  unfold storeLiteral Buffer.cursor Buffer.emitAt
  dsimp only
  rw [hslot]
  exact emitted_literal _ _ _

variable (ext : Extensions)

theorem Buffer.emit_nil (b : Buffer) : b.emit [] = b := by
  unfold Buffer.emit
  rw [write_nil]
  rfl

theorem emitRvi_eq (b : Buffer) (op : UInt32) (rd rs1 rs2 : Nat) :
    emitRvi b op rd rs1 rs2 = b.emit (emit32 (rvi op (.ofNat rd) (.ofNat rs1) (.ofNat rs2))) := rfl

/-- An instruction without a literal. -/
theorem generateSuperscalarCode_eq (b : Buffer) {isn : Instruction} (lastLiteral : Bool)
    (h : isRcp isn = false) : generateSuperscalarCode ext b isn lastLiteral =
      b.emit (assemble Instr.bytes (codeOf ext b.rcpCount lastLiteral isn)) := by
  unfold generateSuperscalarCode codeOf
  unfold isRcp at h
  cases htype : superscalarType isn with
  | none => exact b.emit_nil.symm
  | some type =>
    simp only [Option.elim_some, instrCode]
    cases type with
    | isubR | ixorR | imulR | imulhR | ismulhR =>
      simp only [emitRvi_eq, assemble_singleton, cpair, rtype, bytes_half, bytes_word]
    | iaddRs =>
      dsimp only
      split
      · simp only [assemble_singleton, cadd, bytes_half]
      · split
        · simp only [assemble_singleton, shxadd, bytes_word]
        · simp only [emitRvi_eq, Buffer.emit_emit, assemble_cons, assemble_nil, List.append_nil,
            shiftBy, cadd, bytes_half, bytes_word]
    | irorC =>
      dsimp only
      split
      · simp only [emitRvi_eq, assemble_singleton, shiftBy, bytes_word]
      · simp only [emitRvi_eq, Buffer.emit_emit, assemble_cons, assemble_nil, List.append_nil,
          List.append_assoc, shiftBy, cslli, rtype, bytes_half, bytes_word]
    | iaddC7 | iaddC8 | iaddC9 => exact congrArg b.emit (emitImm32_eq _ _ _ _)
    | ixorC7 | ixorC8 | ixorC9 =>
      simp only [emitRvi_eq, Buffer.emit_emit, emitImm32_eq, assemble_append, assemble_singleton,
        rtype, bytes_word]
    | imulRcp =>
      rw [htype] at h
      exact absurd h (by decide)

theorem bytes_clui : (clui sshTmp2Reg (-1)).bytes =
    emit16 (rvcImm opCLui 1 (.ofNat sshTmp2Reg) 31) := by decide +kernel

theorem loadLiteral_eq (b : Buffer) :
    loadLiteral b = b.emit (assemble Instr.bytes (literalCode b.rcpCount)) := by
  unfold loadLiteral literalCode
  dsimp only
  split
  · simp only [Buffer.emit_emit, assemble_cons, assemble_nil, List.append_nil, List.append_assoc,
      bytes_clui, ld, cadd, bytes_half, bytes_word]
  · simp only [assemble_singleton, ld, bytes_word]

/-- The store of a literal and the load of the one after it. -/
theorem emitRcpLiteral2_emits (b : Buffer) (v : UInt64) (lastLiteral : Bool)
    (hpos : superScalarHashOffset ≤ b.codePos) (h : b.rcpCount < superscalarLiteraPoolSize / 8) :
    Emits b (emitRcpLiteral2 b v lastLiteral)
      (assemble Instr.bytes (if lastLiteral then [] else literalCode (b.rcpCount + 1))) [v] := by
  have hliteral := emits_literal b v h
  cases lastLiteral with
  | true => exact hliteral
  | false =>
    have hload := emits_emit (storeLiteral b v) (assemble Instr.bytes (literalCode (b.rcpCount + 1)))
    rw [emitRcpLiteral2, if_neg Bool.false_ne_true, if_neg Bool.false_ne_true, loadLiteral_eq]
    exact hliteral.trans hload hpos h

/-- One instruction. -/
theorem generateSuperscalarCode_emits (b : Buffer) (isn : Instruction) (lastLiteral : Bool)
    (hpos : superScalarHashOffset ≤ b.codePos)
    (hcount : b.rcpCount + (literalsOf isn).length ≤ superscalarLiteraPoolSize / 8) :
    Emits b (generateSuperscalarCode ext b isn lastLiteral)
      (assemble Instr.bytes (codeOf ext b.rcpCount lastLiteral isn)) (literalsOf isn) := by
  unfold literalsOf at hcount ⊢
  cases hrcp : isRcp isn with
  | false =>
    rw [generateSuperscalarCode_eq ext b lastLiteral hrcp, if_neg (by decide)]
    exact emits_emit b _
  | true =>
    have htype : superscalarType isn = some .imulRcp := of_decide_eq_true hrcp
    rw [hrcp, if_pos rfl] at hcount
    have hmul := emits_emit b (emit32 (rvi opMul (.ofNat (regSS isn.dst)) (.ofNat (regSS isn.dst))
      (.ofNat sshRcpReg)))
    have hrest := emitRcpLiteral2_emits (b.emit (emit32 (rvi opMul (.ofNat (regSS isn.dst))
      (.ofNat (regSS isn.dst)) (.ofNat sshRcpReg)))) (randomxReciprocal isn.imm32) lastLiteral
      (hpos.trans (Nat.le_add_right _ _)) hcount
    have hboth := hmul.trans hrest hpos hcount
    unfold generateSuperscalarCode codeOf
    rw [htype, if_pos rfl]
    exact hboth

variable (last : Option (Nat × Nat))

theorem generateProgram_emits (j i : Nat) (prog : List Instruction) (b : Buffer)
    (hpos : superScalarHashOffset ≤ b.codePos)
    (hcount : b.rcpCount + (programLiterals prog).length ≤ superscalarLiteraPoolSize / 8) :
    Emits b (generateProgram ext last j i prog b)
      (assemble Instr.bytes (programCode ext last j i b.rcpCount prog)) (programLiterals prog) := by
  induction prog generalizing i b with
  | nil => exact .refl b
  | cons isn rest ih =>
    rw [programLiterals, List.flatMap_cons, List.length_append, ← programLiterals] at hcount
    have hfirst := generateSuperscalarCode_emits ext b isn (last = some (j, i)) hpos (by omega)
    have hrest := ih (i + 1) (generateSuperscalarCode ext b isn (last = some (j, i)))
      (hfirst.codePos ▸ hpos.trans (Nat.le_add_right _ _)) (by rw [hfirst.rcpCount]; omega)
    rw [hfirst.rcpCount] at hrest
    rw [generateProgram, programCode, assemble_append, programLiterals, List.flatMap_cons,
      ← programLiterals]
    exact hfirst.trans hrest hpos (by omega)

end Emission

end VeloxHash.JitCompilerRv64
