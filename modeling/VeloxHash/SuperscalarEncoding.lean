import VeloxHash.SuperscalarCode

/-! The bytes of every template, for all register pairs, against the bytes of the
instructions it stands for. -/

namespace VeloxHash.SuperscalarCode

open Randomx CodeBuffer CodeBuffer.Store JitCompilerX86 BytecodeMachine Superscalar
  EncodedMachine X86Machine

section Scalar

/-- The templates of four bytes or fewer that two registers go into. -/
theorem twoRegisters_code : ∀ dst src : Fin 8,
    ((put32 (0x00C02B4D + shl32 (reg32 dst) 19 + shl32 (reg32 src) 16) 3).code =
        encode (.alu .sub (gprOf dst) (gprOf src)) ∧
      (put32 (0x00C0334D + shl32 (reg32 dst) 19 + shl32 (reg32 src) 16) 3).code =
        encode (.alu .xor (gprOf dst) (gprOf src)) ∧
      (put32 (0xC0AF0F4D + shl32 (reg32 dst) 27 + shl32 (reg32 src) 24) 4).code =
        encode (.alu .imul (gprOf dst) (gprOf src))) ∧
    (lanePair dst src 0xC0FBFDC5).code =
        encode (.lane .psubq (ymmOf dst) (ymmOf dst) (ymmOf src)) ∧
      (lanePair dst src 0xC0EFFDC5).code =
        encode (.lane .pxor (ymmOf dst) (ymmOf dst) (ymmOf src)) ∧
      (lanePair dst src 0xC0D4FDC5).code =
        encode (.lane .paddq (ymmOf dst) (ymmOf dst) (ymmOf src)) := by
  decide +kernel

/-- The fourth byte of a store on its own. -/
theorem put32_top {k v : UInt32} (hk : k.toNat < 2 ^ 24) :
    (put32 (k + shl32 v 24) 4).code = (put32 k 3).code ++ [v.toUInt8] := by
  have hsum : (k + shl32 v 24).toNat = k.toNat + v.toNat % 256 * 2 ^ 24 := by
    rw [shl32, UInt32.toNat_add, UInt32.toNat_shiftLeft, Nat.shiftLeft_eq]
    simp only [UInt32.reduceToNat, Nat.reduceMod]
    omega
  have hbyte {x y : Nat} (h : x % 256 = y % 256) : UInt8.ofNat x = UInt8.ofNat y := by
    apply UInt8.toNat.inj
    rw [UInt8.toNat_ofNat', UInt8.toNat_ofNat', h]
  have htop : UInt8.ofNat ((k + shl32 v 24).toNat / 256 / 256 / 256) = v.toUInt8 :=
    (hbyte (by omega)).trans (UInt8.ofNat_uInt32ToNat v)
  change [UInt8.ofNat _, UInt8.ofNat _, UInt8.ofNat _, UInt8.ofNat _] =
    [UInt8.ofNat _, UInt8.ofNat _, UInt8.ofNat _, v.toUInt8]
  generalize (k + shl32 v 24).toNat = w at hsum htop ⊢
  rw [htop, hbyte (show w % 256 = k.toNat % 256 by omega),
    hbyte (show w / 256 % 256 = k.toNat / 256 % 256 by omega),
    hbyte (show w / 256 / 256 % 256 = k.toNat / 256 / 256 % 256 by omega)]

theorem lea_code (dst src : Fin 8) (scale : Fin 4) :
    (put32 (0x00048D4F + shl32 (reg32 dst) 19 +
        shl32 (genSIB (.ofNat scale.val) (reg32 src) (reg32 dst)) 24) 4).code =
      encode (.lea (gprOf dst) (gprOf dst) (gprOf src) scale) := by
  rw [put32_top (by fin_cases dst <;> decide)]
  fin_cases dst <;> fin_cases src <;> fin_cases scale <;> rfl

theorem ror_code (dst : Fin 8) (shift : UInt32) :
    (put32 (0x00C8C149 + shl32 (reg32 dst) 16 + shl32 shift 24) 4).code =
      encode (.ror (gprOf dst) shift.toUInt8) := by
  rw [put32_top (by fin_cases dst <;> decide)]
  fin_cases dst <;> rfl

theorem high_code (dst src : Fin 8) :
    (put32 (0x00C08B49 + shl32 (reg32 dst) 16) 3).code = encode (.alu .mov rax (gprOf dst)) ∧
      (put32 (0x00E0F749 + shl32 (reg32 src) 16) 3).code = encode (.wide .mul (gprOf src)) ∧
      (put32 (0x00E8F749 + shl32 (reg32 src) 16) 3).code = encode (.wide .imul (gprOf src)) ∧
      (put32 (0x00C28B4C + shl32 (reg32 dst) 19) 3).code = encode (.alu .mov (gprOf dst) rdx) :=
  ⟨by fin_cases dst <;> rfl, by fin_cases src <;> rfl, by fin_cases src <;> rfl,
    by fin_cases dst <;> rfl⟩

theorem imulRax_code : ∀ dst : Fin 8,
    (put32 (0xC0AF0F4C + shl32 (reg32 dst) 27) 4).code = encode (.alu .imul (gprOf dst) rax) := by
  decide

/-- A store of four bytes that are not the immediate, then the immediate. -/
theorem aluImm_code : ∀ dst : Fin 8,
    (put32 (0x00C08149 + shl32 (reg32 dst) 16) 3).code =
        [rex 0 0 (gprOf dst), 0x81, fields 3 ImmOp.add.code (gprOf dst)] ∧
      (put32 (0x00F08149 + shl32 (reg32 dst) 16) 3).code =
        [rex 0 0 (gprOf dst), 0x81, fields 3 ImmOp.xor.code (gprOf dst)] := by
  decide

end Scalar

section Lanes

theorem laneAddShifted_eq (dst src : Fin 8) (scale : Nat) :
    laneAddShifted dst src scale =
      assemble encode
        [.shift .psllq 8 (ymmOf src) (.ofNat scale), .lane .paddq (ymmOf dst) 8 (ymmOf dst)] := by
  fin_cases dst <;> fin_cases src <;> rfl

theorem laneMul_eq (dst src : Fin 8) :
    laneMul dst src =
      assemble encode ([.shift .psrlq 8 (ymmOf dst) 32, .shift .psrlq 9 (ymmOf src) 32] ++
        productLanes (ymmOf dst) (ymmOf src)) := by
  fin_cases dst <;> fin_cases src <;> rfl

theorem laneRotate_eq (dst : Fin 8) (shift : UInt32) :
    laneRotate dst shift =
      assemble encode [.shift .psrlq 8 (ymmOf dst) shift.toUInt8,
        .shift .psllq 9 (ymmOf dst) (64 - shift).toUInt8, .lane .por (ymmOf dst) 8 9] := by
  fin_cases dst <;> rfl

theorem laneHigh_eq (dst src : Fin 8) :
    laneHigh dst src =
      assemble encode (middleLanes (ymmOf dst) (ymmOf src) (ymmOf dst) ++
        [.lane .paddq (ymmOf dst) 8 (ymmOf dst), .shift .psrlq 11 11 32,
          .lane .paddq (ymmOf dst) 11 (ymmOf dst)]) := by
  fin_cases dst <;> fin_cases src <;> rfl

theorem laneHighSigned_eq (dst src : Fin 8) :
    laneHighSigned dst src =
      assemble encode (middleLanes (ymmOf dst) (ymmOf src) 13 ++
        [.lane .paddq 13 13 8, .shift .psrlq 11 11 32, .lane .paddq 8 13 11, .lane .pxor 9 9 9,
          .lane .pcmpgtq 10 9 (ymmOf dst), .lane .pcmpgtq 11 9 (ymmOf src),
          .lane .pand 10 10 (ymmOf src), .lane .pand 11 11 (ymmOf dst), .lane .psubq 8 8 10,
          .lane .psubq (ymmOf dst) 8 11]) := by
  fin_cases dst <;> fin_cases src <;> rfl

theorem laneMulConstant_eq (dst : Fin 8) :
    laneMulConstant dst =
      assemble encode ([.broadcast 12 0xFFFFFFEB, .shift .psrlq 8 (ymmOf dst) 32,
        .shift .psrlq 9 12 32] ++ productLanes (ymmOf dst) 12) := by
  fin_cases dst <;> rfl

/-- The corrections lie behind the constant, whose bytes can stay open. -/
theorem laneConstant_eq (dst : Fin 8) (imm : UInt64) :
    laneConstant dst 0x03 0xD4 imm =
        assemble encode [.movImm rax imm, .alu .add (gprOf dst) rax, .broadcast 8 0xFFFFFFEC,
          .lane .paddq (ymmOf dst) (ymmOf dst) 8] ∧
      laneConstant dst 0x33 0xEF imm =
        assemble encode [.movImm rax imm, .alu .xor (gprOf dst) rax, .broadcast 8 0xFFFFFFEC,
          .lane .pxor (ymmOf dst) (ymmOf dst) 8] := by
  fin_cases dst <;> exact ⟨rfl, rfl⟩

end Lanes

section Assembly

variable (avx2 : Bool)

theorem code_cons (s : Store) (rest : List Store) : code (s :: rest) = s.code ++ code rest := rfl

theorem code_append (xs ys : List Store) : code (xs ++ ys) = code xs ++ code ys :=
  List.flatMap_append

theorem code_put (bytes : List UInt8) : (put bytes).code = bytes := List.take_length

theorem code_whenAvx2 {s : Store} {is : List Instr} (h : s.code = assemble encode is) :
    code (whenAvx2 avx2 s) = assemble encode (if avx2 then is else []) := by
  cases avx2
  · rfl
  · rw [whenAvx2, if_pos rfl, if_pos rfl, code_cons, h]
    exact List.append_nil _

/-- One scalar instruction and the lanes that go with it. -/
theorem code_pair {s t : Store} {i : Instr} {is : List Instr} (hs : s.code = encode i)
    (ht : t.code = assemble encode is) :
    code (s :: whenAvx2 avx2 t) = assemble encode ([i] ++ if avx2 then is else []) := by
  rw [code_cons, hs, code_whenAvx2 avx2 ht, assemble_append, assemble_cons, assemble_nil,
    List.append_nil]

end Assembly

theorem getModShift_lt (instr : Instruction) : instr.getModShift < 4 := Nat.mod_lt _ (by decide)

theorem code_constantStores (avx2 : Bool) (instr : Instruction) :
    code (constantStores avx2 instr 0x00C08149 0x03 0xD4) =
        assemble encode (constantScalar avx2 instr .add .add ++
          if avx2 then constantLanes instr .paddq else []) ∧
      code (constantStores avx2 instr 0x00F08149 0x33 0xEF) =
        assemble encode (constantScalar avx2 instr .xor .xor ++
          if avx2 then constantLanes instr .pxor else []) := by
  cases avx2
  · obtain ⟨hadd, hxor⟩ := aluImm_code instr.dst
    constructor
    · change _ ++ (_ ++ []) = _
      rw [hadd]
      rfl
    · change _ ++ (_ ++ []) = _
      rw [hxor]
      rfl
  · obtain ⟨hadd, hxor⟩ := laneConstant_eq instr.dst (signExtend2sCompl instr.imm32)
    constructor
    · change (put _).code ++ [] = _
      rw [code_put, hadd]
      rfl
    · change (put _).code ++ [] = _
      rw [code_put, hxor]
      rfl

theorem code_highStores (avx2 : Bool) (instr : Instruction) {k : UInt32} {op : WideOp}
    {lanes : List UInt8} {is : List Instr}
    (hk : (put32 (k + shl32 (reg32 instr.src) 16) 3).code = encode (.wide op (gprOf instr.src)))
    (hlanes : lanes = assemble encode is) :
    code (highStores avx2 instr k lanes) =
      assemble encode (highScalar instr op ++ if avx2 then is else []) := by
  obtain ⟨hmov, _, _, hback⟩ := high_code instr.dst instr.src
  rw [highStores, code_append, code_whenAvx2 avx2 ((code_put lanes).trans hlanes), code_cons, code_cons,
    code_cons, hmov, hk, hback, assemble_append]
  rfl

/-- The emitted bytes are those of the compiled instructions. -/
theorem code_stores (avx2 : Bool) (instr : Instruction) (type : SuperscalarInstructionType) :
    code (stores avx2 instr type) = assemble encode (compiled avx2 instr type) := by
  obtain ⟨⟨hsub, hxor, hmul⟩, hpsub, hpxor, hpadd⟩ := twoRegisters_code instr.dst instr.src
  obtain ⟨_, hmulh, hsmulh, _⟩ := high_code instr.dst instr.src
  obtain ⟨hcadd, hcxor⟩ := code_constantStores avx2 instr
  cases type with
  | isubR => exact code_pair avx2 hsub (hpsub.trans (List.append_nil _).symm)
  | ixorR => exact code_pair avx2 hxor (hpxor.trans (List.append_nil _).symm)
  | iaddRs =>
    obtain ⟨scale, hscale⟩ : ∃ scale : Fin 4, scale.val = instr.getModShift :=
      ⟨⟨_, getModShift_lt instr⟩, rfl⟩
    have hlea := lea_code instr.dst instr.src scale
    have hshifted := laneAddShifted_eq instr.dst instr.src scale
    have hlanes : (if instr.getModShift ≠ 0 then
        put (laneAddShifted instr.dst instr.src instr.getModShift)
        else lanePair instr.dst instr.src 0xC0D4FDC5).code =
          assemble encode (vectorCode instr .iaddRs) := by
      unfold vectorCode
      dsimp only
      split
      · rw [code_put, ← hscale, hshifted]
      · exact hpadd.trans (List.append_nil _).symm
    have hdef : Fin.ofNat 4 instr.getModShift = scale := by
      rw [← hscale]
      exact Fin.ext (Nat.mod_eq_of_lt scale.isLt)
    have hscalar : scalarCode avx2 instr .iaddRs =
        [.lea (gprOf instr.dst) (gprOf instr.dst) (gprOf instr.src) scale] := by
      rw [← hdef]
      rfl
    rw [hscale] at hlea
    rw [compiled, hscalar]
    exact code_pair avx2 hlea hlanes
  | imulR => exact code_pair avx2 hmul ((code_put _).trans (laneMul_eq _ _))
  | irorC =>
    have hror := ror_code instr.dst (instr.imm32 &&& 63)
    exact code_pair avx2 hror ((code_put _).trans (laneRotate_eq instr.dst _))
  | iaddC7 | iaddC8 | iaddC9 => exact hcadd
  | ixorC7 | ixorC8 | ixorC9 => exact hcxor
  | imulhR => exact code_highStores avx2 instr hmulh (laneHigh_eq _ _)
  | ismulhR => exact code_highStores avx2 instr hsmulh (laneHighSigned_eq _ _)
  | imulRcp =>
    have hmulRcp := imulRax_code instr.dst
    have hlanes := code_whenAvx2 avx2 ((code_put _).trans (laneMulConstant_eq instr.dst))
    rw [stores, code_append, hlanes, code_cons, code_cons, code_cons, hmulRcp, compiled,
      assemble_append]
    rfl

end VeloxHash.SuperscalarCode
