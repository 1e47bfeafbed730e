import VeloxHash.RiscVMachine

/-! The instruction words of the RV64 compiler, and what the processor reads them as. -/

namespace VeloxHash.JitCompilerRv64

open CodeBuffer EncodedMachine RiscVMachine WordArithmetic

section Words

def opCLui : UInt16 := 0x6001
def opLui : UInt32 := 0x00000037
def opAddi : UInt32 := 0x00000013
def opAddiw : UInt32 := 0x0000001b
def opCAdd : UInt16 := 0x9002
def opShxadd : UInt32 := 0x20000033
def opSlli : UInt32 := 0x00001013
def opCSlli : UInt16 := 0x0002
def opSrli : UInt32 := 0x00005013
def opAnd : UInt32 := 0x00007033
def opOr : UInt32 := 0x00006033
def opXor : UInt32 := 0x00004033
def opCXor : UInt16 := 0x8c21
def opLd : UInt32 := 0x00003003
def opCSub : UInt16 := 0x8c01
def opMul : UInt32 := 0x02000033
def opMulhu : UInt32 := 0x02003033
def opMulh : UInt32 := 0x02001033
def opRori : UInt32 := 0x60005013

/-- `rvi`: the second source may be an immediate, whose upper bits are shifted out. -/
def rvi (op : UInt32) (rd rs1 rs2 : UInt32) : UInt32 := op ||| rs2 <<< 20 ||| rs1 <<< 15 ||| rd <<< 7

/-- `rvc` of two registers. -/
def rvc (op rd rs : UInt16) : UInt16 := op ||| rd <<< 7 ||| rs <<< 2

/-- `rvc` of a register and a six-bit immediate. -/
def rvcImm (op imm5 rd imm40 : UInt16) : UInt16 := op ||| imm5 <<< 12 ||| rd <<< 7 ||| imm40 <<< 2

def emit32 (w : UInt32) : List UInt8 := le w.toNat 4

def emit16 (w : UInt16) : List UInt8 := le w.toNat 2

end Words

section Fields

/-- The fields of a word do not overlap, but for an opcode's own bits in the second source. -/
theorem toNat_rvi {op rd rs1 rs2 : UInt32} {hi f3 opcode im : Nat}
    (hop : op.toNat = hi * 2 ^ 20 + f3 * 2 ^ 12 + opcode) (hf3 : f3 < 8) (hopcode : opcode < 128)
    (him : rs2.toNat % 2 ^ 12 = im) (hrs1 : rs1.toNat < 32) (hrd : rd.toNat < 32) :
    (rvi op rd rs1 rs2).toNat =
      (hi ||| im) * 2 ^ 20 + rs1.toNat * 2 ^ 15 + f3 * 2 ^ 12 + rd.toNat * 2 ^ 7 + opcode := by
  have h20 : (rs2 <<< 20).toNat = 2 ^ 20 * im := by
    rw [UInt32.toNat_shiftLeft, Nat.shiftLeft_eq]
    change rs2.toNat * 2 ^ 20 % 2 ^ 32 = _
    omega
  have h15 : (rs1 <<< 15).toNat = 2 ^ 15 * rs1.toNat := by
    rw [UInt32.toNat_shiftLeft, Nat.shiftLeft_eq]
    change rs1.toNat * 2 ^ 15 % 2 ^ 32 = _
    omega
  have h7 : (rd <<< 7).toNat = 2 ^ 7 * rd.toNat := by
    rw [UInt32.toNat_shiftLeft, Nat.shiftLeft_eq]
    change rd.toNat * 2 ^ 7 % 2 ^ 32 = _
    omega
  have hop' : op.toNat = 2 ^ 20 * hi ||| (2 ^ 12 * f3 ||| opcode) := by
    rw [← Nat.two_pow_add_eq_or_of_lt (i := 12) (by omega),
      ← Nat.two_pow_add_eq_or_of_lt (i := 20) (by omega)]
    omega
  have hhi : 2 ^ 20 * (hi ||| im) = 2 ^ 20 * hi ||| 2 ^ 20 * im := by
    simp only [Nat.mul_comm (2 ^ 20), ← Nat.shiftLeft_eq, Nat.shiftLeft_or_distrib]
  have hsum : (hi ||| im) * 2 ^ 20 + rs1.toNat * 2 ^ 15 + f3 * 2 ^ 12 + rd.toNat * 2 ^ 7 + opcode =
      2 ^ 20 * (hi ||| im) ||| (2 ^ 15 * rs1.toNat ||| (2 ^ 12 * f3 ||| (2 ^ 7 * rd.toNat ||| opcode))) := by
    rw [← Nat.two_pow_add_eq_or_of_lt (i := 7) (by omega),
      ← Nat.two_pow_add_eq_or_of_lt (i := 12) (by omega),
      ← Nat.two_pow_add_eq_or_of_lt (i := 15) (by omega),
      ← Nat.two_pow_add_eq_or_of_lt (i := 20) (by omega)]
    omega
  rw [hsum, hhi, rvi, UInt32.toNat_or, UInt32.toNat_or, UInt32.toNat_or, h20, h15, h7, hop']
  ac_rfl

theorem toNat_rvcImm {op imm5 rd imm40 : UInt16} {f3 q : Nat} (hop : op.toNat = f3 * 2 ^ 13 + q)
    (hq : q < 4) (himm5 : imm5.toNat < 2) (hrd : rd.toNat < 32)
    (himm40 : imm40.toNat < 32) :
    (rvcImm op imm5 rd imm40).toNat =
      f3 * 2 ^ 13 + imm5.toNat * 2 ^ 12 + rd.toNat * 2 ^ 7 + imm40.toNat * 2 ^ 2 + q := by
  have h12 : (imm5 <<< 12).toNat = 2 ^ 12 * imm5.toNat := by
    rw [UInt16.toNat_shiftLeft, Nat.shiftLeft_eq]
    change imm5.toNat * 2 ^ 12 % 2 ^ 16 = _
    omega
  have h7 : (rd <<< 7).toNat = 2 ^ 7 * rd.toNat := by
    rw [UInt16.toNat_shiftLeft, Nat.shiftLeft_eq]
    change rd.toNat * 2 ^ 7 % 2 ^ 16 = _
    omega
  have h2 : (imm40 <<< 2).toNat = 2 ^ 2 * imm40.toNat := by
    rw [UInt16.toNat_shiftLeft, Nat.shiftLeft_eq]
    change imm40.toNat * 2 ^ 2 % 2 ^ 16 = _
    omega
  have hop' : op.toNat = 2 ^ 13 * f3 ||| q := by
    rw [← Nat.two_pow_add_eq_or_of_lt (i := 13) (by omega)]
    omega
  have hsum : f3 * 2 ^ 13 + imm5.toNat * 2 ^ 12 + rd.toNat * 2 ^ 7 + imm40.toNat * 2 ^ 2 + q =
      2 ^ 13 * f3 ||| (2 ^ 12 * imm5.toNat ||| (2 ^ 7 * rd.toNat ||| (2 ^ 2 * imm40.toNat ||| q))) := by
    rw [← Nat.two_pow_add_eq_or_of_lt (i := 2) (by omega),
      ← Nat.two_pow_add_eq_or_of_lt (i := 7) (by omega),
      ← Nat.two_pow_add_eq_or_of_lt (i := 12) (by omega),
      ← Nat.two_pow_add_eq_or_of_lt (i := 13) (by omega)]
    omega
  rw [hsum, rvcImm, UInt16.toNat_or, UInt16.toNat_or, UInt16.toNat_or, h12, h7, h2, hop']
  ac_rfl

end Fields

section Decoding

/-- A register by its number. -/
def reg (n : Nat) : Register := .ofNat 32 n

theorem reg_ne_zero {n : Nat} (hn : n < 32) (h : n ≠ 0) : reg n ≠ 0 := by
  intro h0
  have hval : n % 32 = 0 := congrArg Fin.val h0
  omega

theorem toNat_ofNat_reg {n : Nat} (hn : n < 32) : (UInt32.ofNat n).toNat = n := by
  rw [UInt32.toNat_ofNat']
  omega

theorem toNat_ofInt_low (imm : Int) : (UInt32.ofInt imm).toNat % 2 ^ 12 = (imm % 2 ^ 12).toNat := by
  rw [UInt32.ofInt, UInt32.toNat_ofNat']
  omega

/-- A signed immediate reads back from its twelve bits. -/
theorem signed_low {imm : Int} (h : -2048 ≤ imm ∧ imm ≤ 2047) :
    signed 12 (imm % 2 ^ 12).toNat = imm := by
  unfold signed
  split <;> omega

section Words

variable {rd rs1 : Nat}

theorem fields_rvi (hrd : rd < 32) (hrs1 : rs1 < 32) (rs2 : UInt32) {op : UInt32}
    {hi f3 opcode : Nat} (hop : op.toNat = hi * 2 ^ 20 + f3 * 2 ^ 12 + opcode) (hf3 : f3 < 8)
    (hopcode : opcode < 128) :
    let w := (rvi op (.ofNat rd) (.ofNat rs1) rs2).toNat
    w % 128 = opcode ∧ funct3 w = f3 ∧ regField w 7 = reg rd ∧ regField w 15 = reg rs1 ∧
      w / 2 ^ 20 = hi ||| rs2.toNat % 2 ^ 12 := by
  have hrd' := toNat_ofNat_reg hrd
  have hrs1' := toNat_ofNat_reg hrs1
  have hw := toNat_rvi hop hf3 hopcode (Eq.refl (rs2.toNat % 2 ^ 12))
    (show (UInt32.ofNat rs1).toNat < 32 by omega) (show (UInt32.ofNat rd).toNat < 32 by omega)
  rw [hrd', hrs1'] at hw
  exact fields_of_word hw hrs1 hf3 hrd hopcode

/-- Flags above a number put beside it. -/
theorem or_eq_add {k hi low : Nat} (h : low < 2 ^ k) : hi * 2 ^ k ||| low = hi * 2 ^ k + low := by
  rw [Nat.mul_comm, ← Nat.two_pow_add_eq_or_of_lt h]

/-- The flags of an operation on registers. -/
def IsAlu (op : UInt32) (a : AluOp) : Prop :=
  ∃ f7 f3, op.toNat = f7 * 2 ^ 5 * 2 ^ 20 + f3 * 2 ^ 12 + 0x33 ∧ f3 < 8 ∧ aluOp f7 f3 = some a

/-- The flags of a shift by a constant. -/
def IsShift (op : UInt32) (a : ShiftOp) : Prop :=
  ∃ f6 f3, op.toNat = f6 * 2 ^ 6 * 2 ^ 20 + f3 * 2 ^ 12 + 0x13 ∧ (f3 = 1 ∨ f3 = 5) ∧
    shiftOp f6 f3 = some a

theorem decode_alu (hrd : rd < 32) (hrs1 : rs1 < 32) {rs2 : Nat} (hrs2 : rs2 < 32) {op : UInt32}
    {a : AluOp} (h : IsAlu op a) :
    decodeWord (rvi op (.ofNat rd) (.ofNat rs1) (.ofNat rs2)).toNat =
      some (.alu a (reg rd) (reg rs1) (reg rs2)) := by
  obtain ⟨f7, f3, hop, hf3, ha⟩ := h
  obtain ⟨hopcode, hfunct3, h7, h15, h20⟩ :=
    fields_rvi hrd hrs1 (.ofNat rs2) hop hf3 (by decide)
  rw [toNat_ofNat_reg hrs2, Nat.mod_eq_of_lt (by omega), or_eq_add hrs2] at h20
  generalize (rvi op (.ofNat rd) (.ofNat rs1) (.ofNat rs2)).toNat = w at *
  have hfunct7 : funct7 w = f7 := by
    unfold funct7
    omega
  have hrs2w : regField w 20 = reg rs2 := by
    rw [regField, reg, show w / 2 ^ 20 % 32 = rs2 by omega]
  simp only [decodeWord, hopcode, hfunct3, h7, h15, hfunct7, hrs2w, ha, Option.map_some]

theorem decode_shift (hrd : rd < 32) (hrs1 : rs1 < 32) {count : Nat} (hcount : count < 64)
    {op : UInt32} {a : ShiftOp} (h : IsShift op a) :
    decodeWord (rvi op (.ofNat rd) (.ofNat rs1) (.ofNat count)).toNat =
      some (.shift a (reg rd) (reg rs1) count) := by
  obtain ⟨f6, f3, hop, hf3, ha⟩ := h
  obtain ⟨hopcode, hfunct3, h7, h15, h20⟩ :=
    fields_rvi hrd hrs1 (.ofNat count) hop (by omega) (by decide)
  have htoNat : (UInt32.ofNat count).toNat = count := by
    rw [UInt32.toNat_ofNat']
    omega
  rw [htoNat, Nat.mod_eq_of_lt (by omega), or_eq_add hcount] at h20
  generalize (rvi op (.ofNat rd) (.ofNat rs1) (.ofNat count)).toNat = w at *
  have hfunct6 : w / 2 ^ 26 = f6 := by omega
  have hcountw : w / 2 ^ 20 % 64 = count := by omega
  rcases hf3 with rfl | rfl
  · simp only [decodeWord, hopcode, hfunct3, h7, h15, hfunct6, hcountw, ha, Option.map_some]
  · simp only [decodeWord, hopcode, hfunct3, h7, h15, hfunct6, hcountw, ha, Option.map_some]

variable {imm : Int} (himm : -2048 ≤ imm ∧ imm ≤ 2047)
include himm

theorem decode_addi (hrd : rd < 32) (hrs1 : rs1 < 32) :
    decodeWord (rvi opAddi (.ofNat rd) (.ofNat rs1) (.ofInt imm)).toNat =
      some (.addi (reg rd) (reg rs1) imm) := by
  have hop : opAddi.toNat = 0 * 2 ^ 20 + 0 * 2 ^ 12 + 0x13 := rfl
  obtain ⟨hopcode, hf3, h7, h15, h20⟩ := fields_rvi hrd hrs1 (.ofInt imm) hop (by decide) (by decide)
  rw [toNat_ofInt_low, Nat.zero_or] at h20
  simp only [decodeWord, hopcode, hf3, h7, h15, immI, h20, signed_low himm]

theorem decode_addiw (hrd : rd < 32) (hrs1 : rs1 < 32) :
    decodeWord (rvi opAddiw (.ofNat rd) (.ofNat rs1) (.ofInt imm)).toNat =
      some (.addiw (reg rd) (reg rs1) imm) := by
  have hop : opAddiw.toNat = 0 * 2 ^ 20 + 0 * 2 ^ 12 + 0x1b := rfl
  obtain ⟨hopcode, hf3, h7, h15, h20⟩ := fields_rvi hrd hrs1 (.ofInt imm) hop (by decide) (by decide)
  rw [toNat_ofInt_low, Nat.zero_or] at h20
  simp only [decodeWord, hopcode, hf3, h7, h15, immI, h20, signed_low himm]

omit himm in
/-- The offset of a load may be given without its sign. -/
theorem decode_ld (hrd : rd < 32) (hrs1 : rs1 < 32) (imm : Int) :
    decodeWord (rvi opLd (.ofNat rd) (.ofNat rs1) (.ofInt imm)).toNat =
      some (.ld (reg rd) (reg rs1) (signed 12 (imm % 2 ^ 12).toNat)) := by
  have hop : opLd.toNat = 0 * 2 ^ 20 + 3 * 2 ^ 12 + 0x03 := rfl
  obtain ⟨hopcode, hf3, h7, h15, h20⟩ := fields_rvi hrd hrs1 (.ofInt imm) hop (by decide) (by decide)
  rw [toNat_ofInt_low, Nat.zero_or] at h20
  simp only [decodeWord, hopcode, hf3, h7, h15, immI, h20]

end Words

section Lui

variable {rd : Nat} (hrd : rd < 32)
include hrd

theorem decode_lui (u : Int) :
    decodeWord (opLui ||| UInt32.ofInt u <<< 12 ||| UInt32.ofNat rd <<< 7).toNat =
      some (.lui (reg rd) (u % 2 ^ 20).toNat) := by
  have h12 : (UInt32.ofInt u <<< 12).toNat = 2 ^ 12 * (u % 2 ^ 20).toNat := by
    rw [UInt32.toNat_shiftLeft, Nat.shiftLeft_eq, UInt32.ofInt, UInt32.toNat_ofNat']
    change (u % 2 ^ 32).toNat % 2 ^ 32 * 2 ^ 12 % 2 ^ 32 = _
    omega
  have h7 : (UInt32.ofNat rd <<< 7).toNat = 2 ^ 7 * rd := by
    rw [UInt32.toNat_shiftLeft, Nat.shiftLeft_eq, toNat_ofNat_reg hrd]
    change rd * 2 ^ 7 % 2 ^ 32 = _
    omega
  have hw : (opLui ||| UInt32.ofInt u <<< 12 ||| UInt32.ofNat rd <<< 7).toNat =
      2 ^ 12 * (u % 2 ^ 20).toNat + (2 ^ 7 * rd + 0x37) := by
    rw [Nat.two_pow_add_eq_or_of_lt (i := 7) (by omega),
      Nat.two_pow_add_eq_or_of_lt (i := 12) (by rw [← Nat.two_pow_add_eq_or_of_lt (by omega)]; omega),
      UInt32.toNat_or, UInt32.toNat_or, h12, h7, show opLui.toNat = 0x37 from rfl]
    ac_rfl
  rw [hw]
  generalize (u % 2 ^ 20).toNat = n
  generalize hdef : 2 ^ 12 * n + (2 ^ 7 * rd + 0x37) = w
  have hopcode : w % 128 = 0x37 := by omega
  have hrdw : regField w 7 = reg rd := by
    rw [regField, reg, show w / 2 ^ 7 % 32 = rd by omega]
  simp only [decodeWord, hopcode, hrdw, show w / 2 ^ 12 = n by omega]

end Lui

section Halves

variable {rd imm5 lo : Nat} (hrd : rd < 32) (himm5 : imm5 < 2) (hlo : lo < 32)
include hrd himm5 hlo

theorem fields_rvcImm {op : UInt16} {f3 q : Nat} (hop : op.toNat = f3 * 2 ^ 13 + q) (hq : q < 4) :
    let w := (rvcImm op (.ofNat imm5) (.ofNat rd) (.ofNat lo)).toNat
    w % 4 = q ∧ w / 2 ^ 13 = f3 ∧ w / 2 ^ 12 % 2 = imm5 ∧ regField w 7 = reg rd ∧
      w / 2 ^ 2 % 32 = lo := by
  have hofNat {n : Nat} (hn : n < 32) : (UInt16.ofNat n).toNat = n := by
    rw [UInt16.toNat_ofNat']
    omega
  have himm5' : (UInt16.ofNat imm5).toNat = imm5 := hofNat (by omega)
  have hw := toNat_rvcImm hop hq (show (UInt16.ofNat imm5).toNat < 2 by omega)
    (show (UInt16.ofNat rd).toNat < 32 by rw [hofNat hrd]; exact hrd)
    (show (UInt16.ofNat lo).toNat < 32 by rw [hofNat hlo]; exact hlo)
  rw [hofNat hrd, hofNat hlo, himm5'] at hw
  generalize (rvcImm op (.ofNat imm5) (.ofNat rd) (.ofNat lo)).toNat = w at *
  refine ⟨by omega, by omega, by omega, ?_, by omega⟩
  rw [regField, reg, show w / 2 ^ 7 % 32 = rd by omega]

theorem decode_clui (h0 : rd ≠ 0) (h2 : rd ≠ 2) (himm : imm5 * 2 ^ 5 + lo ≠ 0) :
    decodeHalf (rvcImm opCLui (.ofNat imm5) (.ofNat rd) (.ofNat lo)).toNat =
      some (.lui (reg rd) (if imm5 = 0 then lo else lo + (2 ^ 20 - 2 ^ 5))) := by
  have hop : opCLui.toNat = 3 * 2 ^ 13 + 1 := rfl
  obtain ⟨hq, hf3, h12, h7, h2w⟩ := fields_rvcImm hrd himm5 hlo hop (by decide)
  generalize (rvcImm opCLui (.ofNat imm5) (.ofNat rd) (.ofNat lo)).toNat = w at *
  have hne2 : reg rd ≠ 2 := by
    intro he
    have hval : rd % 32 = 2 := congrArg Fin.val he
    omega
  simp only [decodeHalf, hq, hf3, h12, h7, h2w, ne_eq, reg_ne_zero hrd h0, hne2, himm,
    not_false_eq_true, and_self, if_true]
  congr 2
  split <;> split <;> omega

theorem decode_cslli (h0 : rd ≠ 0) :
    decodeHalf (rvcImm opCSlli (.ofNat imm5) (.ofNat rd) (.ofNat lo)).toNat =
      some (.shift .slli (reg rd) (reg rd) (imm5 * 2 ^ 5 + lo)) := by
  have hop : opCSlli.toNat = 0 * 2 ^ 13 + 2 := rfl
  obtain ⟨hq, hf3, h12, h7, h2⟩ := fields_rvcImm hrd himm5 hlo hop (by decide)
  simp only [decodeHalf, hq, hf3, h12, h7, h2, ne_eq, reg_ne_zero hrd h0, not_false_eq_true, if_true]

omit himm5 hlo in
theorem decode_cadd {rs : Nat} (hrs : rs < 32) (h0 : rd ≠ 0) (hrs0 : rs ≠ 0) :
    decodeHalf (rvc opCAdd (.ofNat rd) (.ofNat rs)).toNat =
      some (.alu .add (reg rd) (reg rd) (reg rs)) := by
  have hop : (0x8002 : UInt16).toNat = 4 * 2 ^ 13 + 2 := rfl
  have hword : rvc opCAdd (.ofNat rd) (.ofNat rs) =
      rvcImm 0x8002 (.ofNat 1) (.ofNat rd) (.ofNat rs) := rfl
  obtain ⟨hq, hf3, h12, h7, h2⟩ := fields_rvcImm hrd (show 1 < 2 by decide) hrs hop (by decide)
  rw [hword]
  generalize (rvcImm 0x8002 (.ofNat 1) (.ofNat rd) (.ofNat rs)).toNat = w at *
  have hrs2 : regField w 2 = reg rs := by rw [regField, h2, reg]
  simp only [decodeHalf, hq, hf3, h12, h7, hrs2, ne_eq, reg_ne_zero hrd h0, reg_ne_zero hrs hrs0,
    not_false_eq_true, and_self, if_true, one_ne_zero, if_false]

end Halves

section Instructions

@[simp] theorem bytes_word (w : UInt32) (op : Op) : (wordOf w op).bytes = emit32 w := rfl

@[simp] theorem bytes_half (w : UInt16) (op : Op) : (halfOf w op).bytes = emit16 w := rfl

/-- The word of an operation on registers. -/
def rtype (op : UInt32) (a : AluOp) (rd rs1 rs2 : Nat) : Instr :=
  wordOf (rvi op (.ofNat rd) (.ofNat rs1) (.ofNat rs2)) (.alu a (reg rd) (reg rs1) (reg rs2))

def shiftBy (op : UInt32) (a : ShiftOp) (rd rs1 count : Nat) : Instr :=
  wordOf (rvi op (.ofNat rd) (.ofNat rs1) (.ofNat count)) (.shift a (reg rd) (reg rs1) count)

def addi (rd rs1 : Nat) (imm : Int) : Instr :=
  wordOf (rvi opAddi (.ofNat rd) (.ofNat rs1) (.ofInt imm)) (.addi (reg rd) (reg rs1) imm)

def addiw (rd rs1 : Nat) (imm : Int) : Instr :=
  wordOf (rvi opAddiw (.ofNat rd) (.ofNat rs1) (.ofInt imm)) (.addiw (reg rd) (reg rs1) imm)

def ld (rd rs1 : Nat) (imm : Int) : Instr :=
  wordOf (rvi opLd (.ofNat rd) (.ofNat rs1) (.ofInt imm))
    (.ld (reg rd) (reg rs1) (signed 12 (imm % 2 ^ 12).toNat))

def lui (rd : Nat) (u : Int) : Instr :=
  wordOf (opLui ||| UInt32.ofInt u <<< 12 ||| UInt32.ofNat rd <<< 7) (.lui (reg rd) (u % 2 ^ 20).toNat)

def clui (rd : Nat) (u : Int) : Instr :=
  halfOf (rvcImm opCLui (if u < 0 then 1 else 0) (.ofNat rd) (.ofInt (u % 32)))
    (.lui (reg rd) (u % 2 ^ 20).toNat)

def cadd (rd rs : Nat) : Instr :=
  halfOf (rvc opCAdd (.ofNat rd) (.ofNat rs)) (.alu .add (reg rd) (reg rd) (reg rs))

def cslli (rd count : Nat) : Instr :=
  halfOf (rvcImm opCSlli (.ofNat (count / 32)) (.ofNat rd) (.ofNat (count % 32)))
    (.shift .slli (reg rd) (reg rd) count)

section Encodes

variable {rd rs1 : Nat} (hrd : rd < 32) (hrs1 : rs1 < 32)

include hrd hrs1 in
theorem encodes_rtype {rs2 : Nat} (hrs2 : rs2 < 32) {op : UInt32} {a : AluOp} (h : IsAlu op a) :
    processor.Encodes (rtype op a rd rs1 rs2).bytes (rtype op a rd rs1 rs2) :=
  encodes_word (decode_alu hrd hrs1 hrs2 h)

include hrd hrs1 in
theorem encodes_shiftBy {count : Nat} (hcount : count < 64) {op : UInt32} {a : ShiftOp}
    (h : IsShift op a) :
    processor.Encodes (shiftBy op a rd rs1 count).bytes (shiftBy op a rd rs1 count) :=
  encodes_word (decode_shift hrd hrs1 hcount h)

include hrd in
theorem encodes_lui (u : Int) : processor.Encodes (lui rd u).bytes (lui rd u) :=
  encodes_word (decode_lui hrd u)

include hrd in
theorem encodes_clui {u : Int} (h0 : rd ≠ 0) (h2 : rd ≠ 2) (hu : -32 ≤ u ∧ u ≤ 31) (hu0 : u ≠ 0) :
    processor.Encodes (clui rd u).bytes (clui rd u) := by
  refine encodes_half ?_
  have hlo : UInt16.ofInt (u % 32) = .ofNat (u % 32).toNat := by
    rw [UInt16.ofInt]
    congr 1
    omega
  have hnat : (u % 32).toNat < 32 := by omega
  rw [hlo]
  split
  · refine (decode_clui hrd (show 1 < 2 by decide) hnat h0 h2 (by omega)).trans ?_
    rw [if_neg (by decide)]
    congr 2
    omega
  · refine (decode_clui hrd (show 0 < 2 by decide) hnat h0 h2 (by omega)).trans ?_
    rw [if_pos rfl]
    congr 2
    omega

include hrd in
theorem encodes_cadd {rs : Nat} (hrs : rs < 32) (h0 : rd ≠ 0) (hrs0 : rs ≠ 0) :
    processor.Encodes (cadd rd rs).bytes (cadd rd rs) :=
  encodes_half (decode_cadd hrd hrs h0 hrs0)

include hrd in
theorem encodes_cslli {count : Nat} (hcount : count < 64) (h0 : rd ≠ 0) :
    processor.Encodes (cslli rd count).bytes (cslli rd count) := by
  refine encodes_half ((decode_cslli hrd (show count / 32 < 2 by omega)
    (show count % 32 < 32 by omega) h0).trans ?_)
  congr 2
  omega

variable {imm : Int} (himm : -2048 ≤ imm ∧ imm ≤ 2047)
include hrd hrs1 himm

theorem encodes_addi : processor.Encodes (addi rd rs1 imm).bytes (addi rd rs1 imm) :=
  encodes_word (decode_addi himm hrd hrs1)

theorem encodes_addiw : processor.Encodes (addiw rd rs1 imm).bytes (addiw rd rs1 imm) :=
  encodes_word (decode_addiw himm hrd hrs1)

omit himm in
theorem encodes_ld (imm : Int) : processor.Encodes (ld rd rs1 imm).bytes (ld rd rs1 imm) :=
  encodes_word (decode_ld hrd hrs1 imm)

end Encodes

end Instructions

end Decoding

end VeloxHash.JitCompilerRv64
