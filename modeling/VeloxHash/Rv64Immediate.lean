import VeloxHash.BytecodeMachine
import VeloxHash.Rv64Encoding

/-! The constants that the RV64 compiler puts together from an upper and a lower part. -/

namespace VeloxHash.JitCompilerRv64

open CodeBuffer EncodedMachine RiscVMachine BytecodeMachine WordArithmetic

section Immediates

variable (imm : UInt32)

/-- `(imm << 20) >> 20` of a signed integer. -/
def limm : Int := ((imm.toBitVec <<< 20).sshiftRight 20).toInt

/-- `(imm >> 12) + (limm < 0)`. -/
def uimm : Int := imm.toBitVec.toInt >>> (12 : Nat) + if limm imm < 0 then 1 else 0

/-- `emitImm32`: the register `dst` becomes `src` plus the immediate. -/
def emitImm32 (dst src tmp : Nat) : List UInt8 :=
  if uimm imm = 0 then
    emit32 (rvi opAddi (.ofNat dst) (.ofNat src) (.ofInt (limm imm)))
  else
    let dst1 := if src ≠ dst then dst else tmp
    let src1 := if src ≠ dst then src else dst1
    (if -32 ≤ uimm imm ∧ uimm imm ≤ 31 then
      emit16 (rvcImm opCLui (if uimm imm < 0 then 1 else 0) (.ofNat dst1)
        (.ofInt (uimm imm % 32)))
    else
      emit32 (opLui ||| UInt32.ofInt (uimm imm) <<< 12 ||| UInt32.ofNat dst1 <<< 7)) ++
    (if limm imm ≠ 0 then
      emit32 (rvi opAddiw (.ofNat dst1) (.ofNat dst1) (.ofInt (limm imm)))
    else []) ++
    (if src1 ≠ 0 then emit16 (rvc opCAdd (.ofNat dst) (.ofNat src1)) else [])

end Immediates

section Parts

theorem toInt_eq_signed (imm : UInt32) : imm.toBitVec.toInt = signed 32 imm.toNat := by
  unfold signed
  rw [BitVec.toInt_eq_toNat_cond]
  have := imm.toNat_lt
  change (if 2 * imm.toNat < 2 ^ 32 then (imm.toNat : Int) else imm.toNat - (2 ^ 32 : Nat)) = _
  split <;> split <;> omega

theorem limm_eq (imm : UInt32) : limm imm = signed 12 (imm.toNat % 2 ^ 12) := by
  unfold limm signed
  rw [BitVec.toInt_sshiftRight, BitVec.toInt_shiftLeft, Nat.shiftLeft_eq, Int.shiftRight_eq_div_pow]
  change Int.bmod ((imm.toNat * 2 ^ 20 : Nat) : Int) (2 ^ 32) / ((2 ^ 20 : Nat) : Int) = _
  rw [Int.bmod_def]
  split <;> split <;> omega

/-- The immediate from its rounded upper part and its signed lower part. -/
theorem imm_split (imm : UInt32) :
    signed 32 imm.toNat = uimm imm * 2 ^ 12 + limm imm ∧ -2048 ≤ limm imm ∧ limm imm ≤ 2047 ∧
      -2 ^ 19 ≤ uimm imm ∧ uimm imm ≤ 2 ^ 19 := by
  have hlt := imm.toNat_lt
  have hlimm := limm_eq imm
  unfold uimm
  rw [toInt_eq_signed, Int.shiftRight_eq_div_pow]
  generalize limm imm = l at *
  unfold signed at *
  split at hlimm <;> split <;> split <;> omega

theorem signExtend2sCompl_eq (imm : UInt32) :
    signExtend2sCompl imm = .ofInt (signed 32 imm.toNat) := by
  apply UInt64.toNat.inj
  change (imm.toBitVec.signExtend 64).toNat = _
  rw [BitVec.signExtend, BitVec.toNat_ofInt, toInt_eq_signed, UInt64.ofInt, UInt64.toNat_ofNat']
  omega

theorem toNat_ofInt64 (n : Int) : (UInt64.ofInt n).toNat = (n % 2 ^ 64).toNat := by
  rw [UInt64.ofInt, UInt64.toNat_ofNat']
  omega

/-- `addiw` adds before it extends. -/
theorem signExtendWord_add (n : Nat) (l : Int) :
    signExtendWord (signExtendWord n + .ofInt l).toNat = signExtendWord ((n + l) % 2 ^ 32).toNat := by
  have hmod : (signExtendWord n + .ofInt l).toNat % 2 ^ 32 = ((n + l) % 2 ^ 32).toNat % 2 ^ 32 := by
    rw [UInt64.toNat_add, signExtendWord, toNat_ofInt64, toNat_ofInt64]
    unfold signed
    split <;> omega
  change UInt64.ofInt (signed 32 ((signExtendWord n + .ofInt l).toNat % 2 ^ 32)) = _
  rw [hmod, signExtendWord]

/-- The upper part, moved up, and the lower part. -/
theorem parts_sum (imm : UInt32) :
    ((((uimm imm % 2 ^ 20).toNat * 2 ^ 12 : Nat) + limm imm) % 2 ^ 32).toNat = imm.toNat := by
  obtain ⟨hsum, hlow⟩ := imm_split imm
  have hlt := imm.toNat_lt
  generalize uimm imm = u at *
  generalize limm imm = l at *
  unfold signed at hsum
  split at hsum <;> omega

theorem signExtendWord_parts (imm : UInt32) :
    signExtendWord (signExtendWord ((uimm imm % 2 ^ 20).toNat * 2 ^ 12) + .ofInt (limm imm)).toNat =
      signExtend2sCompl imm := by
  have hlt := imm.toNat_lt
  rw [signExtendWord_add, parts_sum, signExtendWord, signExtend2sCompl_eq, Nat.mod_eq_of_lt hlt]

end Parts

section Code

/-- The instructions of `emitImm32`. -/
def immCode (imm : UInt32) (dst src tmp : Nat) : List Instr :=
  if uimm imm = 0 then [addi dst src (limm imm)]
  else
    let dst1 := if src ≠ dst then dst else tmp
    let src1 := if src ≠ dst then src else dst1
    (if -32 ≤ uimm imm ∧ uimm imm ≤ 31 then [clui dst1 (uimm imm)] else [lui dst1 (uimm imm)]) ++
      (if limm imm ≠ 0 then [addiw dst1 dst1 (limm imm)] else []) ++
      (if src1 ≠ 0 then [cadd dst src1] else [])

theorem emitImm32_eq (imm : UInt32) (dst src tmp : Nat) :
    emitImm32 imm dst src tmp = assemble Instr.bytes (immCode imm dst src tmp) := by
  unfold emitImm32 immCode
  dsimp only
  split
  · simp only [assemble_singleton, addi, bytes_word]
  · rw [assemble_append, assemble_append]
    refine congrArg₂ (· ++ ·) (congrArg₂ (· ++ ·) ?_ ?_) ?_
    · split <;> simp only [assemble_singleton, clui, lui, bytes_word, bytes_half]
    · split
      · simp only [assemble_singleton, addiw, bytes_word]
      · rfl
    · generalize (if src ≠ dst then src else _) = src1
      split
      · simp only [assemble_singleton, cadd, bytes_half]
      · rfl

/-- The registers that `emitImm32` can be called with. -/
structure ImmRegisters (dst src tmp : Nat) : Prop where
  dst_lt : dst < 32
  src_lt : src < 32
  dst_ne : dst ≠ 0 ∧ dst ≠ 2
  tmp_ne : src = dst → tmp < 32 ∧ tmp ≠ 0 ∧ tmp ≠ 2 ∧ tmp ≠ dst

variable {dst src tmp : Nat} (h : ImmRegisters dst src tmp) (imm : UInt32)
include h

theorem immCode_encodes : ∀ i ∈ immCode imm dst src tmp, processor.Encodes i.bytes i := by
  obtain ⟨hdst, hsrc, ⟨h0, h2⟩, htmp⟩ := h
  obtain ⟨-, hlow⟩ := imm_split imm
  have hl : -2048 ≤ limm imm ∧ limm imm ≤ 2047 := by omega
  unfold immCode
  dsimp only
  by_cases hu : uimm imm = 0
  · rw [if_pos hu]
    simp only [List.mem_singleton, forall_eq]
    exact encodes_addi hdst hsrc hl
  · rw [if_neg hu]
    have hdst1 : (if src ≠ dst then dst else tmp) < 32 ∧ (if src ≠ dst then dst else tmp) ≠ 0 ∧
        (if src ≠ dst then dst else tmp) ≠ 2 := by
      split
      · exact ⟨hdst, h0, h2⟩
      · obtain ⟨hlt, hne0, hne2, _⟩ := htmp (by omega)
        exact ⟨hlt, hne0, hne2⟩
    have hsrc1 : (if src ≠ dst then src else if src ≠ dst then dst else tmp) < 32 := by
      split
      · exact hsrc
      · exact (htmp (by omega)).1
    generalize (if src ≠ dst then src else if src ≠ dst then dst else tmp) = src1 at *
    generalize (if src ≠ dst then dst else tmp) = dst1 at *
    intro i hi
    simp only [List.mem_append] at hi
    obtain (hi | hi) | hi := hi
    · split at hi
      · rename_i hrange
        rw [List.mem_singleton.mp hi]
        exact encodes_clui hdst1.1 hdst1.2.1 hdst1.2.2 hrange hu
      · rw [List.mem_singleton.mp hi]
        exact encodes_lui hdst1.1 _
    · split at hi
      · rw [List.mem_singleton.mp hi]
        exact encodes_addiw hdst1.1 hdst1.1 hl
      · exact absurd hi (by simp)
    · split at hi
      · rename_i hne
        rw [List.mem_singleton.mp hi]
        exact encodes_cadd hdst hsrc1 h0 hne
      · exact absurd hi (by simp)

end Code

section Run

variable (imm : UInt32)

theorem signExtendWord_idem (n : Nat) : signExtendWord (signExtendWord n).toNat = signExtendWord n := by
  have h := signExtendWord_add n 0
  rw [show UInt64.ofInt 0 = 0 from rfl, UInt64.add_zero] at h
  have hmod : (((n : Int) + 0) % 2 ^ 32).toNat % 2 ^ 32 = n % 2 ^ 32 := by omega
  rw [h, signExtendWord, signExtendWord, hmod]

/-- The instructions that load the constant. -/
def loadCode (dst : Nat) : List Instr :=
  (if -32 ≤ uimm imm ∧ uimm imm ≤ 31 then [clui dst (uimm imm)] else [lui dst (uimm imm)]) ++
    if limm imm ≠ 0 then [addiw dst dst (limm imm)] else []

theorem load_run {dst : Nat} (hdst : dst < 32) (h0 : dst ≠ 0) (s : State) :
    let t := block processor Instr.bytes (loadCode imm dst) s
    t.x (reg dst) = signExtend2sCompl imm ∧ Keeps [reg dst] s t := by
  have hupper : ∀ i, i.op = .lui (reg dst) (uimm imm % 2 ^ 20).toNat →
      let t := processor.exec i i.bytes.length s
      t.x (reg dst) = signExtendWord ((uimm imm % 2 ^ 20).toNat * 2 ^ 12) ∧ Keeps [reg dst] s t := by
    intro i hi
    simp only [processor, hi, Op.apply]
    exact ⟨Function.update_self .., keeps_set _ s (by simp) _ _⟩
  have hfirst : ∃ i : Instr, i.op = .lui (reg dst) (uimm imm % 2 ^ 20).toNat ∧
      (if -32 ≤ uimm imm ∧ uimm imm ≤ 31 then [clui dst (uimm imm)] else [lui dst (uimm imm)]) =
        [i] := by
    split
    · exact ⟨_, rfl, rfl⟩
    · exact ⟨_, rfl, rfl⟩
  obtain ⟨i, hop, hi⟩ := hfirst
  obtain ⟨hx, hkeeps⟩ := hupper i hop
  rw [loadCode, hi, List.singleton_append, block_cons]
  generalize processor.exec i i.bytes.length s = u at *
  have hparts := signExtendWord_parts imm
  by_cases hl : limm imm = 0
  · rw [if_neg (not_not.mpr hl)]
    refine ⟨?_, hkeeps⟩
    rw [hl, show UInt64.ofInt 0 = 0 from rfl, UInt64.add_zero, signExtendWord_idem] at hparts
    exact hx.trans hparts
  · rw [if_pos hl]
    refine ⟨?_, hkeeps.trans (keeps_set _ u (by simp) _ _)⟩
    refine (Function.update_self ..).trans ?_
    rw [State.get_of_ne_zero _ (reg_ne_zero hdst h0), hx]
    exact hparts

theorem reg_injective {m n : Nat} (hm : m < 32) (hn : n < 32) (h : reg m = reg n) : m = n := by
  have hval : m % 32 = n % 32 := congrArg Fin.val h
  omega

/-- `x{dst} = x{src} + imm`. -/
theorem imm_run {dst src tmp : Nat} (h : ImmRegisters dst src tmp) (s : State) :
    let t := block processor Instr.bytes (immCode imm dst src tmp) s
    t.x (reg dst) = s.get (reg src) + signExtend2sCompl imm ∧ Keeps [reg dst, reg tmp] s t := by
  obtain ⟨hdst, hsrc, ⟨h0, h2⟩, htmp⟩ := h
  obtain ⟨hsum, hlow⟩ := imm_split imm
  unfold immCode
  dsimp only
  by_cases hu : uimm imm = 0
  · rw [if_pos hu]
    refine ⟨(Function.update_self ..).trans ?_, keeps_set _ s (by simp) _ _⟩
    rw [signExtend2sCompl_eq, hsum, hu, Int.zero_mul, Int.zero_add]
  · rw [if_neg hu]
    by_cases hsd : src = dst
    · obtain ⟨hlt, hne0, -, hne⟩ := htmp hsd
      rw [if_neg (not_not.mpr hsd), if_neg (not_not.mpr hsd), if_pos hne0]
      obtain ⟨hx, hkeeps⟩ := load_run imm hlt hne0 s
      rw [loadCode] at hx hkeeps
      rw [block_append]
      generalize block processor Instr.bytes _ s = u at *
      refine ⟨(Function.update_self ..).trans ?_,
        (hkeeps.mono (by simp)).trans (keeps_set _ u (by simp) _ _)⟩
      have hr : reg dst ∉ [reg tmp] := by
        simp only [List.mem_singleton]
        exact fun he => hne (reg_injective hdst hlt he).symm
      rw [State.get_of_ne_zero _ (reg_ne_zero hdst h0), State.get_of_ne_zero _ (reg_ne_zero hlt hne0),
        hx, hkeeps.x _ hr, hsd, State.get_of_ne_zero _ (reg_ne_zero hdst h0)]
      rfl
    · rw [if_pos hsd, if_pos hsd]
      obtain ⟨hx, hkeeps⟩ := load_run imm hdst h0 s
      rw [loadCode] at hx hkeeps
      rw [block_append]
      generalize block processor Instr.bytes _ s = u at *
      by_cases hs0 : src = 0
      · rw [if_neg (not_not.mpr hs0)]
        refine ⟨hx.trans ?_, hkeeps.mono (by simp)⟩
        rw [hs0]
        exact (UInt64.zero_add _).symm
      · rw [if_pos hs0]
        refine ⟨(Function.update_self ..).trans ?_,
          (hkeeps.mono (by simp)).trans (keeps_set _ u (by simp) _ _)⟩
        have hr : reg src ∉ [reg dst] := by
          simp only [List.mem_singleton]
          exact fun he => hsd (reg_injective hsrc hdst he)
        rw [State.get_of_ne_zero _ (reg_ne_zero hdst h0), State.get_of_ne_zero _ (reg_ne_zero hsrc hs0),
          hx, hkeeps.x _ hr, State.get_of_ne_zero _ (reg_ne_zero hsrc hs0)]
        exact UInt64.add_comm _ _

end Run

end VeloxHash.JitCompilerRv64
