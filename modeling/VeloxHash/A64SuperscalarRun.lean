import VeloxHash.A64SuperscalarWords

/-! What the emitted words compute: each instruction what the interpreter does, with its literal
from the pool in front, and a program the interpreter's registers. -/

namespace VeloxHash.JitCompilerA64

open CodeBuffer Randomx BytecodeMachine Superscalar EncodedMachine A64Machine WordArithmetic

def xOf (r : Fin 8) : Register := r.castAdd 24

def scalars (s : State) : Registers := fun i => s.x (xOf i)

section Operations

def movOps (rd : Register) (imm : UInt32) : List Op :=
  if imm < 0x10000 then [.wide .movz rd imm.toNat 0]
  else
    [if isNegative imm then .wide .movn rd (~~~imm >>> 16).toNat 16
      else .wide .movz rd (imm >>> 16).toNat 16,
      .wide .movk rd (imm &&& 0xFFFF).toNat 0]

def addOps (dst : Fin 8) (imm : UInt32) : List Op :=
  if imm < 0x1000000 then
    if imm &&& 0xFFF ≠ 0 ∧ imm >>> 12 ≠ 0 then
      [.addImm (xOf dst) (xOf dst) (imm &&& 0xFFF).toNat,
        .addImm (xOf dst) (xOf dst) ((imm >>> 12).toNat * 2 ^ 12)]
    else if imm &&& 0xFFF ≠ 0 then [.addImm (xOf dst) (xOf dst) (imm &&& 0xFFF).toNat]
    else [.addImm (xOf dst) (xOf dst) ((imm >>> 12).toNat * 2 ^ 12)]
  else movOps 20 imm ++ [.register .add (xOf dst) (xOf dst) 20 0]

def instrOps (distance : Nat) (instr : Instruction) : SuperscalarInstructionType → List Op
  | .isubR => [.register .sub (xOf instr.dst) (xOf instr.dst) (xOf instr.src) 0]
  | .ixorR => [.register .eor (xOf instr.dst) (xOf instr.dst) (xOf instr.src) 0]
  | .iaddRs =>
    [.register .add (xOf instr.dst) (xOf instr.dst) (xOf instr.src) instr.getModShift]
  | .imulR => [.madd (xOf instr.dst) (xOf instr.dst) (xOf instr.src) 31]
  | .irorC => [.extr (xOf instr.dst) (xOf instr.dst) (xOf instr.dst) (instr.imm32 &&& 63).toNat]
  | .iaddC7 | .iaddC8 | .iaddC9 => addOps instr.dst instr.imm32
  | .ixorC7 | .ixorC8 | .ixorC9 =>
    movOps 12 instr.imm32 ++ [.register .eor (xOf instr.dst) (xOf instr.dst) 12 0]
  | .imulhR => [.high .umulh (xOf instr.dst) (xOf instr.dst) (xOf instr.src)]
  | .ismulhR => [.high .smulh (xOf instr.dst) (xOf instr.dst) (xOf instr.src)]
  | .imulRcp =>
    [.ldrLiteral 12 (signed 19 (literalOffset distance).toNat * 4),
      .madd (xOf instr.dst) (xOf instr.dst) 12 31]

variable {w w' : UInt32} {op op' : Op}

theorem stands_one (h : decodeWord w.toNat = some op) (hop : op.Plain) : Stands [w] [op] :=
  ⟨congrArg (fun x => [x]) h, fun _ hmem => List.mem_singleton.mp hmem ▸ hop⟩

theorem stands_two (h : decodeWord w.toNat = some op) (hop : op.Plain)
    (h' : decodeWord w'.toNat = some op') (hop' : op'.Plain) : Stands [w, w'] [op, op'] :=
  (stands_one h hop).append (stands_one h' hop')

theorem movWords_stand (rd : Register) (imm : UInt32) :
    Stands (movWords (.ofNat rd) imm) (movOps rd imm) := by
  have hlt := imm.toNat_lt
  have hhigh : (imm >>> 16).toNat < 2 ^ 16 := by
    rw [UInt32.toNat_shiftRight, Nat.shiftRight_eq_div_pow]
    change imm.toNat / 2 ^ 16 < 2 ^ 16
    omega
  have hnot : (~~~imm >>> 16).toNat < 2 ^ 16 := by
    have hlt := (~~~imm).toNat_lt
    rw [UInt32.toNat_shiftRight, Nat.shiftRight_eq_div_pow]
    change (~~~imm).toNat / 2 ^ 16 < 2 ^ 16
    omega
  have hlow : (imm &&& 0xFFFF).toNat < 2 ^ 16 := by
    rw [UInt32.toNat_and]
    exact Nat.and_le_right.trans_lt (by decide)
  unfold movWords movOps
  split
  · exact stands_one (movz_decode rd (UInt32.lt_iff_toNat_lt.mp ‹_›)) trivial
  · cases isNegative imm
    · exact stands_two (movzHigh_decode rd hhigh) trivial (movk_decode rd hlow) trivial
    · exact stands_two (movnHigh_decode rd hnot) trivial (movk_decode rd hlow) trivial

theorem addWords_stand (dst : Fin 8) (imm : UInt32) :
    Stands (addWords (.ofNat dst) (.ofNat dst) imm) (addOps dst imm) := by
  have hlow : (imm &&& 0xFFF).toNat < 2 ^ 12 := by
    rw [UInt32.toNat_and]
    exact Nat.and_le_right.trans_lt (by decide)
  unfold addWords addOps
  split
  · rename_i hsmall
    have hlt := UInt32.lt_iff_toNat_lt.mp hsmall
    have hhigh : (imm >>> 12).toNat < 2 ^ 12 := by
      rw [UInt32.toNat_shiftRight, Nat.shiftRight_eq_div_pow]
      change imm.toNat < 2 ^ 24 at hlt
      change imm.toNat / 2 ^ 12 < 2 ^ 12
      omega
    obtain ⟨hlo, -⟩ := addImm_decode dst hlow
    obtain ⟨-, hhi⟩ := addImm_decode dst hhigh
    split
    · exact stands_two hlo trivial hhi trivial
    · split
      · exact stands_one hlo trivial
      · exact stands_one hhi trivial
  · exact (movWords_stand 20 imm).append (stands_one (constant_decode dst).1 trivial)

theorem instrWords_stand (distance : Nat) {instr : Instruction} {type : SuperscalarInstructionType}
    (htype : superscalarType instr = some type) :
    Stands (instrWords distance instr) (instrOps distance instr type) := by
  obtain ⟨hsub, heor, hmul, humulh, hsmulh⟩ := register_decode instr.dst instr.src
  obtain ⟨-, heorTmp, hmulTmp⟩ := constant_decode instr.dst
  unfold instrWords
  rw [htype]
  cases type with
  | isubR => exact stands_one hsub trivial
  | ixorR => exact stands_one heor trivial
  | imulR => exact stands_one hmul trivial
  | imulhR => exact stands_one humulh trivial
  | ismulhR => exact stands_one hsmulh trivial
  | iaddRs =>
    exact stands_one (addShifted_decode instr.dst instr.src
      ⟨instr.getModShift, Nat.mod_lt _ (by decide)⟩) trivial
  | irorC =>
    have hcount : (instr.imm32 &&& 63).toNat < 64 := by
      rw [UInt32.toNat_and]
      exact Nat.and_le_right.trans_lt (by decide)
    have hror := ror_decode instr.dst ⟨(instr.imm32 &&& 63).toNat, hcount⟩
    rw [UInt32.ofNat_toNat] at hror
    exact stands_one hror trivial
  | iaddC7 | iaddC8 | iaddC9 => exact addWords_stand instr.dst instr.imm32
  | ixorC7 | ixorC8 | ixorC9 => exact (movWords_stand 12 instr.imm32).append (stands_one heorTmp trivial)
  | imulRcp =>
    have hoffset : (literalOffset distance).toNat < 2 ^ 19 := by
      unfold literalOffset
      rw [UInt32.toNat_and]
      exact Nat.and_le_right.trans_lt (by decide)
    exact stands_two (ldrLiteral_decode hoffset) trivial hmulTmp trivial

end Operations

section Values

variable (imm : UInt32)

theorem isNegative_eq : isNegative imm = decide (2 ^ 31 ≤ imm.toNat) := BitVec.msb_eq_decide _

theorem toNat_signExtend2sCompl :
    (signExtend2sCompl imm).toNat = imm.toNat + if 2 ^ 31 ≤ imm.toNat then 2 ^ 64 - 2 ^ 32 else 0 := by
  have hlt := imm.toNat_lt
  change (imm.toBitVec.signExtend 64).toNat = _
  rw [BitVec.toNat_signExtend, show imm.toBitVec.msb = decide (2 ^ 31 ≤ imm.toNat) from
    isNegative_eq imm, BitVec.toNat_setWidth]
  change imm.toNat % 2 ^ 64 + _ = _
  rw [Nat.mod_eq_of_lt (by omega)]
  simp only [decide_eq_true_eq]

theorem toNat_low16 : (imm &&& 0xFFFF).toNat = imm.toNat % 2 ^ 16 := by
  rw [UInt32.toNat_and]
  exact Nat.and_two_pow_sub_one_eq_mod imm.toNat 16

theorem toNat_high16 : (imm >>> 16).toNat = imm.toNat / 2 ^ 16 := by
  rw [UInt32.toNat_shiftRight, Nat.shiftRight_eq_div_pow]
  rfl

theorem toNat_low12 : (imm &&& 0xFFF).toNat = imm.toNat % 2 ^ 12 := by
  rw [UInt32.toNat_and]
  exact Nat.and_two_pow_sub_one_eq_mod imm.toNat 12

theorem toNat_high12 : (imm >>> 12).toNat = imm.toNat / 2 ^ 12 := by
  rw [UInt32.toNat_shiftRight, Nat.shiftRight_eq_div_pow]
  rfl

/-- The upper half first, which extends the sign, then the lower half. -/
theorem movk_value :
    WideOp.apply (imm &&& 0xFFFF).toNat 0
      (if isNegative imm then WideOp.apply (~~~imm >>> 16).toNat 16 0 .movn
        else WideOp.apply (imm >>> 16).toNat 16 0 .movz) .movk = signExtend2sCompl imm := by
  have hlt := imm.toNat_lt
  apply UInt64.toNat.inj
  rw [toNat_signExtend2sCompl, isNegative_eq]
  by_cases hneg : 2 ^ 31 ≤ imm.toNat
  · rw [decide_eq_true hneg, if_pos rfl, if_pos hneg]
    simp only [WideOp.apply, toNat_low16, toNat_high16, UInt64.toNat_ofNat', UInt64.toNat_not,
      UInt32.toNat_not]
    have hsize32 : UInt32.size = 2 ^ 32 := rfl
    have hsize64 : UInt64.size = 2 ^ 64 := rfl
    rw [hsize32, hsize64]
    omega
  · rw [decide_eq_false hneg, if_neg (by decide), if_neg hneg]
    simp only [WideOp.apply, toNat_low16, toNat_high16, UInt64.toNat_ofNat']
    omega

theorem movz_value (h : imm < 0x10000) :
    WideOp.apply imm.toNat 0 0 .movz = signExtend2sCompl imm := by
  have hlt : imm.toNat < 2 ^ 16 := UInt32.lt_iff_toNat_lt.mp h
  apply UInt64.toNat.inj
  rw [toNat_signExtend2sCompl, if_neg (by omega)]
  simp only [WideOp.apply, UInt64.toNat_ofNat']
  omega

theorem addImm_value (h : imm < 0x1000000) :
    UInt64.ofNat (imm &&& 0xFFF).toNat + UInt64.ofNat ((imm >>> 12).toNat * 2 ^ 12) =
      signExtend2sCompl imm := by
  have hlt : imm.toNat < 2 ^ 24 := UInt32.lt_iff_toNat_lt.mp h
  apply UInt64.toNat.inj
  rw [toNat_signExtend2sCompl, if_neg (by omega), UInt64.toNat_add, UInt64.toNat_ofNat',
    UInt64.toNat_ofNat', toNat_low12, toNat_high12]
  omega

theorem extract_self (a : UInt64) {n : Nat} (hn : n < 64) : extract a a n = rotr64 a n := by
  have ha := a.toNat_lt
  apply UInt64.toNat.inj
  change (UInt64.ofNat _).toNat = (a.toBitVec.rotateRight n).toNat
  rw [BitVec.toNat_rotateRight, Nat.mod_eq_of_lt hn, UInt64.toNat_ofNat', Nat.shiftRight_eq_div_pow,
    Nat.shiftLeft_eq, UInt64.toNat_toBitVec]
  generalize a.toNat = x at ha ⊢
  obtain ⟨d, hd⟩ : ∃ d, 64 = n + d := ⟨64 - n, by omega⟩
  have hpow : 2 ^ 64 = 2 ^ n * 2 ^ d := by rw [← pow_add, ← hd]
  rw [show 64 - n = d by omega]
  have hquotient : x / 2 ^ n < 2 ^ d := by
    rw [Nat.div_lt_iff_lt_mul (by positivity), Nat.mul_comm, ← hpow]
    exact ha
  have hshift : x * 2 ^ d % 2 ^ 64 = x % 2 ^ n * 2 ^ d := by rw [hpow, Nat.mul_mod_mul_right]
  have hsum : (x * 2 ^ 64 + x) / 2 ^ n = x * 2 ^ d + x / 2 ^ n := by
    rw [hpow, Nat.mul_left_comm, Nat.mul_comm, Nat.add_comm,
      Nat.add_mul_div_right _ _ (by positivity), Nat.add_comm]
  have hlow : x % 2 ^ n * 2 ^ d + x / 2 ^ n < 2 ^ 64 := by
    have hmod : x % 2 ^ n + 1 ≤ 2 ^ n := Nat.mod_lt _ (by positivity)
    calc x % 2 ^ n * 2 ^ d + x / 2 ^ n < x % 2 ^ n * 2 ^ d + 2 ^ d := Nat.add_lt_add_left hquotient _
      _ = (x % 2 ^ n + 1) * 2 ^ d := (Nat.succ_mul ..).symm
      _ ≤ 2 ^ n * 2 ^ d := Nat.mul_le_mul_right _ hmod
      _ = 2 ^ 64 := hpow.symm
  rw [hsum, ← Nat.mod_add_mod, hshift, Nat.mod_eq_of_lt hlow, Nat.mul_comm,
    Nat.two_pow_add_eq_or_of_lt hquotient, Nat.or_comm]

end Values

section Execution

variable (s : State)

theorem get_xOf (r : Fin 8) : s.get (xOf r) = scalars s r := if_neg (by revert r; decide)

theorem getSp_xOf (r : Fin 8) : s.getSp (xOf r) = scalars s r := if_neg (by revert r; decide)

/-- A register for constants. -/
theorem movOps_run {rd : Register} (hrd : rd ≠ 31) (imm : UInt32) :
    runOps (movOps rd imm) s =
      { s.set rd (signExtend2sCompl imm) with pc := s.pc + 4 * (movOps rd imm).length } := by
  unfold movOps
  by_cases hsmall : imm < 0x10000
  · rw [if_pos hsmall, ← movz_value imm hsmall]
    rfl
  · rw [if_neg hsmall, ← movk_value imm]
    cases isNegative imm <;>
      simp only [runOps, List.foldl_cons, List.foldl_nil, Op.apply, State.set, State.get, if_neg hrd,
        Function.update_self, Function.update_idem, Bool.false_eq_true, if_true, if_false,
        List.length_cons, List.length_nil, Nat.add_assoc] <;> rfl

/-- What an instruction leaves of the other registers. -/
structure Kept (s t : State) : Prop where
  x : ∀ r : Register, 8 ≤ r.val → r ≠ 12 → r ≠ 20 → t.x r = s.x r
  sp : t.sp = s.sp

theorem Kept.refl : Kept s s := ⟨fun _ _ _ _ => rfl, rfl⟩

theorem Kept.trans {s t u : State} (h : Kept s t) (k : Kept t u) : Kept s u :=
  ⟨fun r hr h12 h20 => (k.x r hr h12 h20).trans (h.x r hr h12 h20), k.sp.trans h.sp⟩

variable (d : Fin 8) (a : UInt64) (n : Nat)

theorem xOf_ne (d : Fin 8) : xOf d ≠ 31 := by revert d; decide

theorem scalars_set : scalars { s.set (xOf d) a with pc := n } = Function.update (scalars s) d a := by
  unfold State.set
  rw [if_neg (xOf_ne d)]
  exact Function.update_comp_eq_of_injective s.x (Fin.castAdd_injective 8 24) d a

theorem kept_set : Kept s { s.set (xOf d) a with pc := n } := by
  unfold State.set
  rw [if_neg (xOf_ne d)]
  refine ⟨fun r hr _ _ => Function.update_of_ne ?_ _ _, rfl⟩
  rintro rfl
  exact absurd d.isLt (Nat.not_lt.mpr hr)

/-- A register for constants is none of the program's. -/
theorem scalars_setTmp {rd : Register} (hrd : 8 ≤ rd.val) :
    scalars { s.set rd a with pc := n } = scalars s := by
  unfold State.set
  split
  · rfl
  · funext i
    refine Function.update_of_ne ?_ _ _
    rintro rfl
    exact absurd i.isLt (Nat.not_lt.mpr hrd)

theorem kept_setTmp {rd : Register} (hrd : rd = 12 ∨ rd = 20) :
    Kept s { s.set rd a with pc := n } := by
  unfold State.set
  split
  · exact ⟨fun _ _ _ _ => rfl, rfl⟩
  · refine ⟨fun r _ h12 h20 => Function.update_of_ne ?_ _ _, rfl⟩
    rcases hrd with rfl | rfl
    · exact h12
    · exact h20

/-- What an instruction does with the registers. -/
structure Executed (instr : Instruction) (s t : State) : Prop where
  scalars_eq : scalars t = executeInstruction (scalars s) instr
  kept : Kept s t

variable {instr : Instruction} {type : SuperscalarInstructionType}

theorem executed_set (htype : superscalarType instr = some type)
    (ha : a = superscalarResult instr (scalars s instr.dst) (scalars s instr.src) type) :
    Executed instr s { s.set (xOf instr.dst) a with pc := n } :=
  ⟨by rw [scalars_set, executeInstruction_eq htype, ha], kept_set s instr.dst a n⟩

/-- An operation with a constant that is in its register. -/
theorem executed_constant {rd : Register} (hrd : rd = 12 ∨ rd = 20) (v : UInt64) (m : Nat)
    (htype : superscalarType instr = some type)
    (ha : a = superscalarResult instr (scalars s instr.dst) (scalars s instr.src) type) :
    Executed instr s { ({ s.set rd v with pc := m } : State).set (xOf instr.dst) a with pc := n } := by
  have hscalars : scalars { s.set rd v with pc := m } = scalars s :=
    scalars_setTmp s v m (by rcases hrd with rfl | rfl <;> decide)
  refine ⟨?_, (kept_setTmp s v m hrd).trans (kept_set _ instr.dst a n)⟩
  rw [scalars_set, executeInstruction_eq htype, ha, hscalars]

theorem setSp_xOf : s.setSp (xOf d) a = s.set (xOf d) a := by
  unfold State.setSp State.set
  rw [if_neg (xOf_ne d), if_neg (xOf_ne d)]

theorem addImm_apply (imm : Nat) :
    (Op.addImm (xOf d) (xOf d) imm).apply 4 s =
      { s.set (xOf d) (scalars s d + .ofNat imm) with pc := s.pc + 4 } := by
  rw [Op.apply, getSp_xOf, setSp_xOf]

theorem set_set {r : Register} (hr : r ≠ 31) (m : Nat) (v : UInt64) :
    { ({ s.set r v with pc := m } : State).set r a with pc := n } = { s.set r a with pc := n } := by
  unfold State.set
  rw [if_neg hr, if_neg hr, if_neg hr]
  dsimp only
  rw [Function.update_idem]

theorem get_set {r : Register} (hr : r ≠ 31) (v : UInt64) (m : Nat) :
    ({ s.set r v with pc := m } : State).get r = v := by
  unfold State.set State.get
  rw [if_neg hr, if_neg hr]
  exact Function.update_self ..

theorem shiftLeft_zero (v : UInt64) : v <<< UInt64.ofNat 0 = v := UInt64.shiftLeft_zero

theorem addOps_executed (htype : superscalarType instr = some type)
    (hadd : superscalarResult instr (scalars s instr.dst) (scalars s instr.src) type =
      scalars s instr.dst + signExtend2sCompl instr.imm32) :
    Executed instr s (runOps (addOps instr.dst instr.imm32) s) := by
  unfold addOps
  by_cases hsmall : instr.imm32 < 0x1000000
  · have hvalue := addImm_value instr.imm32 hsmall
    rw [if_pos hsmall]
    by_cases hlow : instr.imm32 &&& 0xFFF = 0
    · rw [if_neg fun h => h.1 hlow, if_neg (not_not_intro hlow)]
      rw [hlow] at hvalue
      change Executed instr s ((Op.addImm ..).apply 4 s)
      rw [addImm_apply]
      refine executed_set s _ _ htype ?_
      rw [hadd, ← hvalue, show UInt64.ofNat (0 : UInt32).toNat = 0 from rfl, UInt64.zero_add]
    · by_cases hhigh : instr.imm32 >>> 12 = 0
      · rw [if_neg fun h => h.2 hhigh, if_pos hlow]
        rw [hhigh] at hvalue
        change Executed instr s ((Op.addImm ..).apply 4 s)
        rw [addImm_apply]
        refine executed_set s _ _ htype ?_
        rw [hadd, ← hvalue, show UInt64.ofNat ((0 : UInt32).toNat * 2 ^ 12) = 0 from rfl,
          UInt64.add_zero]
      · rw [if_pos ⟨hlow, hhigh⟩]
        change Executed instr s ((Op.addImm ..).apply 4 ((Op.addImm ..).apply 4 s))
        rw [addImm_apply, addImm_apply, set_set s _ _ (xOf_ne instr.dst), scalars_set,
          Function.update_self]
        exact executed_set s _ _ htype (by rw [hadd, ← hvalue, UInt64.add_assoc])
  · rw [if_neg hsmall]
    change Executed instr s (((movOps 20 instr.imm32) ++ _).foldl _ s)
    rw [List.foldl_append]
    change Executed instr s ((Op.register ..).apply 4 (runOps (movOps 20 instr.imm32) s))
    rw [movOps_run s (by decide)]
    refine executed_constant s _ _ (.inr rfl) _ _ htype ?_
    rw [hadd, get_xOf, scalars_setTmp s _ _ (by decide), get_set s (by decide), shiftLeft_zero]
    rfl

/-- The operations do what the interpreter does, if the load finds the reciprocal. -/
theorem instrOps_executed (hvalid : Superscalar.Valid instr) (htype : superscalarType instr = some type)
    {distance : Nat} (hliteral : type = .imulRcp →
      s.load (s.target (signed 19 (literalOffset distance).toNat * 4)) =
        randomxReciprocal instr.imm32) :
    Executed instr s (runOps (instrOps distance instr type) s) := by
  cases type with
  | isubR | ixorR =>
    refine executed_set s _ _ htype ?_
    rw [get_xOf, get_xOf, shiftLeft_zero]
    rfl
  | iaddRs =>
    refine executed_set s _ _ htype ?_
    rw [get_xOf, get_xOf]
    rfl
  | imulR =>
    refine executed_set s _ _ htype ?_
    rw [get_xOf, get_xOf]
    exact UInt64.zero_add _
  | imulhR | ismulhR =>
    refine executed_set s _ _ htype ?_
    rw [get_xOf, get_xOf]
    rfl
  | irorC =>
    obtain ⟨-, hcount⟩ := hvalid.irorC htype
    have hcount' : (instr.imm32 &&& 63).toNat = instr.imm32.toNat := by
      rw [UInt32.toNat_and]
      exact (Nat.and_two_pow_sub_one_eq_mod instr.imm32.toNat 6).trans (Nat.mod_eq_of_lt (by omega))
    refine executed_set s _ _ htype ?_
    rw [get_xOf, hcount', extract_self _ (by omega)]
    rfl
  | iaddC7 | iaddC8 | iaddC9 => exact addOps_executed s htype rfl
  | ixorC7 | ixorC8 | ixorC9 =>
    change Executed instr s (((movOps 12 instr.imm32) ++ _).foldl _ s)
    rw [List.foldl_append]
    change Executed instr s ((Op.register ..).apply 4 (runOps (movOps 12 instr.imm32) s))
    rw [movOps_run s (by decide)]
    refine executed_constant s _ _ (.inl rfl) _ _ htype ?_
    rw [get_xOf, scalars_setTmp s _ _ (by decide), get_set s (by decide), shiftLeft_zero]
    rfl
  | imulRcp =>
    change Executed instr s ((Op.madd ..).apply 4 { s.set 12 (s.load (s.target
      (signed 19 (literalOffset distance).toNat * 4))) with pc := s.pc + 4 })
    refine executed_constant s _ _ (.inl rfl) _ _ htype ?_
    rw [get_xOf, scalars_setTmp s _ _ (by decide), get_set s (by decide), hliteral rfl]
    exact UInt64.zero_add _

end Execution

section Programs

variable {instr : Instruction} {prog : List Instruction} {s : State}

/-- The offset of a load leads back to its literal. -/
theorem target_literal {distance : Nat} (hpos : 0 < distance) (hbound : distance ≤ 2 ^ 20)
    (hword : distance % 4 = 0) (hpc : distance ≤ s.pc) :
    s.target (signed 19 (literalOffset distance).toNat * 4) = s.pc - distance := by
  have hoffset : (literalOffset distance).toNat = 2 ^ 19 - distance / 4 := by
    unfold literalOffset
    rw [UInt32.toNat_and, UInt32.toNat_div, UInt32.toNat_sub, UInt32.toNat_ofNat', UInt32.toNat_zero]
    refine (Nat.and_two_pow_sub_one_eq_mod _ 19).trans ?_
    change (2 ^ 32 - distance % 2 ^ 32 + 0) % 2 ^ 32 / 4 % 2 ^ 19 = _
    omega
  unfold State.target signed
  rw [hoffset, if_neg (by omega)]
  omega

/-- The processor's next instruction loads a literal from an address. -/
def LoadsFrom (s : State) (address : Nat) (value : UInt64) : Prop :=
  ∃ w offset, processor.decode (read s.memory s.pc 4) = some (w, 4) ∧
    decodeWord w.toNat = some (.ldrLiteral 12 offset) ∧ s.target offset = address ∧
    read s.memory address 8 = le value.toNat 8

/-- The rest of a program lies at the program counter, its literals so far in front of it. -/
structure Embedded (distance : Nat) (prog : List Instruction) (s : State) : Prop where
  code : read s.memory s.pc (assemble encode (bodyWords distance prog)).length =
    assemble encode (bodyWords distance prog)
  pool : read s.memory (s.pc - distance) (poolBytes prog).length = poolBytes prog
  inside : distance ≤ s.pc
  literals : (poolBytes prog).length ≤ distance
  aligned : distance % 4 = 0
  near : distance + 16 * prog.length ≤ 2 ^ 20

theorem literalBytes_of_rcp (h : isRcp instr = true) :
    literalBytes instr = le (randomxReciprocal instr.imm32).toNat 8 := by
  rw [literalBytes, if_pos h]

theorem literalBytes_length (instr : Instruction) :
    (literalBytes instr).length = if isRcp instr then 8 else 0 := by
  unfold literalBytes
  split
  · exact length_le ..
  · rfl

/-- A load is followed by its product only, so that it leaves the distance as it is. -/
theorem instrWords_rcp {distance : Nat} (h : isRcp instr = true) :
    instrWords distance instr = [ldrLiteral ||| tmpReg ||| literalOffset distance <<< 5,
      mul ||| UInt32.ofNat instr.dst ||| UInt32.ofNat instr.dst <<< 5 ||| tmpReg <<< 16] := by
  unfold instrWords
  rw [eq_of_beq h]

theorem Embedded.literal {distance : Nat} {rest : List Instruction}
    (h : Embedded distance (instr :: rest) s) (hrcp : isRcp instr = true) :
    s.target (signed 19 (literalOffset distance).toNat * 4) = s.pc - distance ∧
      read s.memory (s.pc - distance) 8 = le (randomxReciprocal instr.imm32).toNat 8 := by
  have hlength := literalBytes_length instr
  rw [if_pos hrcp] at hlength
  have hliterals := h.literals
  have hnear := h.near
  have hpool := h.pool
  rw [poolBytes, List.flatMap_cons, List.length_append] at hliterals
  rw [poolBytes, List.flatMap_cons] at hpool
  obtain ⟨hfirst, -⟩ := read_append hpool
  rw [hlength, literalBytes_of_rcp hrcp] at hfirst
  exact ⟨target_literal (by omega) (by omega) h.aligned h.inside, hfirst⟩

theorem Embedded.loadsFrom {distance : Nat} {rest : List Instruction}
    (h : Embedded distance (instr :: rest) s) (hrcp : isRcp instr = true) :
    LoadsFrom s (s.pc - distance) (randomxReciprocal instr.imm32) := by
  obtain ⟨htarget, hread⟩ := h.literal hrcp
  have hoffset : (literalOffset distance).toNat < 2 ^ 19 := by
    unfold literalOffset
    rw [UInt32.toNat_and]
    exact Nat.and_le_right.trans_lt (by decide)
  have hcode := h.code
  rw [bodyWords, instrWords_rcp hrcp, List.cons_append, assemble_cons] at hcode
  obtain ⟨hfirst, -⟩ := read_append hcode
  rw [length_encode] at hfirst
  have hdecode := ldrLiteral_decode hoffset
  refine ⟨_, _, ?_, hdecode, htarget, hread⟩
  rw [hfirst, ← List.append_nil (encode _)]
  exact (encodes hdecode).2 []

/-- One instruction, and what it leaves embedded. -/
theorem run_instruction {distance : Nat} {rest : List Instruction}
    (h : Embedded distance (instr :: rest) s) (hvalid : Superscalar.Valid instr) :
    let distance' := distance + 4 * (instrWords distance instr).length - (literalBytes instr).length
    ∃ t, processor.Reaches s t ∧ t.memory = s.memory ∧
      t.pc = s.pc + 4 * (instrWords distance instr).length ∧ Executed instr s t ∧
      Embedded distance' rest t ∧
      t.pc - distance' = s.pc - distance + (literalBytes instr).length := by
  intro distance'
  obtain ⟨type, htype⟩ := Option.isSome_iff_exists.mp hvalid.known
  have hcode := h.code
  rw [bodyWords, assemble_append] at hcode
  obtain ⟨hfirst, hrest⟩ := read_append hcode
  obtain ⟨hreaches, hmemory, hpc⟩ := (instrWords_stand distance htype).run hfirst
  have hexecuted := instrOps_executed s hvalid htype (fun hrcp => by
    have hisRcp : isRcp instr = true := by rw [isRcp, htype, hrcp]; rfl
    obtain ⟨htarget, hread⟩ := h.literal hisRcp
    rw [htarget, State.load, hread, ofNat_ofLe_le] : type = .imulRcp → _)
  rw [length_assemble] at hpc
  have hsize := length_instruction distance instr
  have hinside := h.inside
  have hliterals := h.literals
  have hnear := h.near
  have haligned := h.aligned
  have hpool := h.pool
  have hlength := literalBytes_length instr
  rw [poolBytes, List.flatMap_cons] at hpool
  rw [poolBytes, List.flatMap_cons, List.length_append, ← poolBytes] at hliterals
  rw [List.length_cons] at hnear
  obtain ⟨-, hpool⟩ := read_append hpool
  have hpool' : (runOps (instrOps distance instr type) s).pc - distance' =
      s.pc - distance + (literalBytes instr).length := by
    rw [hpc]
    omega
  refine ⟨_, hreaches, hmemory, hpc, hexecuted, ⟨?_, ?_, ?_, ?_, ?_, ?_⟩, hpool'⟩
  · rw [hmemory, hpc, ← length_assemble (instrWords distance instr)]
    exact hrest
  · rw [hmemory, hpool']
    exact hpool
  · omega
  · omega
  · split at hlength <;> omega
  · omega

/-- Between two states of a run of a program whose literals start at `pool`: what lies before an
instruction has been executed, and each `IMUL_RCP` loads the literal of its number. -/
def Follows (pool : Nat) (prog : List Instruction) (s t : State) : Prop :=
  ∀ before instr after, prog = before ++ instr :: after →
    ∃ u, processor.Reaches s u ∧ processor.Reaches u t ∧
      scalars u = executeSuperscalar (scalars s) before ∧
      (isRcp instr = true →
        LoadsFrom u (pool + 8 * before.countP isRcp) (randomxReciprocal instr.imm32))

theorem run_body {distance : Nat} (h : Embedded distance prog s)
    (hvalid : ∀ instr ∈ prog, Superscalar.Valid instr) :
    ∃ t, processor.Reaches s t ∧ t.memory = s.memory ∧
      t.pc = s.pc + 4 * (bodyWords distance prog).length ∧
      scalars t = executeSuperscalar (scalars s) prog ∧ Kept s t ∧
      Follows (s.pc - distance) prog s t := by
  induction prog generalizing distance s with
  | nil => exact ⟨s, .refl, rfl, rfl, rfl, .refl s, fun before _ _ heq => by cases before <;> cases heq⟩
  | cons instr rest ih =>
    obtain ⟨u, hu, humemory, hupc, hexecuted, hembedded, hpool⟩ :=
      run_instruction h (hvalid instr List.mem_cons_self)
    obtain ⟨t, ht, htmemory, htpc, htscalars, htkept, hfollows⟩ :=
      ih hembedded fun i hi => hvalid i (List.mem_cons_of_mem _ hi)
    refine ⟨t, hu.trans ht, htmemory.trans humemory, ?_, ?_, hexecuted.kept.trans htkept, ?_⟩
    · rw [htpc, hupc, bodyWords, List.length_append]
      omega
    · rw [htscalars, hexecuted.scalars_eq]
      rfl
    · intro before i after heq
      cases before with
      | nil =>
        obtain ⟨rfl, rfl⟩ := List.cons.inj heq
        exact ⟨s, .refl, hu.trans ht, rfl, fun hrcp => h.loadsFrom hrcp⟩
      | cons first before =>
        obtain ⟨rfl, hrest⟩ := List.cons.inj heq
        obtain ⟨v, hv, hvt, hvscalars, hloads⟩ := hfollows before i after hrest
        refine ⟨v, hu.trans hv, hvt, ?_, fun hrcp => ?_⟩
        · rw [hvscalars, hexecuted.scalars_eq]
          rfl
        · have hloads := hloads hrcp
          rw [hpool, literalBytes_length] at hloads
          rw [List.countP_cons]
          cases hfirst : isRcp instr
          · rw [hfirst, if_neg (by decide), Nat.add_zero] at hloads
            rw [if_neg (by decide), Nat.add_zero]
            exact hloads
          · rw [hfirst, if_pos rfl, Nat.add_assoc] at hloads
            rw [if_pos rfl, Nat.mul_add, Nat.add_comm (8 * _)]
            exact hloads

theorem length_poolBytes (prog : List Instruction) :
    (poolBytes prog).length = 8 * prog.countP isRcp := by
  induction prog with
  | nil => rfl
  | cons instr rest ih =>
    rw [poolBytes, List.flatMap_cons, ← poolBytes, List.length_append, ih, literalBytes_length,
      List.countP_cons]
    split <;> omega

/-- The jump at the head of a program ends right behind its literals. -/
theorem run_jump (hread : read s.memory s.pc 4 = encode (jumpWord prog))
    (hlength : (poolBytes prog).length < 2 ^ 26) :
    processor.step s = some { s with pc := s.pc + 4 + (poolBytes prog).length } := by
  have hpool := length_poolBytes prog
  have hdecode := b_decode (n := (4 + (poolBytes prog).length) / 4) (by omega)
  have htarget : s.target (((4 + (poolBytes prog).length) / 4 : Nat) * 4) =
      s.pc + 4 + (poolBytes prog).length := by
    unfold State.target
    omega
  rw [step_of_encodes (encodes hdecode) ((length_encode (jumpWord prog)).symm ▸ hread), exec_eq hdecode,
    Op.apply, htarget]

end Programs

end VeloxHash.JitCompilerA64
