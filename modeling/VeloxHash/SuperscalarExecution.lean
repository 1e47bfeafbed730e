import VeloxHash.Reciprocal
import VeloxHash.SuperscalarEncoding

/-! The compiled instructions against the interpreter, on the general-purpose registers and
on each lane of the vector registers. -/

namespace VeloxHash.SuperscalarCode

open Randomx CodeBuffer JitCompilerX86 BytecodeMachine Superscalar EncodedMachine X86Machine
  WordArithmetic Reciprocal

/-- The general-purpose registers that hold `r0` to `r7`. -/
def scalars (s : State) : Registers := fun i => s.gpr (gprOf i)

/-- One lane of the vector registers that hold `r0` to `r7`. -/
def lanes (s : State) (k : Fin 4) : Registers := fun i => s.ymm (ymmOf i) k

/-- What the prologue of the vector code loads. -/
structure Constants (s : State) : Prop where
  sign : ∀ k, s.ymm 14 k = signBit
  carry : ∀ k, s.ymm 15 k = carryBit

section Registers

theorem gprOf_injective : Function.Injective gprOf := Fin.natAdd_injective 8 8

theorem ymmOf_injective : Function.Injective ymmOf := Fin.castAdd_injective 8 8

@[simp] theorem gprOf_ne_rax (i : Fin 8) : gprOf i ≠ rax := by revert i; decide

@[simp] theorem gprOf_ne_rdx (i : Fin 8) : gprOf i ≠ rdx := by revert i; decide

@[simp] theorem rax_ne_rdx : rax ≠ rdx := by decide

@[simp] theorem ymmOf_eq_iff (i j : Fin 8) : ymmOf i = ymmOf j ↔ i = j := ymmOf_injective.eq_iff

/-- The temporaries and the constants are no program registers. -/
@[simp] theorem ymmOf_ne (i : Fin 8) :
    ymmOf i ≠ 8 ∧ ymmOf i ≠ 9 ∧ ymmOf i ≠ 10 ∧ ymmOf i ≠ 11 ∧ ymmOf i ≠ 12 ∧ ymmOf i ≠ 13 ∧
      ymmOf i ≠ 14 ∧ ymmOf i ≠ 15 := by
  revert i
  decide

@[simp] theorem ne_ymmOf (i : Fin 8) :
    8 ≠ ymmOf i ∧ 9 ≠ ymmOf i ∧ 10 ≠ ymmOf i ∧ 11 ≠ ymmOf i ∧ 12 ≠ ymmOf i ∧ 13 ≠ ymmOf i ∧
      14 ≠ ymmOf i ∧ 15 ≠ ymmOf i := by
  revert i
  decide

variable (s : State)

@[simp] theorem scalars_setGpr (d : Fin 8) (x : UInt64) :
    scalars (s.setGpr (gprOf d) x) = Function.update (scalars s) d x :=
  Function.update_comp_eq_of_injective s.gpr gprOf_injective d x

theorem scalars_setGpr_other {r : Register} (h : ∀ i, gprOf i ≠ r) (x : UInt64) :
    scalars (s.setGpr r x) = scalars s :=
  funext fun i => Function.update_of_ne (h i) _ _

end Registers

section Scalar

variable (s : State)

@[simp] theorem scalars_rip (n : Nat) : scalars { s with rip := n } = scalars s := rfl

@[simp] theorem gpr_setGpr (r r' : Register) (x : UInt64) :
    (s.setGpr r x).gpr r' = if r' = r then x else s.gpr r' := Function.update_apply _ _ _ _

theorem gpr_gprOf (i : Fin 8) : s.gpr (gprOf i) = scalars s i := rfl

/-- The `mov`s around a multiplication by `rax` and `rdx`. -/
theorem scalar_high (instr : Instruction) (op : WideOp) :
    scalars (block processor encode (highScalar instr op) s) =
      Function.update (scalars s) instr.dst
        (op.apply (scalars s instr.dst) (scalars s instr.src)) := by
  simp [highScalar, processor, Instr.apply, AluOp.apply, scalars_setGpr_other, gpr_gprOf]

theorem scalar_constant (avx2 : Bool) (instr : Instruction) {wide : AluOp} {op : ImmOp}
    (h : ∀ a b, wide.apply a b = op.apply a b) :
    scalars (block processor encode (constantScalar avx2 instr wide op) s) =
      Function.update (scalars s) instr.dst
        (op.apply (scalars s instr.dst) (signExtend2sCompl instr.imm32)) := by
  cases avx2
  · exact scalars_setGpr _ _ _
  · simp [constantScalar, processor, Instr.apply, scalars_setGpr_other, gpr_gprOf, h]

theorem rotate_count {imm : UInt32} (h : imm.toNat ≤ 63) :
    (imm &&& 63).toUInt8.toNat = imm.toNat := by
  rw [UInt32.toNat_toUInt8, UInt32.toNat_and, show (63 : UInt32).toNat = 2 ^ 6 - 1 from rfl,
    Nat.and_two_pow_sub_one_eq_mod]
  omega

/-- The divisor of an `IMUL_RCP` is not zero. -/
theorem divisor_ne_zero {imm : UInt32} (h : isZeroOrPowerOf2 imm = false) : imm ≠ 0 := by
  rintro rfl
  exact absurd h (by decide)

theorem scalar_result {instr : Instruction} {type : SuperscalarInstructionType}
    (hvalid : Valid instr) (htype : superscalarType instr = some type) (avx2 : Bool) :
    scalars (block processor encode (scalarCode avx2 instr type) s) =
      Function.update (scalars s) instr.dst
        (superscalarResult instr (scalars s instr.dst) (scalars s instr.src) type) := by
  cases type with
  | isubR | ixorR | imulR => exact scalars_setGpr _ _ _
  | iaddRs =>
    have hscale : (Fin.ofNat 4 instr.getModShift).val = instr.getModShift :=
      Nat.mod_eq_of_lt (getModShift_lt instr)
    refine (scalars_setGpr _ _ _).trans ?_
    rw [hscale]
    rfl
  | irorC =>
    obtain ⟨_, hcount⟩ := hvalid.irorC htype
    refine (scalars_setGpr _ _ _).trans ?_
    rw [rotate_count hcount, Nat.mod_eq_of_lt (by omega)]
    rfl
  | iaddC7 | iaddC8 | iaddC9 => exact scalar_constant s avx2 instr fun _ _ => rfl
  | ixorC7 | ixorC8 | ixorC9 => exact scalar_constant s avx2 instr fun _ _ => rfl
  | imulhR => exact scalar_high s instr .mul
  | ismulhR => exact scalar_high s instr .imul
  | imulRcp =>
    have hfast := randomxReciprocalFast_eq (divisor_ne_zero (hvalid.imulRcp htype))
    simp [scalarCode, processor, Instr.apply, AluOp.apply, scalars_setGpr_other, gpr_gprOf, hfast,
      superscalarResult]

/-- No scalar instruction touches a vector register. -/
theorem scalar_ymm (avx2 : Bool) (instr : Instruction) (type : SuperscalarInstructionType) :
    (block processor encode (scalarCode avx2 instr type) s).ymm = s.ymm := by
  cases type <;> cases avx2 <;> rfl

end Scalar

section Lanes

/-- A vector instruction on one lane, with the word that a broadcast loads. -/
def laneStep (load : UInt64) (f : Register → UInt64) : Instr → Register → UInt64
  | .lane op dst left right => Function.update f dst (op.apply (f left) (f right))
  | .shift op dst src count => Function.update f dst (op.apply (f src) count)
  | .broadcast dst _ => Function.update f dst load
  | _ => f

def laneRun (load : UInt64) (f : Register → UInt64) (is : List Instr) : Register → UInt64 :=
  is.foldl (laneStep load) f

/-- The instructions that stay within a lane. -/
def OfLane : Instr → Prop
  | .lane .. | .shift .. => True
  | _ => False

variable (load : UInt64) (f : Register → UInt64)

theorem block_lane {is : List Instr} (h : ∀ i ∈ is, OfLane i) (s : State) (k : Fin 4) :
    (fun r => (block processor encode is s).ymm r k) = laneRun load (fun r => s.ymm r k) is := by
  induction is generalizing s with
  | nil => rfl
  | cons i is ih =>
    rw [block_cons, ih fun j hj => h j (List.mem_cons_of_mem i hj), laneRun, laneRun,
      List.foldl_cons]
    congr 1
    have hi := h i List.mem_cons_self
    cases i with
    | lane op dst left right =>
      funext r
      simp only [processor, Instr.apply, State.setYmm, laneStep, Function.update_apply]
      split <;> rfl
    | shift op dst src count =>
      funext r
      simp only [processor, Instr.apply, State.setYmm, laneStep, Function.update_apply]
      split <;> rfl
    | _ => exact absurd hi (by simp [OfLane])

/-- What a run leaves in one lane: the result in `dst`, the other program registers and the
constants as they were. -/
structure Leaves (f g : Register → UInt64) (dst : Fin 8) (x : UInt64) : Prop where
  registers : ∀ i, g (ymmOf i) = if i = dst then x else f (ymmOf i)
  sign : g 14 = f 14
  carry : g 15 = f 15

theorem product_leaves (dst : Fin 8) (right : Register) (a b : UInt64)
    (hr : right ≠ 10 ∧ right ≠ 11) (ha : f (ymmOf dst) = a) (hb : f right = b)
    (h8 : f 8 = a >>> 32) (h9 : f 9 = b >>> 32) :
    Leaves f (laneRun load f (productLanes (ymmOf dst) right)) dst (a * b) := by
  rw [← lowFromHalves_eq]
  constructor
  · intro i
    simp [laneRun, productLanes, laneStep, Function.update_apply, LaneOp.apply, ShiftOp.apply,
      ha, hb, h8, h9, hr]
    split_ifs <;> rfl
  · simp [laneRun, productLanes, laneStep, Function.update_apply]
  · simp [laneRun, productLanes, laneStep, Function.update_apply]

theorem middle_run (dst src : Fin 8) (upper : Register) (hu : upper = ymmOf dst ∨ upper = 13)
    (hsign : f 14 = signBit) (hcarry : f 15 = carryBit) :
    let g := laneRun load f (middleLanes (ymmOf dst) (ymmOf src) upper)
    let a := f (ymmOf dst)
    let b := f (ymmOf src)
    g 8 = (greater (narrow (a >>> 32) b ^^^ signBit) (middle a b ^^^ signBit) &&& carryBit) ∧
      g 11 = middle a b ∧ g upper = narrow (a >>> 32) (b >>> 32) ∧
      ∀ r, r ≠ upper → r ≠ 8 → r ≠ 9 → r ≠ 10 → r ≠ 11 → r ≠ 12 → g r = f r := by
  intro g a b
  have hne : 8 ≠ upper ∧ 9 ≠ upper ∧ 10 ≠ upper ∧ 11 ≠ upper ∧ 12 ≠ upper ∧ 14 ≠ upper ∧
      15 ≠ upper := by
    rcases hu with rfl | rfl
    · simp
    · decide
  have hupper : upper ≠ 8 ∧ upper ≠ 9 ∧ upper ≠ 10 ∧ upper ≠ 11 := by
    rcases hu with rfl | rfl
    · simp
    · decide
  refine ⟨?_, ?_, ?_, ?_⟩
  · simp [g, laneRun, middleLanes, laneStep, LaneOp.apply, ShiftOp.apply, hsign, hcarry,
      hne]
    rfl
  · simp [g, laneRun, middleLanes, laneStep, LaneOp.apply, ShiftOp.apply, hne]
    rfl
  · simp [g, laneRun, middleLanes, laneStep, Function.update_apply, LaneOp.apply, ShiftOp.apply,
      hupper]
    rfl
  · intro r hr h8 h9 h10 h11 h12
    simp [g, laneRun, middleLanes, laneStep, *]

theorem laneRun_append (is js : List Instr) :
    laneRun load f (is ++ js) = laneRun load (laneRun load f is) js := List.foldl_append

theorem high_leaves (dst src : Fin 8) (hsign : f 14 = signBit) (hcarry : f 15 = carryBit) :
    Leaves f
      (laneRun load f (middleLanes (ymmOf dst) (ymmOf src) (ymmOf dst) ++
        [.lane .paddq (ymmOf dst) 8 (ymmOf dst), .shift .psrlq 11 11 32,
          .lane .paddq (ymmOf dst) 11 (ymmOf dst)]))
      dst (high (f (ymmOf dst)) (f (ymmOf src))) := by
  obtain ⟨h8, h11, hupper, hother⟩ :=
    middle_run load f dst src (ymmOf dst) (.inl rfl) hsign hcarry
  rw [laneRun_append, ← highFromHalves_eq]
  generalize laneRun load f (middleLanes (ymmOf dst) (ymmOf src) (ymmOf dst)) = g at *
  constructor
  · intro i
    have hi : i ≠ dst → g (ymmOf i) = f (ymmOf i) := fun hne => hother _ (by simpa using hne)
      (by simp) (by simp) (by simp) (by simp) (by simp)
    simp [laneRun, laneStep, Function.update_apply, LaneOp.apply, ShiftOp.apply, h8, h11, hupper]
    split_ifs with hid
    · exact UInt64.add_comm _ _
    · exact hi hid
  · simp [laneRun, laneStep, hother]
  · simp [laneRun, laneStep, hother]

theorem highSigned_leaves (dst src : Fin 8) (hsign : f 14 = signBit) (hcarry : f 15 = carryBit) :
    Leaves f
      (laneRun load f (middleLanes (ymmOf dst) (ymmOf src) 13 ++
        [.lane .paddq 13 13 8, .shift .psrlq 11 11 32, .lane .paddq 8 13 11, .lane .pxor 9 9 9,
          .lane .pcmpgtq 10 9 (ymmOf dst), .lane .pcmpgtq 11 9 (ymmOf src),
          .lane .pand 10 10 (ymmOf src), .lane .pand 11 11 (ymmOf dst), .lane .psubq 8 8 10,
          .lane .psubq (ymmOf dst) 8 11]))
      dst (highSigned (f (ymmOf dst)) (f (ymmOf src))) := by
  obtain ⟨h8, h11, hupper, hother⟩ :=
    middle_run load f dst src 13 (.inr rfl) hsign hcarry
  rw [laneRun_append, highSigned_eq, ← highFromHalves_eq]
  generalize laneRun load f (middleLanes (ymmOf dst) (ymmOf src) 13) = g at *
  have hi (i : Fin 8) : g (ymmOf i) = f (ymmOf i) := by apply hother <;> simp
  constructor
  · intro i
    simp [laneRun, laneStep, Function.update_apply, LaneOp.apply, ShiftOp.apply, h8, h11, hupper, hi]
    split_ifs with hid
    · rw [UInt64.add_comm (narrow _ _)]
      rfl
    · rfl
  · simp [laneRun, laneStep, hother]
  · simp [laneRun, laneStep, hother]

/-- The word that the code of an instruction broadcasts. -/
def broadcastWord (instr : Instruction) : SuperscalarInstructionType → UInt64
  | .imulRcp => randomxReciprocalFast instr.imm32
  | _ => signExtend2sCompl instr.imm32

theorem constant_leaves (instr : Instruction) (op : LaneOp) :
    Leaves f (laneRun load f (constantLanes instr op)) instr.dst
      (op.apply (f (ymmOf instr.dst)) load) := by
  constructor
  · intro i
    simp [laneRun, constantLanes, laneStep, Function.update_apply]
  · simp [laneRun, constantLanes, laneStep]
  · simp [laneRun, constantLanes, laneStep]

theorem single_leaves (op : LaneOp) (dst src : Fin 8) :
    Leaves f (laneRun load f [.lane op (ymmOf dst) (ymmOf dst) (ymmOf src)]) dst
      (op.apply (f (ymmOf dst)) (f (ymmOf src))) := by
  constructor
  · intro i
    simp [laneRun, laneStep, Function.update_apply]
  · simp [laneRun, laneStep]
  · simp [laneRun, laneStep]

variable {f} in
theorem Leaves.congr {f' g : Register → UInt64} {dst : Fin 8} {x : UInt64} (h : Leaves f' g dst x)
    (hregisters : ∀ i, f' (ymmOf i) = f (ymmOf i)) (hsign : f' 14 = f 14) (hcarry : f' 15 = f 15) :
    Leaves f g dst x :=
  ⟨fun i => by rw [h.registers, hregisters], h.sign.trans hsign, h.carry.trans hcarry⟩

theorem psllq_ofNat (a : UInt64) {n : Nat} (h : n < 64) :
    ShiftOp.psllq.apply a (.ofNat n) = a <<< .ofNat n := by
  have hlt : UInt8.ofNat n < 64 := by
    rw [UInt8.lt_iff_toNat_lt, UInt8.toNat_ofNat', Nat.mod_eq_of_lt (by omega)]
    exact h
  have hn : (UInt8.ofNat n).toUInt64 = .ofNat n := by
    apply UInt64.toNat.inj
    rw [UInt8.toNat_toUInt64, UInt8.toNat_ofNat', UInt64.toNat_ofNat', Nat.mod_eq_of_lt (by omega),
      Nat.mod_eq_of_lt (by omega)]
  rw [ShiftOp.apply, if_pos hlt, hn]

theorem addShifted_leaves (dst src : Fin 8) {n : Nat} (h : n < 64) :
    Leaves f
      (laneRun load f [.shift .psllq 8 (ymmOf src) (.ofNat n), .lane .paddq (ymmOf dst) 8 (ymmOf dst)])
      dst (f (ymmOf dst) + f (ymmOf src) <<< .ofNat n) := by
  constructor
  · intro i
    simp [laneRun, laneStep, Function.update_apply, LaneOp.apply, psllq_ofNat _ h]
    rw [UInt64.add_comm]
  · simp [laneRun, laneStep]
  · simp [laneRun, laneStep]

/-- A shift whose count is a byte below 64, on the bits. -/
theorem shift_bits (a : UInt64) {c : UInt8} (h : c.toNat < 64) :
    (ShiftOp.psrlq.apply a c).toBitVec = a.toBitVec >>> c.toNat ∧
      (ShiftOp.psllq.apply a c).toBitVec = a.toBitVec <<< c.toNat := by
  have hlt : c < 64 := UInt8.lt_iff_toNat_lt.mpr h
  have hcount : (c.toUInt64.toBitVec % 64).toNat = c.toNat := by
    change c.toUInt64.toNat % 64 = c.toNat
    rw [UInt8.toNat_toUInt64, Nat.mod_eq_of_lt h]
  constructor
  · rw [ShiftOp.apply, if_pos hlt, UInt64.toBitVec_shiftRight, BitVec.ushiftRight_eq', hcount]
  · rw [ShiftOp.apply, if_pos hlt, UInt64.toBitVec_shiftLeft, BitVec.shiftLeft_eq', hcount]

/-- A rotation from the two shifts that make it up. -/
theorem rotate_shifts (a : UInt64) {imm : UInt32} (h : 1 ≤ imm.toNat ∧ imm.toNat ≤ 63) :
    ShiftOp.psrlq.apply a (imm &&& 63).toUInt8 ||| ShiftOp.psllq.apply a (64 - (imm &&& 63)).toUInt8 =
      rotr64 a imm.toNat := by
  have hright := rotate_count h.2
  have hmask : (imm &&& 63).toNat = imm.toNat := by
    rw [UInt32.toNat_and, show (63 : UInt32).toNat = 2 ^ 6 - 1 from rfl, Nat.and_two_pow_sub_one_eq_mod]
    omega
  have hleft : (64 - (imm &&& 63)).toUInt8.toNat = 64 - imm.toNat := by
    rw [UInt32.toNat_toUInt8, UInt32.toNat_sub, hmask, show (64 : UInt32).toNat = 64 from rfl]
    omega
  apply UInt64.eq_of_toBitVec_eq
  rw [UInt64.toBitVec_or, (shift_bits a (by omega)).1, (shift_bits a (by omega)).2, hright, hleft,
    rotr64, BitVec.rotateRight_def, Nat.mod_eq_of_lt (by omega)]

theorem rotate_leaves (dst : Fin 8) {imm : UInt32} (h : 1 ≤ imm.toNat ∧ imm.toNat ≤ 63) :
    Leaves f
      (laneRun load f [.shift .psrlq 8 (ymmOf dst) (imm &&& 63).toUInt8,
        .shift .psllq 9 (ymmOf dst) (64 - (imm &&& 63)).toUInt8, .lane .por (ymmOf dst) 8 9])
      dst (rotr64 (f (ymmOf dst)) imm.toNat) := by
  rw [← rotate_shifts _ h]
  constructor
  · intro i
    simp [laneRun, laneStep, Function.update_apply, LaneOp.apply]
  · simp [laneRun, laneStep]
  · simp [laneRun, laneStep]

/-- Each type's vector code puts what the interpreter assigns into the lane. -/
theorem vector_leaves {instr : Instruction} {type : SuperscalarInstructionType}
    (hvalid : Valid instr) (htype : superscalarType instr = some type)
    (hsign : f 14 = signBit) (hcarry : f 15 = carryBit) :
    Leaves f (laneRun (broadcastWord instr type) f (vectorCode instr type)) instr.dst
      (superscalarResult instr (f (ymmOf instr.dst)) (f (ymmOf instr.src)) type) := by
  cases type with
  | isubR | ixorR => exact single_leaves _ _ _ _ _
  | iaddRs =>
    unfold vectorCode superscalarResult
    dsimp only
    split
    · exact addShifted_leaves _ _ _ _ (by have := getModShift_lt instr; omega)
    · rename_i h
      rw [not_not.mp h]
      exact (UInt64.shiftLeft_zero (a := f (ymmOf instr.src))).symm ▸ single_leaves _ _ .paddq _ _
  | imulR =>
    rw [vectorCode, laneRun_append]
    have hleaves := product_leaves (broadcastWord instr .imulR)
      (laneRun (broadcastWord instr .imulR) f
        [.shift .psrlq 8 (ymmOf instr.dst) 32, .shift .psrlq 9 (ymmOf instr.src) 32])
      instr.dst (ymmOf instr.src) (f (ymmOf instr.dst)) (f (ymmOf instr.src))
    refine (hleaves ?_ ?_ ?_ ?_ ?_).congr ?_ ?_ ?_
    all_goals simp [laneRun, laneStep, ShiftOp.apply]
  | irorC => exact rotate_leaves _ _ _ (hvalid.irorC htype)
  | iaddC7 | iaddC8 | iaddC9 => exact constant_leaves _ _ instr .paddq
  | ixorC7 | ixorC8 | ixorC9 => exact constant_leaves _ _ instr .pxor
  | imulhR => exact high_leaves _ _ _ _ hsign hcarry
  | ismulhR => exact highSigned_leaves _ _ _ _ hsign hcarry
  | imulRcp =>
    have hfast := randomxReciprocalFast_eq (divisor_ne_zero (hvalid.imulRcp htype))
    rw [vectorCode, laneRun_append]
    have hleaves := product_leaves (broadcastWord instr .imulRcp)
      (laneRun (broadcastWord instr .imulRcp) f
        [.broadcast 12 0xFFFFFFEB, .shift .psrlq 8 (ymmOf instr.dst) 32, .shift .psrlq 9 12 32])
      instr.dst 12 (f (ymmOf instr.dst)) (randomxReciprocal instr.imm32)
    refine (hleaves ?_ ?_ ?_ ?_ ?_).congr ?_ ?_ ?_
    all_goals simp [laneRun, laneStep, ShiftOp.apply, broadcastWord, hfast]

end Lanes

end VeloxHash.SuperscalarCode
