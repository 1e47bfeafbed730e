import VeloxHash.BytecodeMachine
import VeloxHash.CodeBuffer

/-! `BytecodeMachine::executeInstruction` on registers and scratchpad. The vector unit is a
parameter: no integer register is ever read from it. -/

namespace VeloxHash.BytecodeMachine

open Randomx CodeBuffer

/-- The operations on `rx_vec_f128`; the arithmetic ones depend on the rounding mode. -/
structure VectorUnit where
  Vec : Type
  swap : Vec → Vec
  add : UInt32 → Vec → Vec → Vec
  sub : UInt32 → Vec → Vec → Vec
  mul : UInt32 → Vec → Vec → Vec
  div : UInt32 → Vec → Vec → Vec
  sqrt : UInt32 → Vec → Vec
  /-- The `xor` with `0x80F0000000000000`. -/
  scale : Vec → Vec
  /-- `rx_cvt_packed_int_vec_f128` of eight bytes. -/
  convert : List UInt8 → Vec
  maskRegisterExponentMantissa : Vec → Vec

/-- `NativeRegisterFile`, the scratchpad, the rounding mode and the counter of the loop. -/
structure Machine (v : VectorUnit) where
  r : Fin 8 → UInt64
  f : Fin 4 → v.Vec
  e : Fin 4 → v.Vec
  a : Fin 4 → v.Vec
  scratchpad : Memory
  mode : UInt32 := 0
  pc : Int := 0

def rotr64 (x : UInt64) (c : Nat) : UInt64 := ⟨x.toBitVec.rotateRight c⟩

def rotl64 (x : UInt64) (c : Nat) : UInt64 := ⟨x.toBitVec.rotateLeft c⟩

/-- The high half of the unsigned product. -/
def mulh (x y : UInt64) : UInt64 := UInt64.ofNat (x.toNat * y.toNat / 2 ^ 64)

/-- The high half of the signed product. -/
def smulh (x y : UInt64) : UInt64 :=
  ⟨BitVec.ofInt 64 ((x.toBitVec.toInt * y.toBitVec.toInt) >>> (64 : Nat))⟩

variable {v : VectorUnit}

namespace Machine

variable (m : Machine v) (ibc : InstructionByteCode)

def setReg (d : Fin 8) (x : UInt64) : Machine v := { m with r := Function.update m.r d x }

def vec : FloatRegister → v.Vec
  | .f i => m.f i
  | .e i => m.e i
  | .a i => m.a i

def setVec (x : v.Vec) : FloatRegister → Machine v
  | .f i => { m with f := Function.update m.f i x }
  | .e i => { m with e := Function.update m.e i x }
  | .a i => { m with a := Function.update m.a i x }

/-- `*ibc.isrc`. -/
def source : UInt64 :=
  match ibc.isrc with
  | .reg s => m.r s
  | .imm => ibc.imm
  | .zero => 0

/-- `getScratchpadAddress`. -/
def address : Nat := ((m.source ibc + ibc.imm) &&& ibc.memMask.toUInt64).toNat

def loaded : List UInt8 := read m.scratchpad (m.address ibc) 8

/-- `load64(getScratchpadAddress(ibc, scratchpad))`. -/
def load64 : UInt64 := UInt64.ofNat (ofLe (m.loaded ibc))

/-- An operation on `*ibc.idst`. -/
def onReg (op : UInt64 → UInt64) : Machine v := m.setReg ibc.idst (op (m.r ibc.idst))

/-- An operation on `*ibc.fdst`. -/
def onVec (op : v.Vec → v.Vec) : Machine v := m.setVec (op (m.vec ibc.fdst)) ibc.fdst

@[simp] theorem onReg_pc (op : UInt64 → UInt64) : (m.onReg ibc op).pc = m.pc := rfl

@[simp] theorem setVec_r (x : v.Vec) (d : FloatRegister) : (m.setVec x d).r = m.r := by
  cases d <;> rfl

@[simp] theorem setVec_pc (x : v.Vec) (d : FloatRegister) : (m.setVec x d).pc = m.pc := by
  cases d <;> rfl

theorem setReg_r_of_ne {d q : Fin 8} (h : q ≠ d) (x : UInt64) : (m.setReg d x).r q = m.r q :=
  Function.update_of_ne h ..

theorem onReg_r_of_ne {q : Fin 8} (op : UInt64 → UInt64) (h : q ≠ ibc.idst) :
    (m.onReg ibc op).r q = m.r q := m.setReg_r_of_ne h _

end Machine

/-- `exe_ISWAP_R`. -/
def exeIswapR (ibc : InstructionByteCode) (m : Machine v) : Machine v :=
  let temp := m.source ibc
  let m' := match ibc.isrc with
    | .reg s => m.setReg s (m.r ibc.idst)
    | _ => m
  m'.setReg ibc.idst temp

/-- The test of `exe_CBRANCH` on the branch register after the addition. -/
def taken (ibc : InstructionByteCode) (x : UInt64) : Bool := x &&& ibc.memMask.toUInt64 == 0

def exeCbranch (ibc : InstructionByteCode) (m : Machine v) : Machine v :=
  let x := m.r ibc.idst + ibc.imm
  { m.setReg ibc.idst x with pc := if taken ibc x then ibc.target.toInt else m.pc }

def exeIstore (ibc : InstructionByteCode) (m : Machine v) : Machine v :=
  let p := ((m.r ibc.idst + ibc.imm) &&& ibc.memMask.toUInt64).toNat
  { m with scratchpad := write m.scratchpad p (le (m.source ibc).toNat 8) }

/-- `none` is `UNREACHABLE`. -/
def executeInstruction (ibc : InstructionByteCode) (m : Machine v) : Option (Machine v) :=
  match ibc.type with
  | .iaddRs => some (m.onReg ibc (· + ((m.source ibc <<< UInt64.ofNat ibc.shift) + ibc.imm)))
  | .iaddM => some (m.onReg ibc (· + m.load64 ibc))
  | .isubR => some (m.onReg ibc (· - m.source ibc))
  | .isubM => some (m.onReg ibc (· - m.load64 ibc))
  | .imulR => some (m.onReg ibc (· * m.source ibc))
  | .imulM => some (m.onReg ibc (· * m.load64 ibc))
  | .imulhR => some (m.onReg ibc (mulh · (m.source ibc)))
  | .imulhM => some (m.onReg ibc (mulh · (m.load64 ibc)))
  | .ismulhR => some (m.onReg ibc (smulh · (m.source ibc)))
  | .ismulhM => some (m.onReg ibc (smulh · (m.load64 ibc)))
  | .inegR => some (m.onReg ibc (~~~ · + 1))
  | .ixorR => some (m.onReg ibc (· ^^^ m.source ibc))
  | .ixorM => some (m.onReg ibc (· ^^^ m.load64 ibc))
  | .irorR => some (m.onReg ibc (rotr64 · (m.source ibc &&& 63).toNat))
  | .irolR => some (m.onReg ibc (rotl64 · (m.source ibc &&& 63).toNat))
  | .iswapR => some (exeIswapR ibc m)
  | .fswapR => some (m.onVec ibc v.swap)
  | .faddR => some (m.onVec ibc (v.add m.mode · (m.vec ibc.fsrc)))
  | .faddM => some (m.onVec ibc (v.add m.mode · (v.convert (m.loaded ibc))))
  | .fsubR => some (m.onVec ibc (v.sub m.mode · (m.vec ibc.fsrc)))
  | .fsubM => some (m.onVec ibc (v.sub m.mode · (v.convert (m.loaded ibc))))
  | .fscalR => some (m.onVec ibc v.scale)
  | .fmulR => some (m.onVec ibc (v.mul m.mode · (m.vec ibc.fsrc)))
  | .fdivM => some (m.onVec ibc (v.div m.mode ·
      (v.maskRegisterExponentMantissa (v.convert (m.loaded ibc)))))
  | .fsqrtR => some (m.onVec ibc (v.sqrt m.mode))
  | .cbranch => some (exeCbranch ibc m)
  | .cfround => some { m with mode := (rotr64 (m.source ibc) ibc.imm.toNat % 4).toUInt32 }
  | .istore => some (exeIstore ibc m)
  | .nop => some m
  | .imulRcp => none

/-- The integer registers that an instruction may write. -/
def writes (ibc : InstructionByteCode) (q : Fin 8) : Bool :=
  match ibc.type with
  | .iaddRs | .iaddM | .isubR | .isubM | .imulR | .imulM | .imulhR | .imulhM | .ismulhR
  | .ismulhM | .inegR | .ixorR | .ixorM | .irorR | .irolR | .cbranch => q == ibc.idst
  | .iswapR => q == ibc.idst || ibc.isrc == .reg q
  | _ => false

variable {ibc : InstructionByteCode} {m t : Machine v} {q : Fin 8}

theorem exeIswapR_r (hdst : q ≠ ibc.idst) (hsrc : ibc.isrc ≠ .reg q) :
    (exeIswapR ibc m).r q = m.r q := by
  unfold exeIswapR
  dsimp only
  rw [Machine.setReg_r_of_ne _ hdst]
  split
  case h_1 s hs => exact m.setReg_r_of_ne (fun h : q = s => hsrc (h ▸ hs)) _
  case h_2 => rfl

/-- An instruction leaves all other registers alone. -/
theorem executeInstruction_r (h : executeInstruction ibc m = some t) (hq : writes ibc q = false) :
    t.r q = m.r q := by
  unfold executeInstruction at h
  unfold writes at hq
  cases htype : ibc.type with
  | imulRcp => simp [htype] at h
  | iswapR =>
    simp only [htype, Option.some.injEq] at h
    simp only [htype, Bool.or_eq_false_iff, beq_eq_false_iff_ne] at hq
    subst h
    exact exeIswapR_r hq.1 hq.2
  | cbranch =>
    simp only [htype, Option.some.injEq] at h
    simp only [htype, beq_eq_false_iff_ne] at hq
    subst h
    exact m.setReg_r_of_ne hq _
  | cfround | istore | nop =>
    simp only [htype, Option.some.injEq] at h
    subst h
    rfl
  | fswapR | faddR | faddM | fsubR | fsubM | fscalR | fmulR | fdivM | fsqrtR =>
    simp only [htype, Option.some.injEq] at h
    subst h
    simp only [Machine.onVec, Machine.setVec_r]
  | _ =>
    simp only [htype, Option.some.injEq] at h
    simp only [htype, beq_eq_false_iff_ne] at hq
    subst h
    exact m.onReg_r_of_ne ibc _ hq

theorem exeIswapR_pc (ibc : InstructionByteCode) (m : Machine v) : (exeIswapR ibc m).pc = m.pc := by
  unfold exeIswapR
  dsimp only
  split <;> rfl

theorem executeInstruction_pc (h : executeInstruction ibc m = some t)
    (htype : ibc.type ≠ .cbranch) : t.pc = m.pc := by
  unfold executeInstruction at h
  split at h
  case h_26 hbranch => exact absurd hbranch htype
  case h_30 => exact nomatch h
  all_goals
    obtain rfl := Option.some.inj h
    first
      | rfl
      | exact m.setVec_pc ..
      | exact exeIswapR_pc ..

theorem executeInstruction_isSome (h : ibc.type ≠ .imulRcp) :
    (executeInstruction ibc m).isSome := by
  unfold executeInstruction
  split
  case h_30 hrcp => exact absurd hrcp h
  all_goals rfl

end VeloxHash.BytecodeMachine
