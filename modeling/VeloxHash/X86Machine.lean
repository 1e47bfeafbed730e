import VeloxHash.EncodedMachine
import VeloxHash.FinNumerals
import VeloxHash.WordArithmetic

/-! The x86-64 instructions on whole general-purpose registers and on the four 64-bit lanes
of the AVX2 registers, decoded from their bytes. No instruction here reads a flag. -/

namespace VeloxHash.X86Machine

open CodeBuffer EncodedMachine WordArithmetic

abbrev Register := Fin 16

structure State where
  gpr : Register → UInt64
  ymm : Register → Fin 4 → UInt64
  memory : Memory
  rip : Nat

inductive AluOp
  | add | sub | xor | mov | imul
  deriving DecidableEq, Repr

inductive ImmOp
  | add | xor
  deriving DecidableEq, Repr

inductive WideOp
  | mul | imul
  deriving DecidableEq, Repr

inductive LaneOp
  | paddq | psubq | pxor | por | pand | pmuludq | pcmpgtq
  deriving DecidableEq, Repr

inductive ShiftOp
  | psrlq | psllq
  deriving DecidableEq, Repr

inductive Instr
  | alu (op : AluOp) (dst src : Register)
  | aluImm (op : ImmOp) (dst : Register) (imm : UInt32)
  | movImm (dst : Register) (imm : UInt64)
  | ror (dst : Register) (count : UInt8)
  | lea (dst base index : Register) (scale : Fin 4)
  | wide (op : WideOp) (src : Register)
  | lane (op : LaneOp) (dst left right : Register)
  | shift (op : ShiftOp) (dst src : Register) (count : UInt8)
  /-- `vbroadcastsd` from memory at a distance from the end of the instruction. -/
  | broadcast (dst : Register) (displacement : UInt32)
  deriving DecidableEq, Repr

section Semantics

def rax : Register := 0
def rdx : Register := 2

def signExtend (x : UInt32) : UInt64 := ⟨x.toBitVec.signExtend 64⟩

def AluOp.apply : AluOp → UInt64 → UInt64 → UInt64
  | .add, a, b => a + b
  | .sub, a, b => a - b
  | .xor, a, b => a ^^^ b
  | .mov, _, b => b
  | .imul, a, b => a * b

def ImmOp.apply : ImmOp → UInt64 → UInt64 → UInt64
  | .add, a, b => a + b
  | .xor, a, b => a ^^^ b

def WideOp.apply : WideOp → UInt64 → UInt64 → UInt64
  | .mul => high
  | .imul => highSigned

def LaneOp.apply : LaneOp → UInt64 → UInt64 → UInt64
  | .paddq, a, b => a + b
  | .psubq, a, b => a - b
  | .pxor, a, b => a ^^^ b
  | .por, a, b => a ||| b
  | .pand, a, b => a &&& b
  | .pmuludq, a, b => narrow a b
  | .pcmpgtq, a, b => greater a b

/-- Counts above 63 leave nothing. -/
def ShiftOp.apply : ShiftOp → UInt64 → UInt8 → UInt64
  | .psrlq, a, n => if n < 64 then a >>> n.toUInt64 else 0
  | .psllq, a, n => if n < 64 then a <<< n.toUInt64 else 0

namespace State

variable (s : State)

def setGpr (r : Register) (x : UInt64) : State := { s with gpr := Function.update s.gpr r x }

def setYmm (r : Register) (x : Fin 4 → UInt64) : State :=
  { s with ymm := Function.update s.ymm r x }

end State

/-- The word at a distance from a position. -/
def loadRelative (m : Memory) (p : Nat) (displacement : UInt32) : UInt64 :=
  .ofNat (ofLe (read m (p + displacement.toBitVec.toInt).toNat 8))

/-- The effect of an instruction; the program counter is already behind it. -/
def Instr.apply (s : State) : Instr → State
  | .alu op dst src => s.setGpr dst (op.apply (s.gpr dst) (s.gpr src))
  | .aluImm op dst imm => s.setGpr dst (op.apply (s.gpr dst) (signExtend imm))
  | .movImm dst imm => s.setGpr dst imm
  | .ror dst count => s.setGpr dst ⟨(s.gpr dst).toBitVec.rotateRight (count.toNat % 64)⟩
  | .lea dst base index scale => s.setGpr dst (s.gpr base + s.gpr index <<< .ofNat scale)
  | .wide op src =>
    (s.setGpr rax (s.gpr rax * s.gpr src)).setGpr rdx (op.apply (s.gpr rax) (s.gpr src))
  | .lane op dst left right => s.setYmm dst fun k => op.apply (s.ymm left k) (s.ymm right k)
  | .shift op dst src count => s.setYmm dst fun k => op.apply (s.ymm src k) count
  | .broadcast dst displacement => s.setYmm dst fun _ => loadRelative s.memory s.rip displacement

end Semantics

section Decoding

/-- A register number from its extension bit and three bits of an encoding. -/
def register (extended : Bool) (n : Nat) : Register := .ofNat 16 (n % 8 + 8 * extended.toNat)

/-- The fields of a `ModRM` or `SIB` byte. -/
def top (b : UInt8) : Nat := b.toNat / 64
def mid (b : UInt8) : Nat := b.toNat / 8 % 8
def bottom (b : UInt8) : Nat := b.toNat % 8

/-- Bit `n` of a prefix. -/
def bit (b : UInt8) (n : Nat) : Bool := b.toNat.testBit n

def aluOp (opcode : UInt8) : Option AluOp :=
  if opcode = 0x03 then some .add
  else if opcode = 0x2B then some .sub
  else if opcode = 0x33 then some .xor
  else if opcode = 0x8B then some .mov
  else none

def immOp (n : Nat) : Option ImmOp :=
  if n = 0 then some .add else if n = 6 then some .xor else none

def wideOp (n : Nat) : Option WideOp :=
  if n = 4 then some .mul else if n = 5 then some .imul else none

def decodeMovImm (dst : Register) : List UInt8 → Option (Instr × Nat)
  | i0 :: i1 :: i2 :: i3 :: i4 :: i5 :: i6 :: i7 :: _ =>
    some (.movImm dst (.ofNat (ofLe [i0, i1, i2, i3, i4, i5, i6, i7])), 10)
  | _ => none

/-- The opcodes with a `ModRM` byte. -/
def decodeModRM (r x b : Bool) : List UInt8 → Option (Instr × Nat)
  | 0x0F :: 0xAF :: m :: _ =>
    if top m = 3 then some (.alu .imul (register r (mid m)) (register b (bottom m)), 4) else none
  | 0x81 :: m :: i0 :: i1 :: i2 :: i3 :: _ =>
    if top m = 3 then (immOp (mid m)).map fun op =>
      (.aluImm op (register b (bottom m)) (.ofNat (ofLe [i0, i1, i2, i3])), 7) else none
  | 0x8D :: m :: sib :: _ =>
    if top m = 0 ∧ bottom m = 4 ∧ bottom sib ≠ 5 ∧ register x (mid sib) ≠ 4 then
      some (.lea (register r (mid m)) (register b (bottom sib)) (register x (mid sib))
        (.ofNat 4 (top sib)), 4)
    else none
  | 0xC1 :: m :: count :: _ =>
    if top m = 3 ∧ mid m = 1 then some (.ror (register b (bottom m)) count, 4) else none
  | 0xF7 :: m :: _ =>
    if top m = 3 then (wideOp (mid m)).map fun op => (.wide op (register b (bottom m)), 3) else none
  | opcode :: m :: _ =>
    if top m = 3 then (aluOp opcode).map fun op =>
      (.alu op (register r (mid m)) (register b (bottom m)), 3) else none
  | _ => none

/-- Behind the prefix `0100WRXB` with `W` set. -/
def decodeRex (r x b : Bool) : List UInt8 → Option (Instr × Nat)
  | opcode :: rest =>
    if opcode.toNat / 8 = 23 then decodeMovImm (register b (bottom opcode)) rest
    else decodeModRM r x b (opcode :: rest)
  | [] => none

def laneOp (map : Nat) (opcode : UInt8) : Option LaneOp :=
  if map = 1 then
    if opcode = 0xD4 then some .paddq
    else if opcode = 0xFB then some .psubq
    else if opcode = 0xEF then some .pxor
    else if opcode = 0xEB then some .por
    else if opcode = 0xDB then some .pand
    else if opcode = 0xF4 then some .pmuludq
    else none
  else if map = 2 ∧ opcode = 0x37 then some .pcmpgtq
  else none

def shiftOp (n : Nat) : Option ShiftOp :=
  if n = 2 then some .psrlq else if n = 6 then some .psllq else none

/-- Behind a `VEX` prefix of length `n` for 256-bit operands and the prefix `66`. -/
def decodeVex (n map : Nat) (r b : Bool) (v : Register) : List UInt8 → Option (Instr × Nat)
  | opcode :: m :: rest =>
    if map = 1 ∧ opcode = 0x73 then
      match rest with
      | count :: _ =>
        if top m = 3 then (shiftOp (mid m)).map fun op =>
          (.shift op v (register b (bottom m)) count, n + 3) else none
      | [] => none
    else if map = 2 ∧ opcode = 0x19 then
      match rest with
      | d0 :: d1 :: d2 :: d3 :: _ =>
        if top m = 0 ∧ bottom m = 5 ∧ v = 0 then
          some (.broadcast (register r (mid m)) (.ofNat (ofLe [d0, d1, d2, d3])), n + 6)
        else none
      | _ => none
    else if top m = 3 then (laneOp map opcode).map fun op =>
      (.lane op (register r (mid m)) v (register b (bottom m)), n + 2)
    else none
  | _ => none

/-- The register number that a `VEX` prefix holds inverted. -/
def inverted (b : UInt8) : Register := .ofNat 16 (15 - b.toNat / 8 % 16)

def decodeVex2 : List UInt8 → Option (Instr × Nat)
  | v :: rest =>
    if v.toNat % 8 = 5 then decodeVex 2 1 (!bit v 7) false (inverted v) rest else none
  | [] => none

def decodeVex3 : List UInt8 → Option (Instr × Nat)
  | v :: w :: rest =>
    if bit v 6 ∧ w.toNat % 8 = 5 ∧ bit w 7 = false then
      decodeVex 3 (v.toNat % 32) (!bit v 7) (!bit v 5) (inverted w) rest
    else none
  | _ => none

def decode : List UInt8 → Option (Instr × Nat)
  | p :: rest =>
    if p = 0xC5 then decodeVex2 rest
    else if p = 0xC4 then decodeVex3 rest
    else if p.toNat / 8 = 9 then decodeRex (bit p 2) (bit p 1) (bit p 0) rest
    else none
  | [] => none

end Decoding

def processor : Processor Instr State where
  window := 15
  decode := decode
  pc := State.rip
  memory := State.memory
  exec i n s := i.apply { s with rip := s.rip + n }

section Encoding

def extended (r : Register) : Bool := 8 ≤ r.val

def rex (r x b : Register) : UInt8 :=
  .ofNat (0x48 + 4 * (extended r).toNat + 2 * (extended x).toNat + (extended b).toNat)

/-- A `ModRM` or `SIB` byte from its fields. -/
def fields (t m b : Nat) : UInt8 := .ofNat (64 * t + 8 * (m % 8) + b % 8)

/-- The byte of a `VEX` prefix that holds a register inverted, the operand size and `66`. -/
def vexLast (high : Bool) (v : Register) : UInt8 := .ofNat (128 * high.toNat + 8 * (15 - v.val) + 5)

def vexFirst (r b : Bool) (map : Nat) : UInt8 := .ofNat (128 * r.toNat + 64 + 32 * b.toNat + map)

/-- The two-byte prefix where it suffices. -/
def vex (map : Nat) (r v b : Register) : List UInt8 :=
  if map = 1 ∧ !extended b then
    [0xC5, vexLast (!extended r) v]
  else
    [0xC4, vexFirst (!extended r) (!extended b) map, vexLast false v]

def AluOp.code : AluOp → List UInt8
  | .add => [0x03]
  | .sub => [0x2B]
  | .xor => [0x33]
  | .mov => [0x8B]
  | .imul => [0x0F, 0xAF]

def ImmOp.code : ImmOp → Nat
  | .add => 0
  | .xor => 6

def WideOp.code : WideOp → Nat
  | .mul => 4
  | .imul => 5

def LaneOp.code : LaneOp → UInt8
  | .paddq => 0xD4
  | .psubq => 0xFB
  | .pxor => 0xEF
  | .por => 0xEB
  | .pand => 0xDB
  | .pmuludq => 0xF4
  | .pcmpgtq => 0x37

def LaneOp.map : LaneOp → Nat
  | .pcmpgtq => 2
  | _ => 1

def ShiftOp.code : ShiftOp → Nat
  | .psrlq => 2
  | .psllq => 6

/-- The canonical bytes of an instruction. -/
def encode : Instr → List UInt8
  | .alu op dst src => rex dst 0 src :: op.code ++ [fields 3 dst src]
  | .aluImm op dst imm => [rex 0 0 dst, 0x81, fields 3 op.code dst] ++ le imm.toNat 4
  | .movImm dst imm => [rex 0 0 dst, 0xB8 + .ofNat (dst.val % 8)] ++ le imm.toNat 8
  | .ror dst count => [rex 0 0 dst, 0xC1, fields 3 1 dst, count]
  | .lea dst base index scale => [rex dst index base, 0x8D, fields 0 dst 4, fields scale index base]
  | .wide op src => [rex 0 0 src, 0xF7, fields 3 op.code src]
  | .lane op dst left right => vex op.map dst left right ++ [op.code, fields 3 dst right]
  | .shift op dst src count => vex 1 0 dst src ++ [0x73, fields 3 op.code src, count]
  | .broadcast dst displacement =>
    vex 2 dst 0 0 ++ [0x19, fields 0 dst 5] ++ le displacement.toNat 4

/-- The one form with a gap: a base or an index that the addressing byte cannot name. -/
def Instr.Encodable : Instr → Prop
  | .lea _ base index _ => base.val % 8 ≠ 5 ∧ index ≠ 4
  | _ => True

end Encoding

section RoundTrip

@[simp] theorem register_extended (r : Register) : register (extended r) (r.val % 8) = r := by
  revert r
  decide

section Fields

variable {t : Nat} (m b : Nat)

theorem top_fields (ht : t < 4) : top (fields t m b) = t := by
  rw [top, fields, UInt8.toNat_ofNat']
  omega

@[simp] theorem mid_fields : mid (fields t m b) = m % 8 := by
  rw [mid, fields, UInt8.toNat_ofNat']
  omega

@[simp] theorem bottom_fields : bottom (fields t m b) = b % 8 := by
  rw [bottom, fields, UInt8.toNat_ofNat']
  omega

@[simp] theorem top_fields_three : top (fields 3 m b) = 3 := top_fields m b (by decide)

@[simp] theorem top_fields_zero : top (fields 0 m b) = 0 := top_fields m b (by decide)

end Fields

/-- What the decoder reads off a `REX` prefix. -/
theorem rex_bits (r x b : Register) :
    rex r x b ≠ 0xC5 ∧ rex r x b ≠ 0xC4 ∧ (rex r x b).toNat / 8 = 9 ∧
      bit (rex r x b) 2 = extended r ∧ bit (rex r x b) 1 = extended x ∧
      bit (rex r x b) 0 = extended b := by
  unfold rex
  cases extended r <;> cases extended x <;> cases extended b <;> decide

theorem decode_rex (r x b : Register) (rest : List UInt8) :
    decode (rex r x b :: rest) = decodeRex (extended r) (extended x) (extended b) rest := by
  obtain ⟨h5, h4, h9, hr, hx, hb⟩ := rex_bits r x b
  simp only [decode, if_neg h5, if_neg h4, if_pos h9, hr, hx, hb]

theorem vexLast_bits (high : Bool) (v : Register) :
    (vexLast high v).toNat % 8 = 5 ∧ bit (vexLast high v) 7 = high ∧ inverted (vexLast high v) = v := by
  revert high v
  decide

theorem vexFirst_bits (r b : Bool) {map : Nat} (hmap : map = 1 ∨ map = 2) :
    bit (vexFirst r b map) 6 = true ∧ (vexFirst r b map).toNat % 32 = map ∧
      bit (vexFirst r b map) 7 = r ∧ bit (vexFirst r b map) 5 = b := by
  rcases hmap with rfl | rfl <;> cases r <;> cases b <;> decide

theorem decode_vex {map : Nat} (hmap : map = 1 ∨ map = 2) (r v b : Register) (rest : List UInt8) :
    decode (vex map r v b ++ rest) =
      decodeVex (vex map r v b).length map (extended r) (extended b) v rest := by
  unfold vex
  split
  · rename_i h
    obtain ⟨h5, h7, hv⟩ := vexLast_bits (!extended r) v
    have hb : extended b = false := by simpa using h.2
    simp [decode, decodeVex2, h5, h7, hv, h.1, hb]
  · obtain ⟨h5, h7, hv⟩ := vexLast_bits false v
    obtain ⟨h6, hm, hr, hb⟩ := vexFirst_bits (!extended r) (!extended b) hmap
    simp [decode, decodeVex3, h5, h7, hv, h6, hm, hr, hb]

theorem length_vex_le (map : Nat) (r v b : Register) : (vex map r v b).length ≤ 3 := by
  unfold vex
  split <;> simp

theorem ofLe_imm32 (imm : UInt32) : UInt32.ofNat (ofLe (le imm.toNat 4)) = imm := by
  have hlt : imm.toNat < 256 ^ 4 := imm.toNat_lt
  rw [ofLe_le, Nat.mod_eq_of_lt hlt, UInt32.ofNat_toNat]

theorem immOp_code (op : ImmOp) : immOp (op.code % 8) = some op := by cases op <;> rfl

theorem wideOp_code (op : WideOp) : wideOp (op.code % 8) = some op := by cases op <;> rfl

theorem shiftOp_code (op : ShiftOp) : shiftOp (op.code % 8) = some op := by cases op <;> rfl

theorem decodeVex_lane (op : LaneOp) (n : Nat) (r b : Bool) (v : Register) (m : UInt8)
    (rest : List UInt8) :
    decodeVex n op.map r b v (op.code :: m :: rest) =
      if top m = 3 then some (.lane op (register r (mid m)) v (register b (bottom m)), n + 2)
      else none := by
  cases op <;> rfl

theorem decodeVex_broadcast (n : Nat) (r b : Bool) (m : UInt8) (displacement : UInt32)
    (rest : List UInt8) :
    decodeVex n 2 r b 0 (0x19 :: m :: (le displacement.toNat 4 ++ rest)) =
      if top m = 0 ∧ bottom m = 5 then some (.broadcast (register r (mid m)) displacement, n + 6)
      else none := by
  conv_rhs => rw [← ofLe_imm32 displacement]
  simp [le, decodeVex]

theorem movImm_code (dst : Register) :
    (0xB8 + UInt8.ofNat (dst.val % 8)).toNat / 8 = 23 ∧
      bottom (0xB8 + UInt8.ofNat (dst.val % 8)) = dst.val % 8 := by
  revert dst
  decide

theorem decodeRex_aluImm (r x b : Bool) (m : UInt8) (imm : UInt32) (rest : List UInt8) :
    decodeRex r x b (0x81 :: m :: (le imm.toNat 4 ++ rest)) =
      if top m = 3 then (immOp (mid m)).map fun op =>
        (.aluImm op (register b (bottom m)) imm, 7) else none := by
  conv_rhs => rw [← ofLe_imm32 imm]
  rfl

theorem decodeRex_movImm (r x : Bool) (dst : Register) (imm : UInt64) (rest : List UInt8) :
    decodeRex r x (extended dst)
        ((0xB8 + UInt8.ofNat (dst.val % 8)) :: (le imm.toNat 8 ++ rest)) =
      some (.movImm dst imm, 10) := by
  obtain ⟨hopcode, hdst⟩ := movImm_code dst
  rw [decodeRex, if_pos hopcode, hdst, register_extended]
  conv_rhs => rw [← ofNat_ofLe_le imm]
  rfl

theorem straight (i : Instr) : processor.Straight i := by
  constructor <;> intro n s <;> cases i <;> rfl

/-- Every instruction decodes from its bytes, whatever follows them. -/
theorem encodes {i : Instr} (h : i.Encodable) : processor.Encodes (encode i) i := by
  cases i with
  | alu op dst src =>
    refine ⟨by cases op <;> simp [processor, encode, AluOp.code], fun rest => ?_⟩
    cases op <;> simp [processor, encode, AluOp.code, decode_rex, decodeRex, decodeModRM, aluOp]
  | aluImm op dst imm =>
    refine ⟨by simp [processor, encode], fun rest => ?_⟩
    simp [processor, encode, decode_rex, decodeRex_aluImm, immOp_code]
  | movImm dst imm =>
    refine ⟨by simp [processor, encode], fun rest => ?_⟩
    simp [processor, encode, decode_rex, decodeRex_movImm]
  | ror dst count =>
    refine ⟨by simp [processor, encode], fun rest => ?_⟩
    simp [processor, encode, decode_rex, decodeRex, decodeModRM]
  | lea dst base index scale =>
    refine ⟨by simp [processor, encode], fun rest => ?_⟩
    have hscale := top_fields index base scale.isLt
    simp [processor, encode, decode_rex, decodeRex, decodeModRM, hscale, h.1, h.2]
  | wide op src =>
    refine ⟨by simp [processor, encode], fun rest => ?_⟩
    simp [processor, encode, decode_rex, decodeRex, decodeModRM, wideOp_code]
  | lane op dst left right =>
    have hmap : op.map = 1 ∨ op.map = 2 := by cases op <;> decide
    have hlength := length_vex_le op.map dst left right
    refine ⟨by simp [processor, encode]; omega, fun rest => ?_⟩
    simp [processor, encode, decode_vex hmap, decodeVex_lane]
  | shift op dst src count =>
    have hlength := length_vex_le 1 0 dst src
    refine ⟨by simp [processor, encode]; omega, fun rest => ?_⟩
    simp [processor, encode, decode_vex, decodeVex, shiftOp_code]
  | broadcast dst displacement =>
    have hlength := length_vex_le 2 dst 0 0
    refine ⟨by simp [processor, encode]; omega, fun rest => ?_⟩
    simp [processor, encode, decode_vex, decodeVex_broadcast]

end RoundTrip

end VeloxHash.X86Machine
