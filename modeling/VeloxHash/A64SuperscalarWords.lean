import VeloxHash.A64Machine
import VeloxHash.JitCompilerA64

/-! The words that the A64 compiler emits for an instruction, and the operations that the processor
takes them for. -/

namespace VeloxHash.JitCompilerA64

open CodeBuffer Randomx BytecodeMachine Superscalar EncodedMachine A64Machine WordArithmetic

section Fields

/-- A word into which a field is put between two others. -/
theorem or_field {A L B m k : Nat} (hL : L < 2 ^ k) (hB : B * 2 ^ k < 2 ^ m) (hk : k ≤ m) :
    (A * 2 ^ m + L) ||| (B * 2 ^ k) = A * 2 ^ m + B * 2 ^ k + L := by
  have hlow : B * 2 ^ k + L < 2 ^ m := by
    obtain ⟨d, rfl⟩ := Nat.exists_eq_add_of_le hk
    rw [pow_add, Nat.mul_comm (2 ^ k)] at hB ⊢
    have hBd : B + 1 ≤ 2 ^ d := Nat.lt_of_mul_lt_mul_right hB
    calc B * 2 ^ k + L < B * 2 ^ k + 2 ^ k := Nat.add_lt_add_left hL _
      _ = (B + 1) * 2 ^ k := (Nat.succ_mul ..).symm
      _ ≤ 2 ^ d * 2 ^ k := Nat.mul_le_mul_right _ hBd
  rw [Nat.mul_comm A, Nat.two_pow_add_eq_or_of_lt (hL.trans_le (Nat.pow_le_pow_right (by decide) hk)),
    Nat.or_assoc, Nat.or_comm L, Nat.mul_comm B, ← Nat.two_pow_add_eq_or_of_lt hL,
    ← Nat.two_pow_add_eq_or_of_lt (Nat.mul_comm B _ ▸ hlow), Nat.add_assoc]

theorem toNat_or_shift {x v c : UInt32} (A L : Nat) {m : Nat} (hx : x.toNat = A * 2 ^ m + L)
    (hc : c.toNat < 32) (hL : L < 2 ^ c.toNat) (hv : v.toNat * 2 ^ c.toNat < 2 ^ m)
    (hm : c.toNat ≤ m) (hm32 : m ≤ 32) :
    (x ||| v <<< c).toNat = A * 2 ^ m + v.toNat * 2 ^ c.toNat + L := by
  have hlt := hv.trans_le (Nat.pow_le_pow_right (by decide) hm32)
  rw [UInt32.toNat_or, UInt32.toNat_shiftLeft, Nat.mod_eq_of_lt hc, Nat.shiftLeft_eq,
    Nat.mod_eq_of_lt hlt, hx, or_field hL hv hm]

end Fields

section Decoding

variable {imm : UInt32}

theorem register_decode : ∀ dst src : Fin 8,
    decodeWord (sub ||| UInt32.ofNat dst ||| UInt32.ofNat dst <<< 5 |||
        UInt32.ofNat src <<< 16).toNat =
      some (.register .sub (dst.castAdd 24) (dst.castAdd 24) (src.castAdd 24) 0) ∧
    decodeWord (eor ||| UInt32.ofNat dst ||| UInt32.ofNat dst <<< 5 |||
        UInt32.ofNat src <<< 16).toNat =
      some (.register .eor (dst.castAdd 24) (dst.castAdd 24) (src.castAdd 24) 0) ∧
    decodeWord (mul ||| UInt32.ofNat dst ||| UInt32.ofNat dst <<< 5 |||
        UInt32.ofNat src <<< 16).toNat =
      some (.madd (dst.castAdd 24) (dst.castAdd 24) (src.castAdd 24) 31) ∧
    decodeWord (umulh ||| UInt32.ofNat dst ||| UInt32.ofNat dst <<< 5 |||
        UInt32.ofNat src <<< 16).toNat =
      some (.high .umulh (dst.castAdd 24) (dst.castAdd 24) (src.castAdd 24)) ∧
    decodeWord (smulh ||| UInt32.ofNat dst ||| UInt32.ofNat dst <<< 5 |||
        UInt32.ofNat src <<< 16).toNat =
      some (.high .smulh (dst.castAdd 24) (dst.castAdd 24) (src.castAdd 24)) := by
  decide +kernel

theorem addShifted_decode : ∀ dst src : Fin 8, ∀ shift : Fin 4,
    decodeWord (add ||| UInt32.ofNat dst ||| UInt32.ofNat dst <<< 5 |||
        UInt32.ofNat shift <<< 10 ||| UInt32.ofNat src <<< 16).toNat =
      some (.register .add (dst.castAdd 24) (dst.castAdd 24) (src.castAdd 24) shift) := by
  decide +kernel

theorem ror_decode : ∀ dst : Fin 8, ∀ n : Fin 64,
    decodeWord (rorImm ||| UInt32.ofNat dst ||| UInt32.ofNat dst <<< 5 |||
        UInt32.ofNat n <<< 10 ||| UInt32.ofNat dst <<< 16).toNat =
      some (.extr (dst.castAdd 24) (dst.castAdd 24) (dst.castAdd 24) n) := by
  decide +kernel

/-- The operations with one of the registers for constants. -/
theorem constant_decode (dst : Fin 8) :
    decodeWord (add ||| UInt32.ofNat dst ||| UInt32.ofNat dst <<< 5 ||| 0x140000).toNat =
      some (.register .add (dst.castAdd 24) (dst.castAdd 24) 20 0) ∧
    decodeWord (eor ||| UInt32.ofNat dst ||| UInt32.ofNat dst <<< 5 ||| tmpReg <<< 16).toNat =
      some (.register .eor (dst.castAdd 24) (dst.castAdd 24) 12 0) ∧
    decodeWord (mul ||| UInt32.ofNat dst ||| UInt32.ofNat dst <<< 5 ||| tmpReg <<< 16).toNat =
      some (.madd (dst.castAdd 24) (dst.castAdd 24) 12 31) := by
  fin_cases dst <;> exact ⟨rfl, rfl, rfl⟩

theorem field_eq {w p : Nat} {r : Register} (h : w / 2 ^ p % 32 = r) : A64Machine.field w p = r := by
  rw [A64Machine.field, h]
  exact Fin.cast_val_eq_self r

theorem decodeWide_eq (op : WideOp) {w A v : Nat} {r : Register} (hw : w = A * 2 ^ 21 + v * 2 ^ 5 + r)
    (hv : v < 2 ^ 16) (hbit : A / 4 % 2 = 1) :
    decodeWide op w = some (.wide op r v (16 * (A % 4))) := by
  have hr := r.isLt
  have hrd : A64Machine.field w 0 = r := field_eq (by omega)
  have hset : w / 2 ^ 23 % 2 = 1 := by omega
  rw [decodeWide, if_pos hset, hrd, show w / 2 ^ 5 % 2 ^ 16 = v by omega,
    show w / 2 ^ 21 % 4 = A % 4 by omega]

theorem decodeWord_movn {w : Nat} (h : w / 2 ^ 24 = 0x92) : decodeWord w = decodeWide .movn w := by
  rw [decodeWord, if_neg (by omega), h]
  rfl

theorem decodeWord_movz {w : Nat} (h : w / 2 ^ 24 = 0xD2) : decodeWord w = decodeWide .movz w := by
  rw [decodeWord, if_neg (by omega), h]
  rfl

theorem decodeWord_movk {w : Nat} (h : w / 2 ^ 24 = 0xF2) : decodeWord w = decodeWide .movk w := by
  rw [decodeWord, if_neg (by omega), h]
  rfl

theorem decodeWord_addImm {w : Nat} (h : w / 2 ^ 24 = 0x91) :
    decodeWord w = if w / 2 ^ 23 % 2 = 0 then
      some (.addImm (A64Machine.field w 0) (A64Machine.field w 5)
        (w / 2 ^ 10 % 2 ^ 12 * if w / 2 ^ 22 % 2 = 1 then 2 ^ 12 else 1))
    else none := by
  rw [decodeWord, if_neg (by omega), h]
  rfl

theorem decodeWord_ldrLiteral {w : Nat} (h : w / 2 ^ 24 = 0x58) :
    decodeWord w = some (.ldrLiteral (A64Machine.field w 0) (signed 19 (w / 2 ^ 5 % 2 ^ 19) * 4)) := by
  rw [decodeWord, if_neg (by omega), h]
  rfl

theorem wide_word (r : Register) :
    (movz ||| UInt32.ofNat r).toNat = 0x694 * 2 ^ 21 + r ∧
    (movz ||| UInt32.ofNat r ||| (0x200000 : UInt32)).toNat = 0x695 * 2 ^ 21 + r ∧
    (movn ||| UInt32.ofNat r ||| (0x200000 : UInt32)).toNat = 0x495 * 2 ^ 21 + r ∧
    (movk ||| UInt32.ofNat r).toNat = 0x794 * 2 ^ 21 + r := by
  fin_cases r <;> decide

/-- A constant of sixteen bits behind a word that ends in a register. -/
theorem wide_decode (op : WideOp) {x v : UInt32} {A : Nat} {r : Register}
    (hx : x.toNat = A * 2 ^ 21 + r) (hv : v.toNat < 2 ^ 16) (hbit : A / 4 % 2 = 1)
    (hgroup : ∀ w, w / 2 ^ 24 = A / 8 → decodeWord w = decodeWide op w) :
    decodeWord (x ||| v <<< 5).toNat = some (.wide op r v.toNat (16 * (A % 4))) := by
  have hr := r.isLt
  have hword := toNat_or_shift (c := 5) A r hx (by decide) hr
    (show v.toNat * 2 ^ 5 < 2 ^ 21 by omega) (by decide) (by decide)
  change (x ||| v <<< 5).toNat = A * 2 ^ 21 + v.toNat * 2 ^ 5 + r at hword
  rw [hgroup _ (by omega), decodeWide_eq op hword hv hbit]

theorem movz_decode (r : Register) {v : UInt32} (hv : v.toNat < 2 ^ 16) :
    decodeWord (movz ||| UInt32.ofNat r ||| v <<< 5).toNat = some (.wide .movz r v.toNat 0) :=
  wide_decode .movz (wide_word r).1 hv (by decide) fun _ => decodeWord_movz

theorem movzHigh_decode (r : Register) {v : UInt32} (hv : v.toNat < 2 ^ 16) :
    decodeWord (movz ||| UInt32.ofNat r ||| (0x200000 : UInt32) ||| v <<< 5).toNat =
      some (.wide .movz r v.toNat 16) :=
  wide_decode .movz (wide_word r).2.1 hv (by decide) fun _ => decodeWord_movz

theorem movnHigh_decode (r : Register) {v : UInt32} (hv : v.toNat < 2 ^ 16) :
    decodeWord (movn ||| UInt32.ofNat r ||| (0x200000 : UInt32) ||| v <<< 5).toNat =
      some (.wide .movn r v.toNat 16) :=
  wide_decode .movn (wide_word r).2.2.1 hv (by decide) fun _ => decodeWord_movn

theorem movk_decode (r : Register) {v : UInt32} (hv : v.toNat < 2 ^ 16) :
    decodeWord (movk ||| UInt32.ofNat r ||| v <<< 5).toNat = some (.wide .movk r v.toNat 0) :=
  wide_decode .movk (wide_word r).2.2.2 hv (by decide) fun _ => decodeWord_movk

theorem addImm_word (dst : Fin 8) :
    (addImmLo ||| UInt32.ofNat dst ||| UInt32.ofNat dst <<< 5).toNat = 0x244 * 2 ^ 22 + dst * 33 ∧
    (addImmHi ||| UInt32.ofNat dst ||| UInt32.ofNat dst <<< 5).toNat = 0x245 * 2 ^ 22 + dst * 33 := by
  fin_cases dst <;> decide

theorem addImm_decode (dst : Fin 8) {v : UInt32} (hv : v.toNat < 2 ^ 12) :
    decodeWord (addImmLo ||| UInt32.ofNat dst ||| UInt32.ofNat dst <<< 5 ||| v <<< 10).toNat =
      some (.addImm (dst.castAdd 24) (dst.castAdd 24) v.toNat) ∧
    decodeWord (addImmHi ||| UInt32.ofNat dst ||| UInt32.ofNat dst <<< 5 ||| v <<< 10).toNat =
      some (.addImm (dst.castAdd 24) (dst.castAdd 24) (v.toNat * 2 ^ 12)) := by
  have hd := dst.isLt
  have hdecode {x : UInt32} {A : Nat} (hx : x.toNat = A * 2 ^ 22 + dst * 33) (hA : A / 2 = 0x122) :
      decodeWord (x ||| v <<< 10).toNat = some (.addImm (dst.castAdd 24) (dst.castAdd 24)
        (v.toNat * if A % 2 = 1 then 2 ^ 12 else 1)) := by
    have hword := toNat_or_shift (c := 10) A (dst * 33) hx (by decide)
      (show (dst : Nat) * 33 < 2 ^ 10 by omega) (show v.toNat * 2 ^ 10 < 2 ^ 22 by omega) (by decide)
      (by decide)
    change (x ||| v <<< 10).toNat = A * 2 ^ 22 + v.toNat * 2 ^ 10 + dst * 33 at hword
    generalize (x ||| v <<< 10).toNat = w at hword ⊢
    have h5 : w / 2 ^ 5 = A * 2 ^ 17 + v.toNat * 2 ^ 5 + dst := by omega
    have h10 : w / 2 ^ 10 = A * 2 ^ 12 + v.toNat := by omega
    have h22 : w / 2 ^ 22 = A := by omega
    have h23 : w / 2 ^ 23 = 0x122 := by omega
    have h24 : w / 2 ^ 24 = 0x91 := by omega
    have hrd : A64Machine.field w 0 = dst.castAdd 24 := field_eq (show _ = (dst : Nat) by omega)
    have hrn : A64Machine.field w 5 = dst.castAdd 24 := field_eq (show _ = (dst : Nat) by omega)
    rw [decodeWord_addImm h24, h23, if_pos rfl, hrd, hrn, h10, h22,
      show (A * 2 ^ 12 + v.toNat) % 2 ^ 12 = v.toNat by omega]
  exact ⟨by rw [hdecode (addImm_word dst).1 (by decide), if_neg (by decide), Nat.mul_one],
    by rw [hdecode (addImm_word dst).2 (by decide), if_pos (by decide)]⟩

theorem ldrLiteral_decode {v : UInt32} (hv : v.toNat < 2 ^ 19) :
    decodeWord (ldrLiteral ||| tmpReg ||| v <<< 5).toNat =
      some (.ldrLiteral 12 (signed 19 v.toNat * 4)) := by
  have hword := toNat_or_shift (x := ldrLiteral ||| tmpReg) (c := 5) (m := 24) 0x58 12 (by decide)
    (by decide) (by decide) (show v.toNat * 2 ^ 5 < 2 ^ 24 by omega) (by decide) (by decide)
  change (ldrLiteral ||| tmpReg ||| v <<< 5).toNat = 0x58 * 2 ^ 24 + v.toNat * 2 ^ 5 + 12 at hword
  rw [decodeWord_ldrLiteral (by omega), show A64Machine.field (ldrLiteral ||| tmpReg ||| v <<< 5).toNat 0 = 12 from field_eq (by omega),
    show (ldrLiteral ||| tmpReg ||| v <<< 5).toNat / 2 ^ 5 % 2 ^ 19 = v.toNat by omega]

theorem b_decode {n : Nat} (hn : n < 2 ^ 25) :
    decodeWord (b ||| UInt32.ofNat n).toNat = some (.b (n * 4)) := by
  have hword : (b ||| UInt32.ofNat n).toNat = 5 * 2 ^ 26 + n := by
    rw [UInt32.toNat_or, UInt32.toNat_ofNat', Nat.mod_eq_of_lt (by omega), Nat.mul_comm,
      Nat.two_pow_add_eq_or_of_lt (show n < 2 ^ 26 by omega)]
    rfl
  rw [decodeWord, if_pos (by omega), show (b ||| UInt32.ofNat n).toNat % 2 ^ 26 = n by omega, signed,
    if_pos (by omega)]

end Decoding

section Emission

def movWords (dst imm : UInt32) : List UInt32 :=
  if imm < 0x10000 then [movz ||| dst ||| imm <<< 5]
  else
    [if isNegative imm then movn ||| dst ||| (0x200000 : UInt32) ||| (~~~imm >>> 16) <<< 5
      else movz ||| dst ||| (0x200000 : UInt32) ||| (imm >>> 16) <<< 5,
      movk ||| dst ||| (imm &&& 0xFFFF) <<< 5]

def addWords (dst src imm : UInt32) : List UInt32 :=
  if imm < 0x1000000 then
    if imm &&& 0xFFF ≠ 0 ∧ imm >>> 12 ≠ 0 then
      [addImmLo ||| dst ||| src <<< 5 ||| (imm &&& 0xFFF) <<< 10,
        addImmHi ||| dst ||| dst <<< 5 ||| (imm >>> 12) <<< 10]
    else if imm &&& 0xFFF ≠ 0 then [addImmLo ||| dst ||| src <<< 5 ||| (imm &&& 0xFFF) <<< 10]
    else [addImmHi ||| dst ||| src <<< 5 ||| (imm >>> 12) <<< 10]
  else movWords 20 imm ++ [add ||| dst ||| src <<< 5 ||| 0x140000]

/-- The literal lies `distance` bytes in front of the load. -/
def literalOffset (distance : Nat) : UInt32 := (0 - UInt32.ofNat distance) / 4 &&& 0x7FFFF

def instrWords (distance : Nat) (instr : Instruction) : List UInt32 :=
  let src := UInt32.ofNat instr.src
  let dst := UInt32.ofNat instr.dst
  match superscalarType instr with
  | some .isubR => [sub ||| dst ||| dst <<< 5 ||| src <<< 16]
  | some .ixorR => [eor ||| dst ||| dst <<< 5 ||| src <<< 16]
  | some .iaddRs =>
    [add ||| dst ||| dst <<< 5 ||| UInt32.ofNat instr.getModShift <<< 10 ||| src <<< 16]
  | some .imulR => [mul ||| dst ||| dst <<< 5 ||| src <<< 16]
  | some .irorC => [rorImm ||| dst ||| dst <<< 5 ||| (instr.imm32 &&& 63) <<< 10 ||| dst <<< 16]
  | some .iaddC7 | some .iaddC8 | some .iaddC9 => addWords dst dst instr.imm32
  | some .ixorC7 | some .ixorC8 | some .ixorC9 =>
    movWords tmpReg instr.imm32 ++ [eor ||| dst ||| dst <<< 5 ||| tmpReg <<< 16]
  | some .imulhR => [umulh ||| dst ||| dst <<< 5 ||| src <<< 16]
  | some .ismulhR => [smulh ||| dst ||| dst <<< 5 ||| src <<< 16]
  | some .imulRcp =>
    [ldrLiteral ||| tmpReg ||| literalOffset distance <<< 5,
      mul ||| dst ||| dst <<< 5 ||| tmpReg <<< 16]
  | none => []

def literalBytes (instr : Instruction) : List UInt8 :=
  if isRcp instr then le (randomxReciprocal instr.imm32).toNat 8 else []

/-- The instructions of a program, with the distance from its next literal. -/
def bodyWords : Nat → List Instruction → List UInt32
  | _, [] => []
  | distance, instr :: rest =>
    instrWords distance instr ++ bodyWords
      (distance + 4 * (instrWords distance instr).length - (literalBytes instr).length) rest

def poolBytes (prog : List Instruction) : List UInt8 := prog.flatMap literalBytes

def jumpWord (prog : List Instruction) : UInt32 :=
  b ||| UInt32.ofNat ((4 + (poolBytes prog).length) / 4)

def programBytes (prog : List Instruction) : List UInt8 :=
  encode (jumpWord prog) ++ poolBytes prog ++
    assemble encode (bodyWords (poolBytes prog).length prog)

namespace Emitter

variable (e : Emitter)

theorem append_append (xs ys : List UInt8) : (e.append xs).append ys = e.append (xs ++ ys) := by
  unfold append
  dsimp only
  rw [← Nat.add_assoc, write_append, List.length_append, Nat.add_assoc e.codePos]

theorem append_nil : e.append [] = e := by
  unfold append
  rw [show write e.memory (e.code + e.codePos) [] = e.memory from funext fun a => by
    unfold write; split <;> rfl]
  rfl

theorem append_emit32 (ws : List UInt32) (v : UInt32) :
    (e.append (assemble encode ws)).emit32 v = e.append (assemble encode (ws ++ [v])) := by
  rw [emit32, append_append, assemble_append, assemble_singleton]
  rfl

theorem emit32_eq (v : UInt32) : e.emit32 v = e.append (assemble encode [v]) := by
  rw [assemble_singleton]
  rfl

theorem emit32_emit32 (v w : UInt32) : (e.emit32 v).emit32 w = e.append (assemble encode [v, w]) := by
  rw [emit32_eq e v, append_emit32]
  rfl

end Emitter

variable {imulRcpLiteralsEnd : Nat} {e : Emitter} (hfull : ¬e.num32bitLiterals < 64)

include hfull

theorem emitMovImmediate_eq (dst imm : UInt32) :
    emitMovImmediate imulRcpLiteralsEnd dst imm e = e.append (assemble encode (movWords dst imm)) := by
  unfold emitMovImmediate movWords
  by_cases hsmall : imm < 0x10000
  · rw [if_pos hsmall, if_pos hsmall, Emitter.emit32_eq]
  · rw [if_neg hsmall, if_neg hsmall, if_neg hfull]
    cases isNegative imm <;> exact e.emit32_emit32 ..

theorem emitAddImmediate_eq (dst src imm : UInt32) :
    emitAddImmediate imulRcpLiteralsEnd dst src imm e =
      e.append (assemble encode (addWords dst src imm)) := by
  unfold emitAddImmediate addWords
  dsimp only
  split
  · split
    · rw [Emitter.emit32_emit32]
    · split <;> rw [Emitter.emit32_eq]
  · rw [emitMovImmediate_eq hfull, Emitter.append_emit32]

/-- The position of the next literal stays behind the code by a distance that only the
instructions in between decide. -/
theorem emitInstruction_eq (instr : Instruction) {literalPos distance : Nat}
    (hdistance : literalPos + distance = e.codePos) :
    emitInstruction imulRcpLiteralsEnd instr (literalPos, e) =
      (literalPos + (literalBytes instr).length,
        e.append (assemble encode (instrWords distance instr))) := by
  have hoffset : (UInt32.ofNat literalPos - UInt32.ofNat e.codePos) / 4 &&& 0x7FFFF =
      literalOffset distance := by
    rw [literalOffset, ← hdistance]
    congr 2
    apply UInt32.toNat.inj
    rw [UInt32.toNat_sub, UInt32.toNat_sub, UInt32.toNat_ofNat', UInt32.toNat_ofNat',
      UInt32.toNat_ofNat', UInt32.toNat_zero]
    omega
  unfold emitInstruction instrWords literalBytes isRcp
  dsimp only
  rw [hoffset]
  cases superscalarType instr with
  | none => exact Prod.ext rfl e.append_nil.symm
  | some type =>
    cases type with
    | iaddC7 | iaddC8 | iaddC9 => exact Prod.ext rfl (emitAddImmediate_eq hfull ..)
    | ixorC7 | ixorC8 | ixorC9 =>
      refine Prod.ext rfl ?_
      dsimp only
      rw [emitMovImmediate_eq hfull, Emitter.append_emit32]
    | imulRcp => exact Prod.ext rfl (Emitter.emit32_emit32 ..)
    | _ => exact Prod.ext rfl (Emitter.emit32_eq ..)

theorem emitBody_eq (prog : List Instruction) {literalPos distance : Nat}
    (hdistance : literalPos + distance = e.codePos) :
    (prog.foldl (fun s instr => emitInstruction imulRcpLiteralsEnd instr s) (literalPos, e)).2 =
      e.append (assemble encode (bodyWords distance prog)) := by
  induction prog generalizing e literalPos distance with
  | nil => exact e.append_nil.symm
  | cons instr rest ih =>
    have hlength : (literalBytes instr).length ≤ 4 * (instrWords distance instr).length := by
      unfold literalBytes isRcp instrWords
      split
      · rename_i hrcp
        rw [eq_of_beq hrcp]
        exact (length_le ..).le
      · exact Nat.zero_le _
    rw [List.foldl_cons, emitInstruction_eq hfull instr hdistance, ih, Emitter.append_append,
      bodyWords, assemble_append]
    · exact hfull
    · change _ = e.codePos + _
      rw [length_assemble]
      omega

omit hfull in
theorem emitPool_eq (prog : List Instruction) :
    prog.foldl emitLiteral e = e.append (poolBytes prog) := by
  induction prog generalizing e with
  | nil => exact e.append_nil.symm
  | cons instr rest ih =>
    have hhead : emitLiteral e instr = e.append (literalBytes instr) := by
      unfold emitLiteral literalBytes
      split
      · rfl
      · exact e.append_nil.symm
    rw [List.foldl_cons, ih, hhead, Emitter.append_append]
    rfl

/-- A program is its bytes, wherever it is put. -/
theorem emitProgram_eq (prog : List Instruction) :
    emitProgram imulRcpLiteralsEnd prog e = e.append (programBytes prog) := by
  have hpatch : ({ e with codePos := e.codePos + 4 }.append (poolBytes prog)).patch32 e.codePos
      (jumpWord prog) = e.append (encode (jumpWord prog) ++ poolBytes prog) := by
    unfold Emitter.patch32 Emitter.append
    dsimp only
    rw [← Nat.add_assoc, List.length_append, length_encode, Nat.add_assoc e.codePos]
    congr 1
    exact write_behind e.memory (e.code + e.codePos) (encode (jumpWord prog)) (poolBytes prog)
  have hjump : ({ e with codePos := e.codePos + 4 }.append (poolBytes prog)).codePos - e.codePos =
      4 + (poolBytes prog).length := by
    unfold Emitter.append
    dsimp only
    omega
  unfold emitProgram
  dsimp only
  rw [emitPool_eq, hjump]
  change (prog.foldl _ (e.codePos + 4, Emitter.patch32 _ e.codePos (jumpWord prog))).2 = _
  have hbody := @emitBody_eq imulRcpLiteralsEnd (e.append (encode (jumpWord prog) ++ poolBytes prog))
    hfull prog (e.codePos + 4) (poolBytes prog).length <| by
      change _ = e.codePos + _
      rw [List.length_append, length_encode, Nat.add_assoc]
  rw [hpatch, hbody, Emitter.append_append]
  rfl

end Emission

section Sizes

theorem length_movWords (dst imm : UInt32) : (movWords dst imm).length ≤ 2 := by
  unfold movWords
  split <;> simp

theorem length_addWords (dst src imm : UInt32) : (addWords dst src imm).length ≤ 3 := by
  have hmov := length_movWords 20 imm
  unfold addWords
  split
  · split
    · simp
    · split <;> simp
  · rw [List.length_append, List.length_singleton]
    omega

/-- Sixteen bytes for an instruction and its literal. -/
theorem length_instruction (distance : Nat) (instr : Instruction) :
    4 * (instrWords distance instr).length + (literalBytes instr).length ≤ 16 := by
  unfold instrWords literalBytes isRcp
  dsimp only
  cases superscalarType instr with
  | none => exact Nat.zero_le 16
  | some type =>
    cases type with
    | iaddC7 | iaddC8 | iaddC9 =>
      have hadd := length_addWords (.ofNat instr.dst) (.ofNat instr.dst) instr.imm32
      change 4 * (addWords ..).length + 0 ≤ 16
      omega
    | ixorC7 | ixorC8 | ixorC9 =>
      have hmov := length_movWords tmpReg instr.imm32
      change 4 * (movWords tmpReg instr.imm32 ++ [_]).length + 0 ≤ 16
      rw [List.length_append, List.length_singleton]
      omega
    | imulRcp =>
      change 4 * 2 + (le _ 8).length ≤ 16
      rw [length_le]
    | _ => exact (by decide : 4 * 1 + 0 ≤ 16)

theorem length_body (distance : Nat) (prog : List Instruction) :
    4 * (bodyWords distance prog).length + (poolBytes prog).length ≤ 16 * prog.length := by
  induction prog generalizing distance with
  | nil => exact Nat.le_refl 0
  | cons instr rest ih =>
    have hinstr := length_instruction distance instr
    have hrest := ih (distance + 4 * (instrWords distance instr).length - (literalBytes instr).length)
    rw [bodyWords, poolBytes, List.flatMap_cons, ← poolBytes, List.length_append, List.length_append,
      List.length_cons]
    omega

theorem length_programBytes (prog : List Instruction) :
    (programBytes prog).length ≤ 4 + 16 * prog.length := by
  have hbody := length_body (poolBytes prog).length prog
  rw [programBytes, List.length_append, List.length_append, length_encode, length_assemble]
  omega

end Sizes

end VeloxHash.JitCompilerA64
