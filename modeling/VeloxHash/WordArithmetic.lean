import Mathlib.Tactic

/-! Products of 64-bit words from products of their 32-bit halves. The high half needs the
carry of an inner sum, which a processor without unsigned comparison gets by comparing
with flipped sign bits. Last, the two shifts that make a rotation. -/

namespace VeloxHash.WordArithmetic

/-- The signed number in a field of so many bits. -/
def signed (bits n : Nat) : Int := if n < 2 ^ (bits - 1) then n else n - 2 ^ bits

/-- The high half of the unsigned product. -/
def high (a b : UInt64) : UInt64 := .ofNat (a.toNat * b.toNat / 2 ^ 64)

/-- The high half of the signed product. -/
def highSigned (a b : UInt64) : UInt64 :=
  ⟨BitVec.ofInt 64 ((a.toBitVec.toInt * b.toBitVec.toInt) >>> (64 : Nat))⟩

/-- The product of the low halves, which always fits. -/
def narrow (a b : UInt64) : UInt64 := (a &&& 0xFFFFFFFF) * (b &&& 0xFFFFFFFF)

/-- All ones where the first word is greater as a signed number. -/
def greater (a b : UInt64) : UInt64 :=
  if b.toBitVec.toInt < a.toBitVec.toInt then 0xFFFFFFFFFFFFFFFF else 0

def signBit : UInt64 := 0x8000000000000000
def carryBit : UInt64 := 0x100000000

/-- The low half of the product, from the three partial products that reach it. -/
def lowFromHalves (a b : UInt64) : UInt64 :=
  narrow a b + narrow (b >>> 32) a <<< 32 + narrow (a >>> 32) b <<< 32

/-- The sum of the middle products and what the low product carries into them. -/
def middle (a b : UInt64) : UInt64 := narrow (a >>> 32) b + narrow a (b >>> 32) + narrow a b >>> 32

/-- The high half of the product; the sum in the middle has wrapped when it is below one
of its terms. -/
def highFromHalves (a b : UInt64) : UInt64 :=
  (greater (narrow (a >>> 32) b ^^^ signBit) (middle a b ^^^ signBit) &&& carryBit) +
    narrow (a >>> 32) (b >>> 32) + middle a b >>> 32

section Halves

variable (a b : UInt64)

theorem toNat_shr : (a >>> 32).toNat = a.toNat / 2 ^ 32 := by
  rw [UInt64.toNat_shiftRight, Nat.shiftRight_eq_div_pow]
  rfl

theorem toNat_shl : (a <<< 32).toNat = a.toNat * 2 ^ 32 % 2 ^ 64 := by
  rw [UInt64.toNat_shiftLeft, Nat.shiftLeft_eq]
  rfl

theorem toNat_low : (a &&& 0xFFFFFFFF).toNat = a.toNat % 2 ^ 32 := by
  rw [UInt64.toNat_and, show (0xFFFFFFFF : UInt64).toNat = 2 ^ 32 - 1 from rfl,
    Nat.and_two_pow_sub_one_eq_mod]

theorem mul_le {x y : Nat} (hx : x < 2 ^ 32) (hy : y < 2 ^ 32) : x * y ≤ (2 ^ 32 - 1) * (2 ^ 32 - 1) :=
  Nat.mul_le_mul (by omega) (by omega)

theorem toNat_narrow : (narrow a b).toNat = a.toNat % 2 ^ 32 * (b.toNat % 2 ^ 32) := by
  have hle := mul_le (Nat.mod_lt a.toNat (by decide : 0 < 2 ^ 32)) (Nat.mod_lt b.toNat (by decide : 0 < 2 ^ 32))
  rw [narrow, UInt64.toNat_mul, toNat_low, toNat_low, Nat.mod_eq_of_lt (by omega)]

theorem shr_mod : a.toNat / 2 ^ 32 % 2 ^ 32 = a.toNat / 2 ^ 32 :=
  Nat.mod_eq_of_lt (by have := a.toNat_lt; omega)

/-- The product in base `2 ^ 32`. -/
theorem mul_split :
    a.toNat * b.toNat =
      a.toNat / 2 ^ 32 * (b.toNat / 2 ^ 32) * 2 ^ 64 +
        (a.toNat / 2 ^ 32 * (b.toNat % 2 ^ 32) + a.toNat % 2 ^ 32 * (b.toNat / 2 ^ 32)) * 2 ^ 32 +
        a.toNat % 2 ^ 32 * (b.toNat % 2 ^ 32) := by
  conv_lhs => rw [← Nat.div_add_mod a.toNat (2 ^ 32), ← Nat.div_add_mod b.toNat (2 ^ 32)]
  ring

theorem lowFromHalves_eq : lowFromHalves a b = a * b := by
  apply UInt64.toNat.inj
  simp only [lowFromHalves, UInt64.toNat_add, UInt64.toNat_mul, toNat_shl, toNat_narrow, toNat_shr,
    shr_mod, mul_split a b]
  rw [Nat.mul_comm (b.toNat / 2 ^ 32)]
  generalize a.toNat / 2 ^ 32 * (b.toNat / 2 ^ 32) = s
  generalize a.toNat / 2 ^ 32 * (b.toNat % 2 ^ 32) = q
  generalize a.toNat % 2 ^ 32 * (b.toNat / 2 ^ 32) = r
  generalize a.toNat % 2 ^ 32 * (b.toNat % 2 ^ 32) = p
  omega

/-- Flipping the sign bit moves the signed numbers to the unsigned ones in their order. -/
theorem toInt_xor_signBit : (a ^^^ signBit).toBitVec.toInt = a.toNat - 2 ^ 63 := by
  have ha := a.toNat_lt
  have hdiv : (a.toNat ^^^ 2 ^ 63) / 2 ^ 63 = 1 - a.toNat / 2 ^ 63 := by
    rw [Nat.xor_div_two_pow, Nat.div_self (by decide)]
    obtain h | h : a.toNat / 2 ^ 63 = 0 ∨ a.toNat / 2 ^ 63 = 1 := by omega
    all_goals rw [h]; rfl
  have hmod : (a.toNat ^^^ 2 ^ 63) % 2 ^ 63 = a.toNat % 2 ^ 63 := by
    rw [Nat.xor_mod_two_pow, Nat.mod_self, Nat.xor_zero]
  have hxor : (a ^^^ signBit).toBitVec.toNat = a.toNat ^^^ 2 ^ 63 := UInt64.toNat_xor a signBit
  rw [BitVec.toInt_eq_toNat_cond, hxor]
  split <;> omega

theorem greater_flipped :
    greater (a ^^^ signBit) (b ^^^ signBit) = if b.toNat < a.toNat then 0xFFFFFFFFFFFFFFFF else 0 := by
  simp only [greater, toInt_xor_signBit]
  congr 1
  apply propext
  omega

theorem toNat_carry {c : Prop} [Decidable c] :
    ((if c then 0xFFFFFFFFFFFFFFFF else 0 : UInt64) &&& carryBit).toNat = if c then 2 ^ 32 else 0 := by
  split <;> rfl

theorem highFromHalves_eq : highFromHalves a b = high a b := by
  have hal := Nat.mod_lt a.toNat (by decide : 0 < 2 ^ 32)
  have hbl := Nat.mod_lt b.toNat (by decide : 0 < 2 ^ 32)
  have hah : a.toNat / 2 ^ 32 < 2 ^ 32 := by have := a.toNat_lt; omega
  have hbh : b.toNat / 2 ^ 32 < 2 ^ 32 := by have := b.toNat_lt; omega
  have hs := mul_le hah hbh
  have hq := mul_le hah hbl
  have hr := mul_le hal hbh
  have hp := mul_le hal hbl
  apply UInt64.toNat.inj
  simp only [highFromHalves, high, middle, greater_flipped, UInt64.toNat_add, toNat_carry, toNat_shr,
    toNat_narrow, shr_mod, mul_split a b, UInt64.toNat_ofNat']
  generalize a.toNat / 2 ^ 32 * (b.toNat / 2 ^ 32) = s at *
  generalize a.toNat / 2 ^ 32 * (b.toNat % 2 ^ 32) = q at *
  generalize a.toNat % 2 ^ 32 * (b.toNat / 2 ^ 32) = r at *
  generalize a.toNat % 2 ^ 32 * (b.toNat % 2 ^ 32) = p at *
  split_ifs <;> omega

/-- The sign of a word as a factor. -/
def negative : Nat := a.toNat / 2 ^ 63

theorem negative_le : negative a ≤ 1 := by
  have := a.toNat_lt
  unfold negative
  omega

theorem toInt_eq : a.toBitVec.toInt = (a.toNat : Int) - negative a * 2 ^ 64 := by
  have ha := a.toNat_lt
  unfold negative
  rw [BitVec.toInt_eq_toNat_cond]
  split <;> simp only [UInt64.toNat_toBitVec] at * <;> omega

theorem toNat_greater_and : (greater 0 a &&& b).toNat = negative a * b.toNat := by
  have hsign : a.toBitVec.toInt < (0 : UInt64).toBitVec.toInt ↔ negative a = 1 := by
    have ha := a.toNat_lt
    have hn := negative_le a
    rw [toInt_eq, show (0 : UInt64).toBitVec.toInt = 0 from rfl]
    unfold negative at *
    omega
  have hall : (0xFFFFFFFFFFFFFFFF &&& b).toNat = b.toNat := by
    rw [UInt64.toNat_and, Nat.and_comm, show (0xFFFFFFFFFFFFFFFF : UInt64).toNat = 2 ^ 64 - 1 from rfl,
      Nat.and_two_pow_sub_one_eq_mod, Nat.mod_eq_of_lt b.toNat_lt]
  have hn := negative_le a
  unfold greater
  split <;> rename_i h <;> rw [hsign] at h
  · rw [hall, h, Nat.one_mul]
  · rw [show negative a = 0 by omega, UInt64.zero_and, Nat.zero_mul]
    rfl

/-- The signed product from the unsigned one: each negative factor takes the other off. -/
theorem highSigned_eq :
    highSigned a b = high a b - (greater 0 a &&& b) - (greater 0 b &&& a) := by
  have hdiv : (a.toBitVec.toInt * b.toBitVec.toInt) >>> (64 : Nat) =
      ((a.toNat * b.toNat / 2 ^ 64 : Nat) : Int) - (negative a * b.toNat : Nat) -
        (negative b * a.toNat : Nat) + negative a * negative b * 2 ^ 64 := by
    have hsplit : a.toBitVec.toInt * b.toBitVec.toInt =
        a.toNat * b.toNat + (-(negative a * b.toNat) - negative b * a.toNat +
          negative a * negative b * 2 ^ 64) * 2 ^ 64 := by
      rw [toInt_eq, toInt_eq]
      ring
    rw [Int.shiftRight_eq_div_pow, hsplit, Nat.cast_pow, Nat.cast_ofNat,
      Int.add_mul_ediv_right _ _ (by decide)]
    push_cast
    ring
  have hhigh : a.toNat * b.toNat / 2 ^ 64 < 2 ^ 64 :=
    Nat.div_lt_of_lt_mul (Nat.mul_lt_mul'' a.toNat_lt b.toNat_lt)
  apply UInt64.toNat.inj
  rw [UInt64.toNat_sub, UInt64.toNat_sub, toNat_greater_and, toNat_greater_and, high,
    UInt64.toNat_ofNat', Nat.mod_eq_of_lt hhigh]
  have hx := negative_le a
  have hy := negative_le b
  have hxb : negative a * b.toNat ≤ b.toNat := by nlinarith
  have hya : negative b * a.toNat ≤ a.toNat := by nlinarith
  have ha := a.toNat_lt
  have hb := b.toNat_lt
  change (BitVec.ofInt 64 ((a.toBitVec.toInt * b.toBitVec.toInt) >>> (64 : Nat))).toNat = _
  rw [BitVec.toNat_ofInt, hdiv]
  generalize negative a * b.toNat = x at *
  generalize negative b * a.toNat = y at *
  generalize ((negative a : Int) * negative b) = z
  generalize a.toNat * b.toNat / 2 ^ 64 = h at *
  omega

end Halves

section Rotations

/-- The two halves of a rotation, which a rotation by nothing has twice. -/
theorem rotation_halves (x k : Nat) (hx : x < 2 ^ 32) (hk : k < 32) :
    x <<< k % 2 ^ 32 ||| x >>> ((32 - k) % 32) = x <<< k % 2 ^ 32 ||| x >>> (32 - k) := by
  rcases Nat.eq_zero_or_pos k with rfl | hpos
  · have hnone : x >>> 32 = 0 := by rw [Nat.shiftRight_eq_div_pow, Nat.div_eq_of_lt hx]
    rw [Nat.sub_zero, Nat.mod_self, Nat.shiftRight_zero, Nat.shiftLeft_zero, Nat.mod_eq_of_lt hx,
      hnone, Nat.or_self, Nat.or_zero]
  · rw [Nat.mod_eq_of_lt (by omega : 32 - k < 32)]

theorem rotation_halves_right (x k : Nat) (hx : x < 2 ^ 32) (hk : k < 32) :
    x >>> k ||| x <<< ((32 - k) % 32) % 2 ^ 32 = x >>> k ||| x <<< (32 - k) % 2 ^ 32 := by
  rcases Nat.eq_zero_or_pos k with rfl | hpos
  · have hnone : x <<< 32 % 2 ^ 32 = 0 := by rw [Nat.shiftLeft_eq, Nat.mul_mod_left]
    rw [Nat.sub_zero, Nat.mod_self, Nat.shiftRight_zero, Nat.shiftLeft_zero, Nat.mod_eq_of_lt hx,
      hnone, Nat.or_self, Nat.or_zero]
  · rw [Nat.mod_eq_of_lt (by omega : 32 - k < 32)]

end Rotations

end VeloxHash.WordArithmetic
