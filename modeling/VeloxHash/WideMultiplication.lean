import VeloxHash.WordArithmetic

/-! Products of 64-bit words where no wider type is at hand: `__umul128` of the 32-bit
platforms and the portable `mulh` and `smulh`. The first compares to find its carries, the
second splits every partial product so that none can occur. -/

namespace VeloxHash.WideMultiplication

open WordArithmetic

/-- What is returned, then what is stored to `product_hi`. -/
def umul128 (multiplier multiplicand : UInt64) : UInt64 × UInt64 :=
  let a := multiplier >>> 32
  let b := multiplier &&& 0xFFFFFFFF
  let c := multiplicand >>> 32
  let d := multiplicand &&& 0xFFFFFFFF
  let ad := a * d
  let bd := b * d
  let adbc := ad + b * c
  let adbcCarry : UInt64 := if adbc < ad then 1 else 0
  let productLo := bd + adbc <<< 32
  let productLoCarry : UInt64 := if productLo < bd then 1 else 0
  (productLo, a * c + adbc >>> 32 + adbcCarry <<< 32 + productLoCarry)

def lo (x : UInt64) : UInt64 := x &&& 0xFFFFFFFF

def hi (x : UInt64) : UInt64 := x >>> 32

def mulh (a b : UInt64) : UInt64 :=
  let x00 := lo a * lo b
  let x01 := lo a * hi b
  let x10 := hi a * lo b
  let x11 := hi a * hi b
  let m1 := lo x10 + lo x01 + hi x00
  let m2 := hi x10 + hi x01 + lo x11 + hi m1
  let m3 := hi x11 + hi m2
  m3 <<< 32 + lo m2

/-- Signed numbers wrap. -/
def smulh (a b : Int64) : Int64 :=
  let hi := (mulh a.toUInt64 b.toUInt64).toInt64
  let hi := if a < 0 then hi - b else hi
  if b < 0 then hi - a else hi

section Unsigned

variable (a b : UInt64)

/-- What is below a carry and what is above it. -/
theorem add_carry (x y : UInt64) :
    (x + y).toNat + (if x + y < x then 1 else 0 : UInt64).toNat * 2 ^ 64 = x.toNat + y.toNat := by
  have hx := x.toNat_lt
  have hy := y.toNat_lt
  by_cases h : x + y < x
  all_goals
    have hlt := h
    rw [UInt64.lt_iff_toNat_lt, UInt64.toNat_add] at hlt
  · rw [if_pos h, UInt64.toNat_add, UInt64.toNat_one]
    omega
  · rw [if_neg h, UInt64.toNat_add, UInt64.toNat_zero]
    omega

theorem toNat_mul_half {x y : UInt64} (hx : x.toNat < 2 ^ 32) (hy : y.toNat < 2 ^ 32) :
    (x * y).toNat = x.toNat * y.toNat := by
  have hle := mul_le hx hy
  rw [UInt64.toNat_mul, Nat.mod_eq_of_lt (by omega)]

theorem hi_lt : (hi a).toNat < 2 ^ 32 := by
  have ha := a.toNat_lt
  rw [hi, toNat_shr]
  omega

theorem lo_lt : (lo a).toNat < 2 ^ 32 := by
  rw [lo, toNat_low]
  exact Nat.mod_lt _ (by decide)

/-- The product in base `2 ^ 32`, by the four products of halves. -/
theorem mul_halves :
    a.toNat * b.toNat =
      (hi a * hi b).toNat * 2 ^ 64 + ((hi a * lo b).toNat + (lo a * hi b).toNat) * 2 ^ 32 +
        (lo a * lo b).toNat := by
  rw [toNat_mul_half (hi_lt a) (hi_lt b), toNat_mul_half (hi_lt a) (lo_lt b),
    toNat_mul_half (lo_lt a) (hi_lt b), toNat_mul_half (lo_lt a) (lo_lt b), mul_split]
  simp only [hi, lo, toNat_shr, toNat_low]

theorem half_le {x y : UInt64} (hx : x.toNat < 2 ^ 32) (hy : y.toNat < 2 ^ 32) :
    (x * y).toNat ≤ (2 ^ 32 - 1) * (2 ^ 32 - 1) :=
  (toNat_mul_half hx hy).trans_le (mul_le hx hy)

theorem umul128_exact :
    (umul128 a b).2.toNat * 2 ^ 64 + (umul128 a b).1.toNat = a.toNat * b.toNat := by
  have hs := half_le (hi_lt a) (hi_lt b)
  have hq := half_le (hi_lt a) (lo_lt b)
  have hr := half_le (lo_lt a) (hi_lt b)
  have hp := half_le (lo_lt a) (lo_lt b)
  have htotal : a.toNat * b.toNat < 2 ^ 64 * 2 ^ 64 := Nat.mul_lt_mul'' a.toNat_lt b.toNat_lt
  have hmiddle := add_carry (hi a * lo b) (lo a * hi b)
  have hlow := add_carry (lo a * lo b) ((hi a * lo b + lo a * hi b) <<< 32)
  rw [mul_halves] at htotal ⊢
  change (hi a * hi b + (hi a * lo b + lo a * hi b) >>> 32 +
      (if hi a * lo b + lo a * hi b < hi a * lo b then 1 else 0 : UInt64) <<< 32 +
      (if lo a * lo b + (hi a * lo b + lo a * hi b) <<< 32 < lo a * lo b then 1 else 0 :
        UInt64)).toNat * 2 ^ 64 + (lo a * lo b + (hi a * lo b + lo a * hi b) <<< 32).toNat = _
  generalize hcarry : (if hi a * lo b + lo a * hi b < hi a * lo b then 1 else 0 : UInt64) = c at *
  generalize (if lo a * lo b + (hi a * lo b + lo a * hi b) <<< 32 < lo a * lo b then 1 else 0 :
    UInt64) = c' at *
  have hc : c.toNat ≤ 1 := by
    rw [← hcarry]
    split <;> decide
  rw [toNat_shl] at hlow
  rw [UInt64.toNat_add, UInt64.toNat_add, UInt64.toNat_add, toNat_shr, toNat_shl]
  generalize (hi a * lo b + lo a * hi b).toNat = m at *
  generalize (lo a * lo b + (hi a * lo b + lo a * hi b) <<< 32).toNat = l at *
  omega

/-- No sum of the halves reaches `2 ^ 64`. -/
theorem mulh_exact : (mulh a b).toNat = a.toNat * b.toNat / 2 ^ 64 := by
  have hs := half_le (hi_lt a) (hi_lt b)
  have hq := half_le (hi_lt a) (lo_lt b)
  have hr := half_le (lo_lt a) (hi_lt b)
  have hp := half_le (lo_lt a) (lo_lt b)
  have htotal : a.toNat * b.toNat < 2 ^ 64 * 2 ^ 64 := Nat.mul_lt_mul'' a.toNat_lt b.toNat_lt
  rw [mul_halves] at htotal ⊢
  unfold mulh
  dsimp only
  generalize hi a * hi b = x11 at *
  generalize hi a * lo b = x10 at *
  generalize lo a * hi b = x01 at *
  generalize lo a * lo b = x00 at *
  simp only [hi, lo, UInt64.toNat_add, toNat_shr, toNat_shl, toNat_low]
  omega

theorem mulh_eq_high : mulh a b = high a b := by
  have htotal : a.toNat * b.toNat < 2 ^ 64 * 2 ^ 64 := Nat.mul_lt_mul'' a.toNat_lt b.toNat_lt
  apply UInt64.toNat.inj
  rw [mulh_exact, high, UInt64.toNat_ofNat', Nat.mod_eq_of_lt (by omega)]

end Unsigned

section Signed

variable (a b : Int64)

theorem toUInt64_toNat : (a.toUInt64.toNat : Int) = a.toInt + negative a.toUInt64 * 2 ^ 64 := by
  have h := toInt_eq a.toUInt64
  change a.toInt = _ at h
  omega

theorem negative_iff : negative a.toUInt64 = 1 ↔ a < 0 := by
  have hsigned := toUInt64_toNat a
  have hn := negative_le a.toUInt64
  have hword := a.toUInt64.toNat_lt
  rw [Int64.lt_iff_toInt_lt, Int64.toInt_zero]
  unfold negative at *
  omega

/-- The high word of the unsigned product, as a signed number that may be off by wraps. -/
theorem mulh_signed : (mulh a.toUInt64 b.toUInt64).toInt64.toInt =
    (a.toInt * b.toInt / 2 ^ 64 + negative a.toUInt64 * b.toInt +
      negative b.toUInt64 * a.toInt).bmod (2 ^ 64) := by
  have hproduct : (a.toUInt64.toNat : Int) * b.toUInt64.toNat = a.toInt * b.toInt +
      (negative a.toUInt64 * b.toInt + negative b.toUInt64 * a.toInt +
        negative a.toUInt64 * negative b.toUInt64 * 2 ^ 64) * 2 ^ 64 := by
    rw [toUInt64_toNat, toUInt64_toNat]
    ring
  have hcast (n : Nat) : ((n / 2 ^ 64 : Nat) : Int) = (n : Int) / 2 ^ 64 := Int.natCast_ediv n _
  change (mulh a.toUInt64 b.toUInt64).toBitVec.toInt = _
  rw [BitVec.toInt_eq_toNat_bmod, UInt64.toNat_toBitVec, mulh_exact, hcast, Nat.cast_mul, hproduct,
    Int.add_mul_ediv_right _ _ (by decide), ← Int.add_assoc, ← Int.add_assoc]
  exact Int.add_mul_bmod_self_right _ _ (2 ^ 64)

/-- A negative factor took the other one in addition. -/
theorem sub_if (x y : Int64) : (if y < 0 then x - a else x).toInt =
    (x.toInt - negative y.toUInt64 * a.toInt).bmod (2 ^ 64) := by
  have hn := negative_le y.toUInt64
  split
  case isTrue hneg =>
    rw [(negative_iff y).mpr hneg, Int64.toInt_sub, Nat.cast_one, one_mul]
  case isFalse hpos =>
    have hzero : negative y.toUInt64 = 0 := by
      have := mt (negative_iff y).mp hpos
      omega
    rw [hzero, Nat.cast_zero, zero_mul, sub_zero]
    exact (BitVec.toInt_bmod_cancel x.toBitVec).symm

theorem product_bounds : -2 ^ 126 ≤ a.toInt * b.toInt ∧ a.toInt * b.toInt ≤ 2 ^ 126 := by
  have ha := a.le_toInt
  have ha' := a.toInt_lt
  have hb := b.le_toInt
  have hb' := b.toInt_lt
  constructor <;> nlinarith

theorem smulh_exact : (smulh a b).toInt = a.toInt * b.toInt / 2 ^ 64 := by
  obtain ⟨hge, hle⟩ := product_bounds a b
  unfold smulh
  dsimp only
  rw [sub_if, sub_if, mulh_signed, Int.bmod_sub_bmod, sub_sub, Int.bmod_sub_bmod, ← sub_sub]
  have hsum : a.toInt * b.toInt / 2 ^ 64 + negative a.toUInt64 * b.toInt +
      negative b.toUInt64 * a.toInt - negative a.toUInt64 * b.toInt -
        negative b.toUInt64 * a.toInt = a.toInt * b.toInt / 2 ^ 64 := by ring
  rw [hsum]
  generalize a.toInt * b.toInt = p at *
  exact Int.bmod_eq_of_le (by omega) (by omega)

theorem smulh_eq_highSigned : (smulh a b).toUInt64 = highSigned a.toUInt64 b.toUInt64 := by
  obtain ⟨hge, hle⟩ := product_bounds a b
  apply UInt64.toBitVec_inj.mp
  refine BitVec.eq_of_toInt_eq ((smulh_exact a b).trans ?_)
  change _ = (BitVec.ofInt 64 ((a.toInt * b.toInt) >>> (64 : Nat))).toInt
  rw [BitVec.toInt_ofInt, Int.shiftRight_eq_div_pow, Nat.cast_pow, Nat.cast_ofNat]
  generalize a.toInt * b.toInt = p at *
  exact (Int.bmod_eq_of_le (by omega) (by omega)).symm

end Signed

/-- The three products of words, whatever the factors. -/
theorem products_exact (a b : UInt64) (x y : Int64) :
    (umul128 a b).2.toNat * 2 ^ 64 + (umul128 a b).1.toNat = a.toNat * b.toNat ∧
      (mulh a b).toNat = a.toNat * b.toNat / 2 ^ 64 ∧
      (smulh x y).toInt = x.toInt * y.toInt / 2 ^ 64 :=
  ⟨umul128_exact a b, mulh_exact a b, smulh_exact x y⟩

end VeloxHash.WideMultiplication
