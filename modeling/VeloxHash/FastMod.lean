import Mathlib.Tactic

/-! The modulo of the KawPow DAG by multiplication and shift (`KPCache::calculate_fast_mod_data`,
`fast_mod`). A quotient by `d` is the quotient by a power of two of a multiple that is rounded
either down, with one added to the dividend, or up. -/

namespace VeloxHash.FastMod

/-! ### Division by a rounded reciprocal -/

section Rounding

variable {N d q r e a : Nat}

/-- The reciprocal rounded down, `N = q * d + r`. -/
theorem div_of_rounded_down (hd : 0 < d) (hN : N = q * d + r) (hr : 0 < r) (ha : a * r + r ≤ N) :
    (a + 1) * q / N = a / d := by
  have hdiv := Nat.div_add_mod a d
  have hmod := Nat.mod_lt a hd
  generalize a / d = k at *
  generalize a % d = m at *
  have hNpos : 0 < N := by omega
  rw [Nat.div_eq_iff hNpos]
  -- both bounds after multiplication by `d`
  have hscaled : (a + 1) * q * d + (a + 1) * r = (a + 1) * N := by rw [hN]; ring
  constructor
  · refine Nat.le_of_mul_le_mul_right (c := d) ?_ hd
    have hlow : k * N * d + m * N + N = (a + 1) * N := by rw [← hdiv]; ring
    have hsmall : (a + 1) * r ≤ N := by rw [Nat.succ_mul]; exact ha
    have hm : 0 ≤ m * N := Nat.zero_le _
    omega
  · have hhigh : (a + 1) * q * d < (k + 1) * N * d := by
      have hle : (a + 1) * N ≤ (k + 1) * d * N := by
        refine Nat.mul_le_mul_right N ?_
        rw [← hdiv, Nat.succ_mul, Nat.mul_comm k d]
        omega
      have hpos : 0 < (a + 1) * r := Nat.mul_pos (Nat.succ_pos a) hr
      have heq : (k + 1) * d * N = (k + 1) * N * d := by ring
      omega
    have := Nat.lt_of_mul_lt_mul_right hhigh
    rw [Nat.succ_mul k N] at this
    omega

/-- The reciprocal rounded up, `q * d = N + e`. -/
theorem div_of_rounded_up (hd : 0 < d) (hN : q * d = N + e) (ha : a * e < N) :
    a * q / N = a / d := by
  have hdiv := Nat.div_add_mod a d
  have hmod := Nat.mod_lt a hd
  generalize a / d = k at *
  generalize a % d = m at *
  have hNpos : 0 < N := by omega
  rw [Nat.div_eq_iff hNpos]
  have hscaled : a * q * d = a * N + a * e := by rw [Nat.mul_assoc, hN]; ring
  have hsplit : a * N = k * N * d + m * N := by rw [← hdiv]; ring
  constructor
  · refine Nat.le_of_mul_le_mul_right (c := d) ?_ hd
    omega
  · have hhigh : a * q * d < (k + 1) * N * d := by
      have hm : m * N + N ≤ N * d := by
        rw [← Nat.succ_mul, Nat.mul_comm N d]
        exact Nat.mul_le_mul_right N hmod
      have heq : (k + 1) * N * d = k * N * d + N * d := by ring
      omega
    have := Nat.lt_of_mul_lt_mul_right hhigh
    rw [Nat.succ_mul k N] at this
    omega

end Rounding

/-! ### The code -/

structure FastModData where
  reciprocal : UInt32
  increment : UInt32
  shift : UInt32
  deriving DecidableEq, Repr

/-- `clz` of a word that is not zero. -/
def clz (a : UInt32) : UInt32 := .ofNat (31 - Nat.log2 a.toNat)

def calculateFastModData (divisor : UInt32) : FastModData :=
  if divisor &&& (divisor - 1) = 0 then
    { reciprocal := 1, increment := 0, shift := 31 - clz divisor }
  else
    let shift := 63 - clz divisor
    let N : UInt64 := 1 <<< shift.toUInt64
    let q := N / divisor.toUInt64
    let r := N - q * divisor.toUInt64
    if r * 2 < divisor.toUInt64 then
      { reciprocal := q.toUInt32, increment := 1, shift }
    else
      { reciprocal := (q + 1).toUInt32, increment := 0, shift }

/-- `fast_mod`. -/
def fastMod (a d r i s : UInt64) : UInt32 :=
  let q : UInt32 := (((a + i) * r) >>> s).toUInt32
  (a - q.toUInt64 * d).toUInt32

/-- The data over the integers. -/
def exactData (d : Nat) : Nat × Nat × Nat :=
  if d &&& (d - 1) = 0 then (1, 0, Nat.log2 d)
  else
    let N := 2 ^ (32 + Nat.log2 d)
    if N % d * 2 < d then (N / d, 1, 32 + Nat.log2 d) else (N / d + 1, 0, 32 + Nat.log2 d)

section Exact

variable {d a : Nat}

theorem log2_lt (hpos : 0 < d) (hd : d < 2 ^ 32) : Nat.log2 d < 32 :=
  (Nat.log2_lt hpos.ne').mpr hd

theorem lt_of_not_pow2 (hpos : 0 < d) (hpow : d &&& (d - 1) ≠ 0) : 2 ^ Nat.log2 d < d := by
  refine lt_of_le_of_ne (Nat.log2_self_le hpos.ne') fun h => hpow ?_
  exact (Nat.and_sub_one_eq_zero_iff_isPowerOfTwo hpos.ne').mpr ⟨_, h.symm⟩

theorem remainder_pos (hpos : 0 < d) (hpow : d &&& (d - 1) ≠ 0) (n : Nat) : 0 < 2 ^ n % d := by
  refine Nat.pos_of_ne_zero fun h => hpow ?_
  obtain ⟨k, -, hk⟩ := (Nat.dvd_prime_pow Nat.prime_two).mp (Nat.dvd_of_mod_eq_zero h)
  exact (Nat.and_sub_one_eq_zero_iff_isPowerOfTwo hpos.ne').mpr ⟨k, hk⟩

/-- Both reciprocals fit: `d` is more than `2 ^ log2 d`. -/
theorem quotient_lt (hpos : 0 < d) (hd : d < 2 ^ 32) (hpow : d &&& (d - 1) ≠ 0) :
    2 ^ (32 + Nat.log2 d) / d + 1 < 2 ^ 32 := by
  have hlow := lt_of_not_pow2 hpos hpow
  have hl : 2 ^ Nat.log2 d ≤ 2 ^ 31 :=
    Nat.pow_le_pow_right (by decide) (by have := log2_lt hpos hd; omega)
  rw [pow_add]
  generalize 2 ^ Nat.log2 d = t at *
  have hlt : 2 ^ 32 * t / d < 2 ^ 32 - 1 := by
    rw [Nat.div_lt_iff_lt_mul hpos]
    have := Nat.mul_le_mul_left (2 ^ 32 - 1) hlow
    omega
  omega

theorem exactData_sound (hpos : 0 < d) (hd : d < 2 ^ 32) (ha : a < 2 ^ 32) :
    (a + (exactData d).2.1) * (exactData d).1 < 2 ^ 64 ∧
      (a + (exactData d).2.1) * (exactData d).1 / 2 ^ (exactData d).2.2 = a / d := by
  by_cases hpow : d &&& (d - 1) = 0
  · obtain ⟨n, hn⟩ := (Nat.and_sub_one_eq_zero_iff_isPowerOfTwo hpos.ne').mp hpow
    rw [exactData, if_pos hpow, hn, Nat.log2_two_pow]
    dsimp only
    constructor
    · omega
    · rw [Nat.add_zero, Nat.mul_one]
  · have hquotient := quotient_lt hpos hd hpow
    have hrpos := remainder_pos hpos hpow (32 + Nat.log2 d)
    have hrlt := Nat.mod_lt (2 ^ (32 + Nat.log2 d)) hpos
    have hsplit := Nat.div_add_mod' (2 ^ (32 + Nat.log2 d)) d
    have hhigh : d < 2 * 2 ^ Nat.log2 d := by
      rw [← pow_succ']
      exact Nat.lt_log2_self
    have hN : 2 ^ (32 + Nat.log2 d) = 2 ^ 32 * 2 ^ Nat.log2 d := pow_add _ _ _
    have hbound {x y : Nat} (hx : x ≤ 2 ^ 32) (hy : y < 2 ^ 32) : x * y < 2 ^ 64 :=
      lt_of_le_of_lt (Nat.mul_le_mul_right y hx) (by omega)
    rw [exactData, if_neg hpow]
    by_cases hround : 2 ^ (32 + Nat.log2 d) % d * 2 < d
    · rw [if_pos hround]
      dsimp only
      generalize 2 ^ (32 + Nat.log2 d) = N at *
      generalize 2 ^ Nat.log2 d = t at *
      refine ⟨hbound (by omega) (by omega), div_of_rounded_down hpos hsplit.symm hrpos ?_⟩
      have hle : (a + 1) * (N % d) ≤ 2 ^ 32 * t := Nat.mul_le_mul (by omega) (by omega)
      rw [Nat.succ_mul] at hle
      omega
    · rw [if_neg hround]
      dsimp only
      generalize 2 ^ (32 + Nat.log2 d) = N at *
      generalize 2 ^ Nat.log2 d = t at *
      have he : (N / d + 1) * d = N + (d - N % d) := by
        rw [Nat.succ_mul]
        omega
      refine ⟨hbound (by omega) (by omega), div_of_rounded_up hpos he ?_⟩
      calc a * (d - N % d) ≤ a * t := Nat.mul_le_mul_left a (by omega)
        _ < 2 ^ 32 * t := Nat.mul_lt_mul_of_pos_right ha (by omega)
        _ = N := hN.symm

theorem exactData_le (d : Nat) :
    (exactData d).2.1 ≤ 1 ∧ (exactData d).2.2 ≤ 32 + Nat.log2 d := by
  unfold exactData
  dsimp only
  split
  · simp
  · split <;> simp

end Exact

/-! ### The code computes the data -/

section Words

variable {d : UInt32}

theorem toNat_pos (hd : d ≠ 0) : 0 < d.toNat := Nat.pos_of_ne_zero fun h => hd (UInt32.toNat.inj h)

theorem and_eq_zero_iff (hd : d ≠ 0) : d &&& (d - 1) = 0 ↔ d.toNat &&& (d.toNat - 1) = 0 := by
  have hpos := toNat_pos hd
  have hsub : (d - 1).toNat = d.toNat - 1 := by
    have hle : (1 : UInt32) ≤ d := UInt32.le_iff_toNat_le.mpr hpos
    rw [UInt32.toNat_sub_of_le _ _ hle]
    rfl
  rw [← UInt32.toNat_inj, UInt32.toNat_and, hsub]
  rfl

theorem toNat_clz (d : UInt32) : (clz d).toNat = 31 - Nat.log2 d.toNat := by
  rw [clz, UInt32.toNat_ofNat']
  exact Nat.mod_eq_of_lt (by omega)

theorem toNat_sub_clz (hd : d ≠ 0) {n : UInt32} (hn : 31 ≤ n.toNat) :
    (n - clz d).toNat = n.toNat - 31 + Nat.log2 d.toNat := by
  have hlog := log2_lt (toNat_pos hd) d.toNat_lt
  have hclz := toNat_clz d
  rw [UInt32.toNat_sub_of_le _ _ (UInt32.le_iff_toNat_le.mpr (by omega)), hclz]
  omega

/-- No operation of `calculate_fast_mod_data` overflows. -/
theorem calculateFastModData_eq (hd : d ≠ 0) :
    let m := calculateFastModData d
    (m.reciprocal.toNat, m.increment.toNat, m.shift.toNat) = exactData d.toNat := by
  have hpos := toNat_pos hd
  have hlt := d.toNat_lt
  have hlog := log2_lt hpos hlt
  intro m
  by_cases hpow : d &&& (d - 1) = 0
  · have hshift := toNat_sub_clz hd (n := 31) (by decide)
    simp only [m, calculateFastModData, if_pos hpow, exactData,
      if_pos ((and_eq_zero_iff hd).mp hpow), hshift]
    simp
  · have hpow' := fun h => hpow ((and_eq_zero_iff hd).mpr h)
    have hquotient := quotient_lt hpos hlt hpow'
    have hshift : (63 - clz d).toNat = 32 + Nat.log2 d.toNat := toNat_sub_clz hd (by decide)
    have hNlt : 2 ^ (32 + Nat.log2 d.toNat) < 2 ^ 64 :=
      Nat.pow_lt_pow_right (by decide) (by omega)
    have hN : ((1 : UInt64) <<< (63 - clz d).toUInt64).toNat = 2 ^ (32 + Nat.log2 d.toNat) := by
      have hmod : (32 + Nat.log2 d.toNat) % 64 = 32 + Nat.log2 d.toNat :=
        Nat.mod_eq_of_lt (by omega)
      rw [UInt64.toNat_shiftLeft, UInt32.toNat_toUInt64, hshift, hmod, Nat.shiftLeft_eq]
      exact (Nat.mod_eq_of_lt (by rw [UInt64.toNat_one, one_mul]; exact hNlt)).trans (one_mul _)
    have hd64 : d.toUInt64.toNat = d.toNat := UInt32.toNat_toUInt64 d
    generalize hNdef : (1 : UInt64) <<< (63 - clz d).toUInt64 = N at hN
    have hq : (N / d.toUInt64).toNat = 2 ^ (32 + Nat.log2 d.toNat) / d.toNat := by
      rw [UInt64.toNat_div, hN, hd64]
    have hsplit := Nat.div_add_mod' (2 ^ (32 + Nat.log2 d.toNat)) d.toNat
    have hproduct : (N / d.toUInt64 * d.toUInt64).toNat =
        2 ^ (32 + Nat.log2 d.toNat) / d.toNat * d.toNat := by
      rw [UInt64.toNat_mul, hq, hd64]
      exact Nat.mod_eq_of_lt (by omega)
    have hr : (N - N / d.toUInt64 * d.toUInt64).toNat = 2 ^ (32 + Nat.log2 d.toNat) % d.toNat := by
      rw [UInt64.toNat_sub_of_le _ _ (UInt64.le_iff_toNat_le.mpr (by omega)), hN, hproduct]
      omega
    have hrlt := Nat.mod_lt (2 ^ (32 + Nat.log2 d.toNat)) hpos
    have hdouble : (N - N / d.toUInt64 * d.toUInt64) * 2 < d.toUInt64 ↔
        2 ^ (32 + Nat.log2 d.toNat) % d.toNat * 2 < d.toNat := by
      have htwo : (2 : UInt64).toNat = 2 := rfl
      rw [UInt64.lt_iff_toNat_lt, UInt64.toNat_mul, hr, hd64, htwo, Nat.mod_eq_of_lt (by omega)]
    have hq1 : (N / d.toUInt64 + 1).toNat = 2 ^ (32 + Nat.log2 d.toNat) / d.toNat + 1 := by
      rw [UInt64.toNat_add, hq]
      exact Nat.mod_eq_of_lt (by rw [UInt64.toNat_one]; omega)
    simp only [m, calculateFastModData, if_neg hpow, hNdef, exactData, if_neg hpow']
    by_cases hround : 2 ^ (32 + Nat.log2 d.toNat) % d.toNat * 2 < d.toNat
    · rw [if_pos (hdouble.mpr hround), if_pos hround]
      dsimp only
      rw [UInt64.toNat_toUInt32, hq, Nat.mod_eq_of_lt (by omega), hshift]
      rfl
    · rw [if_neg (mt hdouble.mp hround), if_neg hround]
      dsimp only
      rw [UInt64.toNat_toUInt32, hq1, Nat.mod_eq_of_lt hquotient, hshift]
      rfl

end Words

/-- The numbers are those of the divisor, the product fits in 64 bits, and the quotient and the
remainder are exact. -/
structure Exact (d : UInt32) (m : FastModData) : Prop where
  reciprocal : m.reciprocal.toNat = (exactData d.toNat).1
  fits (a : UInt32) : (a.toNat + m.increment.toNat) * m.reciprocal.toNat < 2 ^ 64
  quotient (a : UInt32) :
    (((a.toUInt64 + m.increment.toUInt64) * m.reciprocal.toUInt64) >>> m.shift.toUInt64).toNat =
      a.toNat / d.toNat
  remainder (a : UInt32) :
    fastMod a.toUInt64 d.toUInt64 m.reciprocal.toUInt64 m.increment.toUInt64 m.shift.toUInt64 =
      a % d

theorem fastMod_exact (d : UInt32) (hd : d ≠ 0) : Exact d (calculateFastModData d) := by
  let m := calculateFastModData d
  have hdata := calculateFastModData_eq hd
  have hpos := toNat_pos hd
  have hlog := log2_lt hpos d.toNat_lt
  obtain ⟨hr, hi, hs⟩ : m.reciprocal.toNat = (exactData d.toNat).1 ∧
      m.increment.toNat = (exactData d.toNat).2.1 ∧ m.shift.toNat = (exactData d.toNat).2.2 := by
    rw [← hdata]
    exact ⟨rfl, rfl, rfl⟩
  obtain ⟨hincrement, hshift⟩ := exactData_le d.toNat
  rw [← hi] at hincrement
  rw [← hs] at hshift
  have hfits (a : UInt32) : (a.toNat + m.increment.toNat) * m.reciprocal.toNat < 2 ^ 64 := by
    rw [hr, hi]
    exact (exactData_sound hpos d.toNat_lt a.toNat_lt).1
  have hq (a : UInt32) : (((a.toUInt64 + m.increment.toUInt64) * m.reciprocal.toUInt64) >>>
      m.shift.toUInt64).toNat = a.toNat / d.toNat := by
    have hquotient := (exactData_sound hpos d.toNat_lt a.toNat_lt).2
    rw [← hr, ← hi, ← hs] at hquotient
    have hsum : (a.toUInt64 + m.increment.toUInt64).toNat = a.toNat + m.increment.toNat := by
      have ha := a.toNat_lt
      rw [UInt64.toNat_add, UInt32.toNat_toUInt64, UInt32.toNat_toUInt64]
      exact Nat.mod_eq_of_lt (by omega)
    rw [UInt64.toNat_shiftRight, UInt64.toNat_mul, hsum, UInt32.toNat_toUInt64,
      UInt32.toNat_toUInt64, Nat.mod_eq_of_lt (hfits a),
      Nat.mod_eq_of_lt (show m.shift.toNat < 64 by omega), Nat.shiftRight_eq_div_pow, hquotient]
  refine ⟨hr, hfits, hq, fun a => ?_⟩
  have hdiv := Nat.div_add_mod' a.toNat d.toNat
  have ha := a.toNat_lt
  have hle := Nat.div_le_self a.toNat d.toNat
  have hword : ((((a.toUInt64 + m.increment.toUInt64) * m.reciprocal.toUInt64) >>>
      m.shift.toUInt64).toUInt32.toUInt64 * d.toUInt64).toNat = a.toNat / d.toNat * d.toNat := by
    have hsmall : a.toNat / d.toNat % 2 ^ 32 = a.toNat / d.toNat := Nat.mod_eq_of_lt (by omega)
    rw [UInt64.toNat_mul, UInt32.toNat_toUInt64, UInt64.toNat_toUInt32, hq, UInt32.toNat_toUInt64,
      hsmall]
    exact Nat.mod_eq_of_lt (by omega)
  apply UInt32.toNat.inj
  rw [fastMod, UInt64.toNat_toUInt32, UInt64.toNat_sub_of_le _ _ (UInt64.le_iff_toNat_le.mpr ?_),
    hword, UInt32.toNat_toUInt64, UInt32.toNat_mod, Nat.mod_eq_of_lt (by omega)]
  · omega
  · rw [hword, UInt32.toNat_toUInt64]
    omega

theorem fastMod_exact_seven :
    calculateFastModData 7 = ⟨2454267026, 1, 34⟩ ∧ fastMod 0xFFFFFFFF 7 2454267026 1 34 = 3 :=
  ⟨by decide +kernel, (fastMod_exact 7 (by decide)).remainder 0xFFFFFFFF⟩

end VeloxHash.FastMod
