import Mathlib.Data.Nat.Size
import VeloxHash.Reciprocal

/-! The reciprocals of `reciprocal.c` and `randomx_reciprocal.inc` in 64-bit words. For a 32-bit
divisor that is no power of two none of their operations overflows. -/

namespace VeloxHash.ReciprocalWords

open BytecodeMachine Reciprocal

/-- `for (bit = divisor; bit > 0; bit >>= 1) bsr++`. -/
def bsr (bit : UInt64) : Nat :=
  if h : 0 < bit then bsr (bit >>> 1) + 1 else 0
termination_by bit.toNat
decreasing_by
  have hpos : 0 < bit.toNat := UInt64.lt_iff_toNat_lt.mp h
  rw [UInt64.toNat_shiftRight]
  exact Nat.div_lt_self hpos (by decide)

def p2exp63 : UInt64 := (1 : UInt64) <<< (63 : UInt64)

/-- The body of the loop over `shift`: quotient and remainder. -/
def round (divisor : UInt64) (state : UInt64 × UInt64) : UInt64 × UInt64 :=
  if state.2 ≥ divisor - state.2 then (state.1 * 2 + 1, state.2 * 2 - divisor)
  else (state.1 * 2, state.2 * 2)

def rounds (divisor : UInt64) (n : Nat) : UInt64 × UInt64 :=
  (round divisor)^[n] (p2exp63 / divisor, p2exp63 % divisor)

def randomxReciprocal (divisor : UInt64) : UInt64 := (rounds divisor (bsr divisor)).1

/-- `__builtin_clzll` of a word that is not zero. -/
def clzll (x : UInt64) : UInt64 := .ofNat (63 - Nat.log2 x.toNat)

/-- `randomx_reciprocal_fast` where GCC compiles it. -/
def randomxReciprocalFast (divisor : UInt64) : UInt64 :=
  let q := p2exp63 / divisor
  let r := p2exp63 % divisor
  let shift := 64 - clzll divisor
  (q <<< shift) + ((r <<< shift) / divisor)

/-- `div`: the quotient of `rdx:rax`, or an exception when it does not fit. -/
def div128 (high low divisor : UInt64) : Option UInt64 :=
  let dividend := high.toNat * 2 ^ 64 + low.toNat
  if dividend < divisor.toNat * 2 ^ 64 then some (.ofNat (dividend / divisor.toNat)) else none

/-- `randomx_reciprocal_fast` of the x86 assembly; `bsr` gives the highest set bit. -/
def randomxReciprocalAsm (divisor : UInt64) : Option UInt64 :=
  div128 ((1 : UInt64) <<< UInt64.ofNat (Nat.log2 divisor.toNat)) 0 divisor

variable {d : UInt64}

theorem size_half {n : Nat} (h : 0 < n) : Nat.size n = Nat.size (n / 2) + 1 := by
  apply le_antisymm
  · have hlt := Nat.lt_size_self (n / 2)
    rw [Nat.size_le, pow_succ]
    omega
  · rw [Nat.succ_le_iff, Nat.lt_size]
    cases hsize : Nat.size (n / 2) with
    | zero => exact h
    | succ m =>
      have hle : 2 ^ m ≤ n / 2 := Nat.lt_size.mp (by omega)
      rw [pow_succ]
      omega

theorem bsr_eq (d : UInt64) : bsr d = Nat.size d.toNat := by
  induction hn : d.toNat using Nat.strong_induction_on generalizing d with
  | _ n ih =>
    rw [bsr]
    split
    case isTrue hpos =>
      have hpos : 0 < d.toNat := UInt64.lt_iff_toNat_lt.mp hpos
      have hhalf : (d >>> 1).toNat = d.toNat / 2 := by
        rw [UInt64.toNat_shiftRight]
        rfl
      rw [ih (d.toNat / 2) (by omega) (d >>> 1) hhalf, ← hn, size_half hpos]
    case isFalse hzero =>
      have hzero : d.toNat = 0 :=
        Nat.eq_zero_of_not_pos fun h => hzero (UInt64.lt_iff_toNat_lt.mpr h)
      rw [← hn, hzero, Nat.size_zero]

/-- A divisor of 32 bits that is no power of two. -/
structure Proper (d : UInt64) : Prop where
  pos : 0 < d.toNat
  lt : d.toNat < 2 ^ 32
  not_pow : ∀ k, d.toNat ≠ 2 ^ k

theorem Proper.log2_lt (h : Proper d) : 2 ^ Nat.log2 d.toNat < d.toNat :=
  lt_of_le_of_ne (Nat.log2_self_le h.pos.ne') fun heq => h.not_pow _ heq.symm

theorem size_eq (h : 0 < d.toNat) : Nat.size d.toNat = Nat.log2 d.toNat + 1 := by
  apply le_antisymm
  · exact Nat.size_le.mpr Nat.lt_log2_self
  · exact Nat.lt_size.mpr (Nat.log2_self_le h.ne')

/-- The quotients of all rounds fit in a word. -/
theorem Proper.quotient_lt (h : Proper d) {k : Nat} (hk : k ≤ Nat.size d.toNat) :
    2 ^ (63 + k) / d.toNat < 2 ^ 64 := by
  rw [Nat.div_lt_iff_lt_mul h.pos]
  have hsize := size_eq h.pos
  calc 2 ^ (63 + k) ≤ 2 ^ (64 + Nat.log2 d.toNat) := Nat.pow_le_pow_right (by decide) (by omega)
    _ = 2 ^ 64 * 2 ^ Nat.log2 d.toNat := pow_add _ _ _
    _ < 2 ^ 64 * d.toNat := Nat.mul_lt_mul_of_pos_left h.log2_lt (by decide)

theorem toNat_p2exp63 : p2exp63.toNat = 2 ^ 63 := rfl

/-- The words are the quotient and the remainder of the reference. -/
theorem rounds_eq (h : Proper d) {k : Nat} (hk : k ≤ Nat.size d.toNat) :
    ((rounds d k).1.toNat, (rounds d k).2.toNat) =
      (2 ^ (63 + k) / d.toNat, 2 ^ (63 + k) % d.toNat) := by
  induction k with
  | zero =>
    simp only [rounds, Function.iterate_zero, id, UInt64.toNat_div, UInt64.toNat_mod,
      toNat_p2exp63, Nat.add_zero]
  | succ k ih =>
    have hround := reciprocalRound_eq h.pos (2 ^ (63 + k))
    have hquotient := h.quotient_lt hk
    have hrem := Nat.mod_lt (2 ^ (63 + k)) h.pos
    rw [← Nat.add_assoc, pow_succ, ← hround]
    rw [← Nat.add_assoc, pow_succ] at hquotient
    have hfst := congrArg Prod.fst hround
    dsimp only at hfst
    rw [← hfst] at hquotient
    obtain ⟨hq, hr⟩ := Prod.mk.inj (ih (by omega))
    rw [rounds, Function.iterate_succ_apply', ← rounds]
    rw [← hq, ← hr] at hquotient ⊢
    rw [← hr] at hrem
    have hlt := h.lt
    generalize rounds d k = s at *
    have hsub : (d - s.2).toNat = d.toNat - s.2.toNat :=
      UInt64.toNat_sub_of_le _ _ (UInt64.le_iff_toNat_le.mpr (by omega))
    have hdouble : (s.2 * 2).toNat = s.2.toNat * 2 := by
      rw [UInt64.toNat_mul]
      exact Nat.mod_eq_of_lt (by change s.2.toNat * 2 < _; omega)
    have hcond : s.2 ≥ d - s.2 ↔ s.2.toNat ≥ d.toNat - s.2.toNat := by
      rw [ge_iff_le, UInt64.le_iff_toNat_le, hsub]
    have hdef : reciprocalRound d.toNat (s.1.toNat, s.2.toNat) =
        if s.2.toNat ≥ d.toNat - s.2.toNat then
          (s.1.toNat * 2 + 1, s.2.toNat * 2 - d.toNat)
        else (s.1.toNat * 2, s.2.toNat * 2) := rfl
    rw [hdef] at hquotient ⊢
    rw [round]
    by_cases hc : s.2.toNat ≥ d.toNat - s.2.toNat
    · rw [if_pos hc] at hquotient ⊢
      rw [if_pos (hcond.mpr hc)]
      have hq2 : (s.1 * 2 + 1).toNat = s.1.toNat * 2 + 1 := by
        have hs : (s.1 * 2).toNat = s.1.toNat * 2 := by
          rw [UInt64.toNat_mul]
          exact Nat.mod_eq_of_lt (by change s.1.toNat * 2 < _; omega)
        rw [UInt64.toNat_add, hs]
        exact Nat.mod_eq_of_lt hquotient
      rw [hq2, UInt64.toNat_sub_of_le _ _ (UInt64.le_iff_toNat_le.mpr (by omega)), hdouble]
    · rw [if_neg hc] at hquotient ⊢
      rw [if_neg (mt hcond.mp hc), hdouble, UInt64.toNat_mul]
      congr 1
      exact Nat.mod_eq_of_lt hquotient

theorem toNat_randomxReciprocal (h : Proper d) :
    (randomxReciprocal d).toNat = 2 ^ (63 + Nat.size d.toNat) / d.toNat := by
  rw [randomxReciprocal, bsr_eq]
  exact congrArg Prod.fst (rounds_eq h le_rfl)

theorem toNat_shift (h : Proper d) : (64 - clzll d).toNat = Nat.size d.toNat := by
  have hlog : Nat.log2 d.toNat < 32 := (Nat.log2_lt h.pos.ne').mpr h.lt
  have hclz : (clzll d).toNat = 63 - Nat.log2 d.toNat := by
    rw [clzll, UInt64.toNat_ofNat']
    exact Nat.mod_eq_of_lt (by omega)
  have hle : clzll d ≤ 64 := UInt64.le_iff_toNat_le.mpr (by rw [hclz]; change _ ≤ 64; omega)
  rw [UInt64.toNat_sub_of_le _ _ hle, hclz, size_eq h.pos]
  change 64 - (63 - Nat.log2 d.toNat) = _
  omega

/-- Neither shift of the fast form loses a bit. -/
theorem shifts_fit (h : Proper d) :
    2 ^ 63 / d.toNat * 2 ^ Nat.size d.toNat < 2 ^ 64 ∧
      2 ^ 63 % d.toNat * 2 ^ Nat.size d.toNat < 2 ^ 64 := by
  have hquotient := h.quotient_lt le_rfl
  rw [pow_add, ← mul_div_split h.pos] at hquotient
  refine ⟨lt_of_le_of_lt (Nat.le_add_right _ _) hquotient, ?_⟩
  have hsize : 2 ^ Nat.size d.toNat ≤ 2 ^ 32 :=
    Nat.pow_le_pow_right (by decide) (Nat.size_le.mpr h.lt)
  have hr := Nat.mod_lt (2 ^ 63) h.pos
  have hlt := h.lt
  calc 2 ^ 63 % d.toNat * 2 ^ Nat.size d.toNat ≤ 2 ^ 63 % d.toNat * 2 ^ 32 :=
        Nat.mul_le_mul_left _ hsize
    _ < 2 ^ 64 := by omega

theorem toNat_randomxReciprocalFast (h : Proper d) :
    (randomxReciprocalFast d).toNat = 2 ^ (63 + Nat.size d.toNat) / d.toNat := by
  obtain ⟨hq, hr⟩ := shifts_fit h
  have hsize : Nat.size d.toNat ≤ 32 := Nat.size_le.mpr h.lt
  have hshift (x : UInt64) (hx : x.toNat * 2 ^ Nat.size d.toNat < 2 ^ 64) :
      (x <<< (64 - clzll d)).toNat = x.toNat * 2 ^ Nat.size d.toNat := by
    have hmod : Nat.size d.toNat % 64 = Nat.size d.toNat := Nat.mod_eq_of_lt (by omega)
    rw [UInt64.toNat_shiftLeft, toNat_shift h, hmod, Nat.shiftLeft_eq]
    exact Nat.mod_eq_of_lt hx
  have hquotient := h.quotient_lt le_rfl
  rw [pow_add, ← mul_div_split h.pos] at hquotient ⊢
  rw [randomxReciprocalFast]
  rw [UInt64.toNat_add, UInt64.toNat_div, hshift _ (by rw [UInt64.toNat_div]; exact hq),
    hshift _ (by rw [UInt64.toNat_mod]; exact hr), UInt64.toNat_div, UInt64.toNat_mod]
  exact Nat.mod_eq_of_lt hquotient

theorem div128_eq {high low divisor : UInt64}
    (h : high.toNat * 2 ^ 64 + low.toNat < divisor.toNat * 2 ^ 64) :
    div128 high low divisor =
      some (.ofNat ((high.toNat * 2 ^ 64 + low.toNat) / divisor.toNat)) := if_pos h

theorem randomxReciprocalAsm_eq (h : Proper d) :
    randomxReciprocalAsm d = some (randomxReciprocal d) := by
  have hlog : Nat.log2 d.toNat < 32 := (Nat.log2_lt h.pos.ne').mpr h.lt
  have hhigh : ((1 : UInt64) <<< UInt64.ofNat (Nat.log2 d.toNat)).toNat = 2 ^ Nat.log2 d.toNat := by
    have hword : (UInt64.ofNat (Nat.log2 d.toNat)).toNat = Nat.log2 d.toNat := by
      rw [UInt64.toNat_ofNat']
      exact Nat.mod_eq_of_lt (by omega)
    have hmod : Nat.log2 d.toNat % 64 = Nat.log2 d.toNat := Nat.mod_eq_of_lt (by omega)
    rw [UInt64.toNat_shiftLeft, hword, hmod, Nat.shiftLeft_eq, UInt64.toNat_one, one_mul]
    exact Nat.mod_eq_of_lt (Nat.pow_lt_pow_right (by decide) (by omega))
  have hdividend : 2 ^ Nat.log2 d.toNat * 2 ^ 64 = 2 ^ (63 + Nat.size d.toNat) := by
    rw [← pow_add, size_eq h.pos]
    congr 1
    omega
  have hfits : 2 ^ Nat.log2 d.toNat * 2 ^ 64 < d.toNat * 2 ^ 64 :=
    Nat.mul_lt_mul_of_pos_right h.log2_lt (by decide)
  have hzero : (0 : UInt64).toNat = 0 := rfl
  have hdiv : randomxReciprocalAsm d = some (.ofNat (2 ^ Nat.log2 d.toNat * 2 ^ 64 / d.toNat)) := by
    have h := @div128_eq ((1 : UInt64) <<< UInt64.ofNat (Nat.log2 d.toNat)) 0 d
      (by rw [hhigh, hzero, Nat.add_zero]; exact hfits)
    rwa [hhigh, hzero, Nat.add_zero] at h
  rw [hdiv, hdividend, ← toNat_randomxReciprocal h, UInt64.ofNat_toNat]

/-- Rounds, quotient and both fast forms. -/
theorem reciprocal_floor (d : UInt32) (hd : d ≠ 0) (hpow : ∀ k, d.toNat ≠ 2 ^ k) :
    (randomxReciprocal d.toUInt64).toNat = 2 ^ (63 + Nat.size d.toNat) / d.toNat ∧
    (∀ k ≤ Nat.size d.toNat,
      ((rounds d.toUInt64 k).1.toNat, (rounds d.toUInt64 k).2.toNat) =
        (2 ^ (63 + k) / d.toNat, 2 ^ (63 + k) % d.toNat)) ∧
    2 ^ 63 / d.toNat * 2 ^ Nat.size d.toNat < 2 ^ 64 ∧
    2 ^ 63 % d.toNat * 2 ^ Nat.size d.toNat < 2 ^ 64 ∧
    randomxReciprocalFast d.toUInt64 = randomxReciprocal d.toUInt64 ∧
    randomxReciprocalAsm d.toUInt64 = some (randomxReciprocal d.toUInt64) := by
  have h64 : d.toUInt64.toNat = d.toNat := UInt32.toNat_toUInt64 d
  have h : Proper d.toUInt64 := by
    refine ⟨?_, h64 ▸ d.toNat_lt, fun k => h64 ▸ hpow k⟩
    rw [h64]
    exact Nat.pos_of_ne_zero fun h0 => hd (UInt32.toNat.inj h0)
  have hfast : randomxReciprocalFast d.toUInt64 = randomxReciprocal d.toUInt64 :=
    UInt64.toNat.inj ((toNat_randomxReciprocalFast h).trans (toNat_randomxReciprocal h).symm)
  have hreciprocal := toNat_randomxReciprocal h
  have hrounds := fun k (hk : k ≤ Nat.size d.toUInt64.toNat) => rounds_eq h hk
  have hfit := shifts_fit h
  rw [h64] at hreciprocal hrounds hfit
  exact ⟨hreciprocal, hrounds, hfit.1, hfit.2, hfast, randomxReciprocalAsm_eq h⟩

theorem reciprocal_floor_three :
    (randomxReciprocal 3).toNat = 12297829382473034410 ∧
      randomxReciprocalAsm 3 = some (randomxReciprocal 3) := by
  have hpow (k : Nat) : (3 : UInt32).toNat ≠ 2 ^ k := by
    intro h
    have hk : k < 2 := (Nat.pow_lt_pow_iff_right (by decide)).mp (h ▸ by decide : 2 ^ k < 2 ^ 2)
    interval_cases k <;> exact absurd h (by decide)
  have h := reciprocal_floor 3 (by decide) hpow
  refine ⟨h.1.trans ?_, h.2.2.2.2.2⟩
  decide +kernel

end VeloxHash.ReciprocalWords
