import VeloxHash.BytecodeMachine
import VeloxHash.JitCompilerX86

/-! The fast forms of the reciprocal against the long division of the reference. -/

namespace VeloxHash.Reciprocal

open BytecodeMachine JitCompilerX86

/-- `randomx_reciprocal_fast` of the C sources, with a shift where x86 divides 128 bits. -/
def randomxReciprocalFastC (divisor : UInt32) : UInt64 :=
  let d := divisor.toNat
  let shift := Nat.log2 d + 1
  .ofNat (2 ^ 63 / d * 2 ^ shift + 2 ^ 63 % d * 2 ^ shift / d)

variable {d : Nat}

/-- One round doubles the dividend. -/
theorem reciprocalRound_eq (hd : 0 < d) (n : Nat) :
    reciprocalRound d (n / d, n % d) = (n * 2 / d, n * 2 % d) := by
  have hr := Nat.mod_lt n hd
  have hn : n * 2 = n % d * 2 + n / d * 2 * d := by
    conv_lhs => rw [← Nat.mod_add_div n d]
    ring
  rw [hn, Nat.add_mul_div_right _ _ hd, Nat.add_mul_mod_self_right]
  generalize n % d = r at *
  generalize n / d = q
  unfold reciprocalRound
  split <;> rename_i h <;> simp only at h
  · have hsub : r * 2 = r * 2 - d + 1 * d := by omega
    rw [hsub, Nat.add_mul_div_right _ _ hd, Nat.add_mul_mod_self_right,
      Nat.div_eq_of_lt (by omega), Nat.mod_eq_of_lt (by omega)]
    ext <;> simp only <;> omega
  · rw [Nat.div_eq_of_lt (by omega), Nat.mod_eq_of_lt (by omega), Nat.zero_add]

theorem iterate_reciprocalRound (hd : 0 < d) (n k : Nat) :
    (reciprocalRound d)^[k] (n / d, n % d) = (n * 2 ^ k / d, n * 2 ^ k % d) := by
  induction k with
  | zero => simp
  | succ k ih => rw [Function.iterate_succ_apply', ih, reciprocalRound_eq hd, pow_succ, mul_assoc]

theorem randomxReciprocal_eq {divisor : UInt32} (h : divisor ≠ 0) :
    randomxReciprocal divisor = .ofNat (2 ^ (64 + Nat.log2 divisor.toNat) / divisor.toNat) := by
  have hd : 0 < divisor.toNat := Nat.pos_of_ne_zero fun h0 => h (UInt32.toNat.inj h0)
  unfold randomxReciprocal
  dsimp only
  rw [iterate_reciprocalRound hd, ← pow_add, show 63 + (Nat.log2 divisor.toNat + 1) =
    64 + Nat.log2 divisor.toNat by omega]

theorem randomxReciprocalFast_eq {divisor : UInt32} (h : divisor ≠ 0) :
    randomxReciprocalFast divisor = randomxReciprocal divisor :=
  (randomxReciprocal_eq h).symm

/-- A product divided piece by piece. -/
theorem mul_div_split (hd : 0 < d) (n c : Nat) : n / d * c + n % d * c / d = n * c / d := by
  have hn : n * c = n % d * c + n / d * c * d := by
    conv_lhs => rw [← Nat.mod_add_div n d]
    ring
  rw [hn, Nat.add_mul_div_right _ _ hd, Nat.add_comm]

theorem randomxReciprocalFastC_eq {divisor : UInt32} (h : divisor ≠ 0) :
    randomxReciprocalFastC divisor = randomxReciprocal divisor := by
  have hd : 0 < divisor.toNat := Nat.pos_of_ne_zero fun h0 => h (UInt32.toNat.inj h0)
  rw [randomxReciprocal_eq h, randomxReciprocalFastC]
  rw [mul_div_split hd, ← pow_add, show 63 + (Nat.log2 divisor.toNat + 1) =
    64 + Nat.log2 divisor.toNat by omega]

end VeloxHash.Reciprocal
