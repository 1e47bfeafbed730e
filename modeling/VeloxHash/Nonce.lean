import Mathlib.Data.Nat.Bitwise
import Mathlib.Tactic

/-! The static state of `Nonce` and one call of `Nonce::next`, cut at its accesses
to shared memory: a `fetch_add` on the counter and the store made by `pause(true)`.
Everything between two of these touches only memory the caller owns. -/

namespace VeloxHash.Nonce

inductive Backend
  | cpu
  | opencl
  | cuda
  deriving DecidableEq, Repr

/-- The static members of class `Nonce` with their initialisers. -/
structure Shared where
  paused : Bool := true
  sequence : Backend → UInt64 := fun _ => 1
  nonces : Fin 2 → UInt64 := fun _ => 0

namespace Shared

def isOutdated (g : Shared) (backend : Backend) (sequence : UInt64) : Bool :=
  g.sequence backend != sequence

def pause (g : Shared) (paused : Bool) : Shared := { g with paused }

def reset (g : Shared) (index : Fin 2) : Shared :=
  { g with nonces := Function.update g.nonces index 0 }

def stopBackend (g : Shared) (backend : Backend) : Shared :=
  { g with sequence := Function.update g.sequence backend 0 }

def touchBackend (g : Shared) (backend : Backend) : Shared :=
  { g with sequence := Function.update g.sequence backend (g.sequence backend + 1) }

def stop (g : Shared) : Shared := { g with paused := false, sequence := fun _ => 0 }

def touch (g : Shared) : Shared := { g with sequence := fun b => g.sequence b + 1 }

def fetchAdd (g : Shared) (index : Fin 2) (amount : UInt32) : Shared :=
  { g with nonces := Function.update g.nonces index (g.nonces index + amount.toUInt64) }

@[simp] theorem fetchAdd_nonces_self (g : Shared) (index : Fin 2) (amount : UInt32) :
    (g.fetchAdd index amount).nonces index = g.nonces index + amount.toUInt64 := by
  simp [fetchAdd]

@[simp] theorem fetchAdd_zero (g : Shared) (index : Fin 2) :
    (g.fetchAdd index 0).nonces = g.nonces := by
  have hzero : g.nonces index + (0 : UInt32).toUInt64 = g.nonces index := UInt64.add_zero _
  rw [fetchAdd, hzero]
  exact Function.update_eq_self ..

end Shared

/-- The words at `nonce` and `nonce + 1` of the caller's blob. -/
structure Words where
  lo : UInt32
  hi : UInt32
  deriving DecidableEq, Repr

def Words.value (w : Words) : Nat := w.lo.toNat + w.hi.toNat * 2 ^ 32

/-- `mask &= 0x7FFFFFFFFFFFFFFFULL`. -/
def effectiveMask (mask : UInt64) : UInt64 := mask &&& 0x7FFFFFFFFFFFFFFF

/-- What the body of the `while (true)` loop decides for the counter it fetched. -/
inductive Verdict
  | exhausted
  | tooShort
  | last
  | retry
  | inside
  deriving DecidableEq, Repr

def examine (mask : UInt64) (reserveCount : UInt32) (counter : UInt64) : Verdict :=
  if mask < counter then
    .exhausted
  else if mask - counter ≤ (reserveCount - 1).toUInt64 then
    -- both outcomes of this branch call `pause(true)` first
    if mask - counter < (reserveCount - 1).toUInt64 then .tooShort else .last
  else if 0xFFFFFFFF - counter.toUInt32 < reserveCount - 1 then
    .retry
  else
    .inside

/-- The two `writeUnaligned` calls made before `return true`. -/
def write (mask counter : UInt64) (w : Words) : Words where
  lo := ((w.lo.toUInt64 &&& ~~~mask) ||| counter).toUInt32
  hi := if mask > 0xFFFFFFFF then
      ((w.hi.toUInt64 &&& (~~~mask >>> 32)) ||| (counter >>> 32)).toUInt32
    else
      w.hi

structure Args where
  index : Fin 2
  reserveCount : UInt32
  mask : UInt64
  deriving DecidableEq, Repr

/-- Where a call stands. `done none` is `return false`, `done (some c)` is `return true`
after the write of `c`. -/
inductive Pc
  | enter
  | fetch
  | pause (counter : UInt64) (short : Bool)
  | done (result : Option UInt64)
  deriving DecidableEq, Repr

def Pc.afterFetch (a : Args) (counter : UInt64) : Pc :=
  match examine (effectiveMask a.mask) a.reserveCount counter with
  | .exhausted => .done none
  | .tooShort => .pause counter true
  | .last => .pause counter false
  | .retry => .fetch
  | .inside => .done (some counter)

/-- `reserveCount == 0 || mask < reserveCount - 1`. -/
def refuses (a : Args) : Bool :=
  a.reserveCount == 0 || decide (effectiveMask a.mask < (a.reserveCount - 1).toUInt64)

def Pc.fetchStep (a : Args) (g : Shared) : Shared × Pc :=
  (g.fetchAdd a.index a.reserveCount, .afterFetch a (g.nonces a.index))

/-- The next shared access of a call, with the local work up to the one after it. -/
def Pc.step (a : Args) (g : Shared) : Pc → Option (Shared × Pc)
  | .enter => some (if refuses a then (g, .done none) else fetchStep a g)
  | .fetch => some (fetchStep a g)
  | .pause counter short => some (g.pause true, .done (if short then none else some counter))
  | .done _ => none

/-- The counter value a call has taken a range from and not given up. -/
def Pc.holds : Pc → Option UInt64
  | .pause counter _ => some counter
  | .done result => result
  | _ => none

section Mask

variable {k : Nat} {mask counter : UInt64} {reserveCount : UInt32}

/-- A range that is taken lies under the mask and does not wrap its low word. -/
structure Fits (mask : UInt64) (reserveCount : UInt32) (counter : UInt64) : Prop where
  le_mask : counter.toNat + (reserveCount.toNat - 1) ≤ mask.toNat
  low_word : counter.toNat % 2 ^ 32 + (reserveCount.toNat - 1) < 2 ^ 32

theorem toNat_reserve_sub (hr : 1 ≤ reserveCount.toNat) :
    (reserveCount - 1).toUInt64.toNat = reserveCount.toNat - 1 := by
  have hle : (1 : UInt32) ≤ reserveCount := UInt32.le_iff_toNat_le.mpr hr
  rw [UInt32.toNat_toUInt64, UInt32.toNat_sub_of_le _ _ hle]
  rfl

theorem toNat_room (h : ¬ mask < counter) :
    (mask - counter).toNat = mask.toNat - counter.toNat :=
  UInt64.toNat_sub_of_le _ _ (UInt64.not_lt.mp h)

theorem toNat_low_room (counter : UInt64) :
    (0xFFFFFFFF - counter.toUInt32 : UInt32).toNat = 2 ^ 32 - 1 - counter.toNat % 2 ^ 32 := by
  have hlt := counter.toUInt32.toNat_lt
  have hle : counter.toUInt32 ≤ 0xFFFFFFFF := UInt32.le_iff_toNat_le.mpr (by
    change _ ≤ 4294967295
    omega)
  rw [UInt32.toNat_sub_of_le _ _ hle, UInt64.toNat_toUInt32]
  rfl

theorem examine_exhausted (h : examine mask reserveCount counter = .exhausted) :
    mask.toNat < counter.toNat := by
  unfold examine at h
  split_ifs at h with hlt
  exact UInt64.lt_iff_toNat_lt.mp hlt

theorem examine_retry (hr : 1 ≤ reserveCount.toNat)
    (h : examine mask reserveCount counter = .retry) :
    counter.toNat + reserveCount.toNat ≤ mask.toNat := by
  unfold examine at h
  split_ifs at h with hlt hle
  have hroom := toNat_room hlt
  rw [UInt64.le_iff_toNat_le, hroom, toNat_reserve_sub hr] at hle
  omega

theorem examine_inside (hr : 1 ≤ reserveCount.toNat)
    (h : examine mask reserveCount counter = .inside) : Fits mask reserveCount counter := by
  unfold examine at h
  split_ifs at h with hlt hle hshort hlow
  have hroom := toNat_room hlt
  rw [UInt64.le_iff_toNat_le, hroom, toNat_reserve_sub hr] at hle
  have hsub := toNat_reserve_sub hr
  rw [UInt32.toNat_toUInt64] at hsub
  rw [UInt32.lt_iff_toNat_lt, toNat_low_room, hsub] at hlow
  have hmod := Nat.mod_lt counter.toNat (show 0 < 2 ^ 32 by norm_num)
  exact ⟨by omega, by omega⟩

/-- The last range ends on the mask itself, hence on a word boundary when it is
that close to one. -/
theorem examine_last (hmask : mask.toNat = 2 ^ k - 1) (hr : 1 ≤ reserveCount.toNat)
    (h : examine mask reserveCount counter = .last) : Fits mask reserveCount counter := by
  unfold examine at h
  split_ifs at h with hlt hle hshort
  have hroom := toNat_room hlt
  rw [UInt64.le_iff_toNat_le, hroom, toNat_reserve_sub hr] at hle
  rw [UInt64.lt_iff_toNat_lt, hroom, toNat_reserve_sub hr] at hshort
  have hcounter := UInt64.le_iff_toNat_le.mp (UInt64.not_lt.mp hlt)
  have hsum : counter.toNat + (reserveCount.toNat - 1) = 2 ^ k - 1 := by omega
  refine ⟨by omega, ?_⟩
  have hcount := reserveCount.toNat_lt
  rcases Nat.lt_or_ge k 32 with hk | hk
  · have hpow : 2 ^ k < 2 ^ 32 := Nat.pow_lt_pow_right (by norm_num) hk
    rw [Nat.mod_eq_of_lt (by omega)]
    omega
  · obtain ⟨d, rfl⟩ := Nat.exists_eq_add_of_le hk
    have hpos : 0 < 2 ^ d := by positivity
    have hpow : 2 ^ (32 + d) = 2 ^ 32 * 2 ^ d := pow_add 2 32 d
    omega

/-- Under a mask of one word the low word never wraps before the mask is reached. -/
theorem examine_ne_retry (hmask : mask.toNat < 2 ^ 32) (hr : 1 ≤ reserveCount.toNat) :
    examine mask reserveCount counter ≠ .retry := by
  intro h
  have hroom := examine_retry hr h
  unfold examine at h
  split_ifs at h with hlt hle hshort hlow
  have hsub := toNat_reserve_sub hr
  rw [UInt32.toNat_toUInt64] at hsub
  rw [UInt32.lt_iff_toNat_lt, toNat_low_room, hsub, Nat.mod_eq_of_lt (by omega)] at hlow
  omega

/-- A fetch that leaves room for the range under a mask of one word takes it. -/
theorem afterFetch_room {a : Args} (hmask : (effectiveMask a.mask).toNat < 2 ^ 32)
    (hr : 1 ≤ a.reserveCount.toNat)
    (hroom : counter.toNat + (a.reserveCount.toNat - 1) ≤ (effectiveMask a.mask).toNat) :
    Pc.afterFetch a counter = .pause counter false ∨
      Pc.afterFetch a counter = .done (some counter) := by
  unfold Pc.afterFetch
  split
  case h_1 hv =>
    have := examine_exhausted hv
    omega
  case h_2 hv =>
    unfold examine at hv
    split_ifs at hv with hlt hle hshort
    rw [UInt64.lt_iff_toNat_lt, toNat_room hlt, toNat_reserve_sub hr] at hshort
    omega
  case h_3 => exact .inl rfl
  case h_4 hv => exact absurd hv (examine_ne_retry hmask hr)
  case h_5 => exact .inr rfl

theorem not_refuses {a : Args} (hr : 1 ≤ a.reserveCount.toNat)
    (hroom : a.reserveCount.toNat - 1 ≤ (effectiveMask a.mask).toNat) : refuses a = false := by
  have hne : a.reserveCount ≠ 0 := by
    rintro h
    rw [h] at hr
    exact absurd hr (by decide)
  have hle : ¬ effectiveMask a.mask < (a.reserveCount - 1).toUInt64 := by
    rw [UInt64.lt_iff_toNat_lt, toNat_reserve_sub hr]
    omega
  rw [refuses, decide_eq_false hle, Bool.or_false, beq_eq_false_iff_ne]
  exact hne

theorem value_testBit (w : Words) (j : Nat) :
    w.value.testBit j = if j < 32 then w.lo.toNat.testBit j else w.hi.toNat.testBit (j - 32) := by
  rw [Words.value, Nat.add_comm, Nat.mul_comm]
  exact Nat.testBit_two_pow_mul_add w.hi.toNat w.lo.toNat_lt j

theorem mask_testBit (hmask : mask.toNat = 2 ^ k - 1) (j : Nat) :
    mask.toNat.testBit j = decide (j < k) := by
  rw [hmask, Nat.testBit_two_pow_sub_one]

theorem not_mask_testBit (hmask : mask.toNat = 2 ^ k - 1) {j : Nat} (hj : j < 64) :
    (~~~mask).toNat.testBit j = !decide (j < k) := by
  rw [UInt64.toNat_not, show UInt64.size - 1 - mask.toNat = 2 ^ 64 - (mask.toNat + 1) from by
    rw [UInt64.size]; omega, Nat.testBit_two_pow_sub_succ mask.toNat_lt,
    mask_testBit hmask, decide_eq_true hj, Bool.true_and]

theorem shiftRight_testBit (x : UInt64) {j : Nat} (hj : 32 ≤ j) :
    (x >>> 32).toNat.testBit (j - 32) = x.toNat.testBit j := by
  rw [UInt64.toNat_shiftRight, show (32 : UInt64).toNat % 64 = 32 from rfl,
    Nat.testBit_shiftRight, Nat.add_sub_cancel' hj]

theorem gt_word_iff (hmask : mask.toNat = 2 ^ k - 1) : mask > 0xFFFFFFFF ↔ 32 < k := by
  rw [gt_iff_lt, UInt64.lt_iff_toNat_lt, hmask]
  change 2 ^ 32 - 1 < 2 ^ k - 1 ↔ 32 < k
  rw [← Nat.pow_lt_pow_iff_right (show 1 < 2 by norm_num) (n := 32) (m := k)]
  have := Nat.two_pow_pos k
  omega

theorem write_lo_testBit (hmask : mask.toNat = 2 ^ k - 1) (w : Words) {j : Nat} (hj : j < 32) :
    (write mask counter w).lo.toNat.testBit j =
      (w.lo.toNat.testBit j && !decide (j < k) || counter.toNat.testBit j) := by
  simp only [write, UInt64.toNat_toUInt32, UInt64.toNat_or, UInt64.toNat_and,
    UInt32.toNat_toUInt64, Nat.testBit_mod_two_pow, Nat.testBit_or, Nat.testBit_and,
    not_mask_testBit hmask (show j < 64 by omega), hj, decide_true, Bool.true_and]

theorem write_hi_testBit (hmask : mask.toNat = 2 ^ k - 1) (hk : 32 < k) (w : Words) {j : Nat}
    (hj : 32 ≤ j) (h64 : j < 64) :
    (write mask counter w).hi.toNat.testBit (j - 32) =
      (w.hi.toNat.testBit (j - 32) && !decide (j < k) || counter.toNat.testBit j) := by
  have hlow : j - 32 < 32 := by omega
  simp only [write, if_pos ((gt_word_iff hmask).mpr hk), UInt64.toNat_toUInt32, UInt64.toNat_or,
    UInt64.toNat_and, UInt32.toNat_toUInt64, Nat.testBit_mod_two_pow, Nat.testBit_or,
    Nat.testBit_and, shiftRight_testBit _ hj, not_mask_testBit hmask h64, hlow, decide_true,
    Bool.true_and]

theorem write_testBit (hk : k ≤ 63) (hmask : mask.toNat = 2 ^ k - 1)
    (hc : counter.toNat ≤ mask.toNat) (w : Words) (j : Nat) :
    (write mask counter w).value.testBit j =
      if j < k then counter.toNat.testBit j else w.value.testBit j := by
  have hhigh (hj : k ≤ j) : counter.toNat.testBit j = false := by
    have := Nat.two_pow_pos k
    have := Nat.pow_le_pow_right (show 0 < 2 by norm_num) hj
    exact Nat.testBit_lt_two_pow (by omega)
  rw [value_testBit, value_testBit]
  rcases Nat.lt_or_ge j 32 with hj | hj
  · rw [if_pos hj, if_pos hj, write_lo_testBit hmask w hj]
    by_cases hjk : j < k
    · simp [hjk]
    · simp [hjk, hhigh (by omega)]
  · have hword : ¬ j < 32 := by omega
    rw [if_neg hword, if_neg hword]
    by_cases hbig : 32 < k
    · by_cases h64 : j < 64
      · rw [write_hi_testBit hmask hbig w hj h64]
        by_cases hjk : j < k
        · simp [hjk]
        · simp [hjk, hhigh (by omega)]
      · have hout (x : UInt32) : x.toNat.testBit (j - 32) = false :=
          Nat.testBit_lt_two_pow (x.toNat_lt.trans_le
            (Nat.pow_le_pow_right (by norm_num) (by omega)))
        rw [if_neg (by omega), hout, hout]
    · rw [if_neg (by omega), write, if_neg (fun h => hbig ((gt_word_iff hmask).mp h))]

/-- The written words carry the counter on the mask bits and the old bits elsewhere. -/
theorem write_value (hk : k ≤ 63) (hmask : mask.toNat = 2 ^ k - 1)
    (hc : counter.toNat ≤ mask.toNat) (w : Words) :
    (write mask counter w).value % 2 ^ k = counter.toNat ∧
      (write mask counter w).value / 2 ^ k = w.value / 2 ^ k := by
  constructor
  · apply Nat.eq_of_testBit_eq
    intro j
    rw [Nat.testBit_mod_two_pow, write_testBit hk hmask hc]
    by_cases hj : j < k
    · simp [hj]
    · have hclt : counter.toNat < 2 ^ j := by
        have := Nat.pow_le_pow_right (show 0 < 2 by norm_num) (Nat.not_lt.mp hj)
        have := Nat.two_pow_pos k
        omega
      simp [hj, Nat.testBit_lt_two_pow hclt]
  · apply Nat.eq_of_testBit_eq
    intro j
    rw [Nat.testBit_div_two_pow, Nat.testBit_div_two_pow, write_testBit hk hmask hc,
      if_neg (by omega)]

/-- Under a mask of one word the low word alone is written. -/
theorem write_lo (hk : k ≤ 32) (hmask : mask.toNat = 2 ^ k - 1) (hc : counter.toNat ≤ mask.toNat)
    (w : Words) :
    (write mask counter w).lo.toNat = w.lo.toNat / 2 ^ k * 2 ^ k + counter.toNat := by
  obtain ⟨hmod, hdiv⟩ := write_value (by omega) hmask hc w
  have hhi : (write mask counter w).hi = w.hi := if_neg fun h => by
    have := (gt_word_iff hmask).mp h
    omega
  obtain ⟨d, hd⟩ := Nat.exists_eq_add_of_le hk
  have hpow : 2 ^ 32 = 2 ^ d * 2 ^ k := by rw [hd, pow_add, Nat.mul_comm]
  have hsplit (n m : Nat) : (n + m * 2 ^ 32) % 2 ^ k = n % 2 ^ k ∧
      (n + m * 2 ^ 32) / 2 ^ k = n / 2 ^ k + m * 2 ^ d := by
    rw [hpow, ← Nat.mul_assoc, Nat.add_mul_mod_self_right, Nat.add_mul_div_right _ _
      (Nat.two_pow_pos k)]
    exact ⟨rfl, rfl⟩
  rw [Words.value, (hsplit _ _).1] at hmod
  rw [Words.value, Words.value, hhi, (hsplit _ _).2, (hsplit _ _).2] at hdiv
  have := Nat.div_add_mod' (write mask counter w).lo.toNat (2 ^ k)
  rw [hmod, Nat.add_right_cancel hdiv] at this
  exact this.symm

end Mask

end VeloxHash.Nonce
