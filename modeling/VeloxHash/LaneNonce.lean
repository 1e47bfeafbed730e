import VeloxHash.WorkerJob

/-! The nonces in the lanes of a worker's two jobs, and what the operations of `WorkerJob`
do to them. A nonce stays in the block of `2 ^ nonceBits` values that the pool left to the
miner. -/

namespace VeloxHash

open CodeBuffer Splice

theorem toNat_word (m : Memory) (p : Nat) : (word m p).toNat = ofLe (read m p 4) := by
  have hlt := ofLe_lt (read m p 4)
  rw [length_read] at hlt
  rw [word, UInt32.toNat_ofNat']
  exact Nat.mod_eq_of_lt hlt

/-- The two words of an eight-byte nonce. -/
theorem ofLe_read_eight (m : Memory) (p : Nat) :
    ofLe (read m p 8) = (⟨word m p, word m (p + 4)⟩ : Nonce.Words).value := by
  rw [show 8 = 4 + 4 from rfl, read_add, ofLe_append, length_read, Nonce.Words.value, toNat_word,
    toNat_word]
  omega

theorem word_write_self (m : Memory) (p : Nat) (v : UInt32) :
    word (write m p (le v.toNat 4)) p = v := by
  have hlen : (le v.toNat 4).length = 4 := length_le ..
  rw [word, read_write_take (by rw [hlen]), List.take_of_length_le (by rw [hlen]), ofLe_le,
    show 256 ^ 4 = 2 ^ 32 by norm_num, Nat.mod_eq_of_lt v.toNat_lt, UInt32.ofNat_toNat]

theorem word_write_disjoint {m : Memory} {p q : Nat} {bytes : List UInt8}
    (h : p + 4 ≤ q ∨ q + bytes.length ≤ p) : word (write m q bytes) p = word m p := by
  rw [word, word, read_write_disjoint h]

namespace Job

/-- A four-byte nonce lies inside the blob. -/
def Placed (j : Job) : Prop := j.nonceSize = 4 ∧ j.nonceOffset + 4 ≤ j.size

instance (j : Job) : Decidable j.Placed := by unfold Placed; infer_instance

/-- What `setBlob` lets pass. -/
structure Accepted (j : Job) : Prop where
  placed : j.nonceOffset + j.nonceSize ≤ j.size
  nicehash : j.nicehash = false → j.nonceOf j.blob = 0

instance (j : Job) : Decidable j.Accepted :=
  decidable_of_iff (j.nonceOffset + j.nonceSize ≤ j.size ∧
    (j.nicehash = false → j.nonceOf j.blob = 0)) ⟨fun h => ⟨h.1, h.2⟩, fun h => ⟨h.1, h.2⟩⟩

/-- The lowest nonce of the block that the pool left to the miner. -/
def base (j : Job) : Nat := (j.nonceOf j.blob).toNat / 2 ^ j.nonceBits * 2 ^ j.nonceBits

/-- `n` nonces from `nonce` on lie in the block. -/
def Within (j : Job) (nonce : UInt32) (n : Nat) : Prop :=
  j.base ≤ nonce.toNat ∧ nonce.toNat + n ≤ j.base + 2 ^ j.nonceBits

variable {i j : Job}

theorem setBlob_accepted {bytes : List UInt8} (h : j.setBlob bytes = some i) : i.Accepted := by
  unfold setBlob at h
  split at h
  case isFalse => cases h
  case isTrue hsize =>
    cases h
    refine ⟨hsize.1, fun hnicehash => ?_⟩
    have hzero : (j.nonceOf bytes != 0) = false := (Bool.or_eq_false_iff.mp hnicehash).2
    exact bne_eq_false_iff_eq.mp hzero

theorem Accepted.blob_ne_nil (h : j.Accepted) : j.blob ≠ [] := by
  intro hnil
  have hplaced := h.placed
  have hsize : 0 < j.nonceSize := j.algorithm.nonceSize_pos
  rw [size, hnil, List.length_nil] at hplaced
  omega

/-- The block is the same for all jobs that `setBlob` lets pass with one blob. -/
theorem Accepted.base_eq (hi : i.Accepted) (hj : j.Accepted) (hblob : i.blob = j.blob)
    (hoffset : i.nonceOffset = j.nonceOffset) : i.base = j.base := by
  have hnonce : i.nonceOf i.blob = j.nonceOf j.blob := by
    rw [nonceOf, nonceOf, hblob, hoffset]
  have hzero (h : j.nonceOf j.blob = 0) : i.base = j.base := by
    rw [base, base, hnonce, h, UInt32.toNat_zero, Nat.zero_div, Nat.zero_div, Nat.zero_mul,
      Nat.zero_mul]
  cases hin : i.nicehash with
  | false => exact hzero (hnonce ▸ hi.nicehash hin)
  | true =>
    cases hjn : j.nicehash with
    | false => exact hzero (hj.nicehash hjn)
    | true => rw [base, base, hnonce, nonceBits, nonceBits, hin, hjn]

theorem nonceBits_le (j : Job) : j.nonceBits ≤ 32 := by
  unfold nonceBits
  split <;> norm_num

/-- The block lies in the range of a nonce. -/
theorem base_block (j : Job) : j.base + 2 ^ j.nonceBits ≤ 2 ^ 32 := by
  obtain ⟨d, hd⟩ := Nat.exists_eq_add_of_le j.nonceBits_le
  have hlt := Nat.div_mul_le_self (j.nonceOf j.blob).toNat (2 ^ j.nonceBits)
  have hnonce := (j.nonceOf j.blob).toNat_lt
  have hquot : (j.nonceOf j.blob).toNat / 2 ^ j.nonceBits < 2 ^ d := by
    rw [Nat.div_lt_iff_lt_mul (Nat.two_pow_pos _), ← pow_add, Nat.add_comm d, ← hd]
    exact hnonce
  have hmul := Nat.mul_le_mul_right (2 ^ j.nonceBits) hquot
  rw [← pow_add, Nat.add_comm d, ← hd, Nat.succ_mul] at hmul
  exact hmul

/-- The nonce of the blob. -/
theorem within_blob (j : Job) : j.Within (j.nonceOf j.blob) 1 := by
  have hdiv := Nat.div_add_mod' (j.nonceOf j.blob).toNat (2 ^ j.nonceBits)
  have hmod := Nat.mod_lt (j.nonceOf j.blob).toNat (Nat.two_pow_pos j.nonceBits)
  unfold Within base
  omega

theorem Within.mono {nonce : UInt32} {m n : Nat} (h : j.Within nonce n) (hmn : m ≤ n) :
    j.Within nonce m := ⟨h.1, by have := h.2; omega⟩

theorem Within.div_mul {nonce : UInt32} (h : j.Within nonce 1) :
    nonce.toNat / 2 ^ j.nonceBits * 2 ^ j.nonceBits = j.base := by
  obtain ⟨hle, hlt⟩ := h
  rw [base] at hle hlt ⊢
  congr 1
  refine Nat.div_eq_of_lt_le hle ?_
  rw [Nat.succ_mul]
  omega

/-- The next nonce of a block does not wrap. -/
theorem Within.succ {nonce : UInt32} {n : Nat} (h : j.Within nonce (n + 2)) :
    (nonce + 1).toNat = nonce.toNat + 1 ∧ j.Within (nonce + 1) (n + 1) := by
  have hblock := j.base_block
  obtain ⟨hle, hlt⟩ := h
  have hnext : (nonce + 1).toNat = nonce.toNat + 1 := by
    rw [UInt32.toNat_add, show (1 : UInt32).toNat = 1 from rfl, Nat.mod_eq_of_lt (by omega)]
  exact ⟨hnext, by rw [hnext]; omega, by rw [hnext]; omega⟩

/-- What `Nonce::next` writes for a counter. -/
theorem Within.write (hsize : j.nonceSize = 4) (words : Nonce.Words) (h : j.Within words.lo 1)
    {count : UInt32} {counter : UInt64}
    (hfits : Nonce.Fits (Nonce.effectiveMask j.nonceMask) count counter) :
    (Nonce.write (Nonce.effectiveMask j.nonceMask) counter words).lo.toNat =
        j.base + counter.toNat ∧
      j.Within (Nonce.write (Nonce.effectiveMask j.nonceMask) counter words).lo count.toNat := by
  have hmask := effectiveMask_nonceMask hsize
  have hle := hfits.le_mask
  have hlo := Nonce.write_lo j.nonceBits_le hmask (show counter.toNat ≤ _ by omega) words
  rw [h.div_mul] at hlo
  have hpos := Nat.two_pow_pos j.nonceBits
  exact ⟨hlo, by rw [hlo]; omega, by rw [hlo]; omega⟩

end Job

namespace WorkerJob

/-- The nonce in a lane of either job. -/
def laneNonce (w : WorkerJob) (index : Fin 2) (lane : Nat) : UInt32 :=
  word (w.blobs index) (lane * (w.jobs index).size + (w.jobs index).nonceOffset)

variable {w : WorkerJob} {m : Memory} {index : Fin 2} {lane other : Nat}

/-- The nonces of the other job are not written to. -/
theorem laneNonce_withBlob_ne (h : index ≠ w.index) (m : Memory) (lane : Nat) :
    (w.withBlob m).laneNonce index lane = w.laneNonce index lane :=
  congrArg (word · (lane * (w.jobs index).size + (w.jobs index).nonceOffset))
    (Function.update_of_ne h ..)

theorem nonce_withBlob (w : WorkerJob) (m : Memory) (lane : Nat) :
    (w.withBlob m).nonce lane = word m (w.nonceAt lane) :=
  congrArg (word · (w.nonceAt lane)) (withBlob_blob w m)

variable (hp : w.currentJob.Placed)

include hp

theorem word_putNonce (v : UInt32) (lane other : Nat) :
    word (w.putNonce m lane v) (w.nonceAt other) =
      if other = lane then v else word m (w.nonceAt other) := by
  have hsize := hp.2
  split
  case isTrue h =>
    subst h
    exact word_write_self ..
  case isFalse h =>
    refine word_write_disjoint ?_
    have hapart := lane_apart (o := w.currentJob.nonceOffset) (n := 4) h hp.2
    rw [length_le]
    unfold nonceAt
    omega

theorem word_bumped (roundSize : UInt32) (n lane : Nat) :
    word (w.bumped roundSize n) (w.nonceAt lane) =
      if lane < n then w.nonce lane + roundSize else w.nonce lane := by
  induction n generalizing lane with
  | zero => rfl
  | succ n ih =>
    rw [bumped, word_putNonce hp, ih n, ih lane, if_neg (lt_irrefl n)]
    by_cases h : lane = n
    · subst h
      simp
    · rw [if_neg h]
      exact if_congr (by omega) rfl rfl

theorem nonce_bump (roundSize : UInt32) {width : Nat} (h : lane < width) :
    (w.bump roundSize width).nonce lane = w.nonce lane + roundSize := by
  rw [bump, nonce_withBlob, word_bumped hp, if_pos h]

theorem nonce_storeNonce (hmask : w.mask = w.currentJob.nonceMask) (counter : UInt64)
    (lane other : Nat) :
    (w.storeNonce lane counter).nonce other =
      if other = lane then
        (Nonce.write (Nonce.effectiveMask w.currentJob.nonceMask) counter
          ⟨w.nonce lane, word w.blob (w.nonceAt lane + 4)⟩).lo
      else w.nonce other := by
  have hsmall : ¬ Nonce.effectiveMask w.mask > 0xFFFFFFFF := by
    rw [hmask, Nonce.gt_word_iff (Job.effectiveMask_nonceMask hp.1), Job.nonceBits]
    split <;> omega
  rw [storeNonce, if_neg hsmall, nonce_withBlob, word_putNonce hp, hmask]
  rfl

theorem nonce_copyLane (lane other : Nat) : (w.copyLane lane).nonce other =
    if other = lane then w.currentJob.nonceOf w.currentJob.blob else w.nonce other := by
  have hsize := hp.2
  rw [copyLane, store, nonce_withBlob]
  split
  case isTrue h =>
    subst h
    have hblob : read (write w.blob (other * w.currentJob.size) w.currentJob.blob)
        (other * w.currentJob.size) w.currentJob.size = w.currentJob.blob :=
      (read_write_take le_rfl).trans List.take_length
    rw [word, nonceAt, ← read_slice hp.2, hblob, Job.nonceOf]
  case isFalse h =>
    refine word_write_disjoint ?_
    have hapart := lane_apart (o := w.currentJob.nonceOffset) (n := 4) h hp.2
    have hapart' := lane_apart h (show 0 + w.currentJob.size ≤ w.currentJob.size by omega)
    rw [Job.length_blob]
    unfold nonceAt
    omega

/-- A signature is written behind the first nonce. -/
theorem nonce_sign (signature : Signature) : (w.sign signature).nonce 0 = w.nonce 0 := by
  have hsize := hp.1
  rw [sign, store, nonce_withBlob, word_write_disjoint]
  · rfl
  · refine .inl ?_
    rw [nonceAt, Job.signatureOffset, hsize, Nat.zero_mul, Nat.zero_add]

omit hp in
/-- The first eight bytes of the blob hold no nonce. -/
theorem nonce_mix (data : UInt64) (lane : Nat) : (w.mix data).nonce lane = w.nonce lane := by
  have hoffset : 8 ≤ w.currentJob.nonceOffset := by
    unfold Job.nonceOffset Algorithm.nonceOffset
    split_ifs <;> norm_num
  rw [mix, store, nonce_withBlob, word_write_disjoint]
  · rfl
  · refine .inr ?_
    rw [length_le, nonceAt]
    omega

end WorkerJob

end VeloxHash
