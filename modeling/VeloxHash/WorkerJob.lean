import Mathlib.Data.Fin.Basic
import VeloxHash.Job

/-! `WorkerJob<N>`: two jobs, user and donate, each with its own blobs. The `N` lanes of a
job stand side by side in one buffer. The calls of `Nonce::next` are made by the worker,
access by access; here is what they read and write. -/

namespace VeloxHash

open CodeBuffer Splice

structure WorkerJob where
  blobs : Fin 2 → Memory := fun _ _ => 0
  jobs : Fin 2 → Job := fun _ => {}
  rounds : Fin 2 → UInt32 := fun _ => 0
  nonceMask : Fin 2 → UInt64 := fun _ => 0
  sequence : UInt64 := 0
  index : Fin 2 := 0

namespace WorkerJob

def currentJob (w : WorkerJob) : Job := w.jobs w.index

def blob (w : WorkerJob) : Memory := w.blobs w.index

def mask (w : WorkerJob) : UInt64 := w.nonceMask w.index

/-- Where the nonce of a lane stands in the blob. -/
def nonceAt (w : WorkerJob) (lane : Nat) : Nat :=
  lane * w.currentJob.size + w.currentJob.nonceOffset

def nonce (w : WorkerJob) (lane : Nat) : UInt32 := word w.blob (w.nonceAt lane)

/-- The bytes of a lane of either job. -/
def lane (w : WorkerJob) (index : Fin 2) (lane : Nat) : List UInt8 :=
  read (w.blobs index) (lane * (w.jobs index).size) (w.jobs index).size

/-- What a lane hashes. -/
def bytes (w : WorkerJob) (lane : Nat) : List UInt8 := w.lane w.index lane

def withBlob (w : WorkerJob) (m : Memory) : WorkerJob :=
  { w with blobs := Function.update w.blobs w.index m }

def store (w : WorkerJob) (p : Nat) (bytes : List UInt8) : WorkerJob :=
  w.withBlob (write w.blob p bytes)

/-- The blob with another nonce in a lane. -/
def putNonce (w : WorkerJob) (m : Memory) (lane : Nat) (nonce : UInt32) : Memory :=
  write m (w.nonceAt lane) (le nonce.toNat 4)

/-- The two `writeUnaligned` calls of a `Nonce::next` that returns true. -/
def storeNonce (w : WorkerJob) (lane : Nat) (counter : UInt64) : WorkerJob :=
  let mask := Nonce.effectiveMask w.mask
  let words := Nonce.write mask counter ⟨w.nonce lane, word w.blob (w.nonceAt lane + 4)⟩
  let low := w.putNonce w.blob lane words.lo
  w.withBlob
    (if mask > 0xFFFFFFFF then write low (w.nonceAt lane + 4) (le words.hi.toNat 4) else low)

/-- The arguments of a call of `Nonce::next` for a lane. -/
def args (w : WorkerJob) (reserveCount : UInt32) : Nonce.Args :=
  ⟨w.index, reserveCount, w.mask⟩

/-- `save` up to its loop. -/
def select (w : WorkerJob) (job : Job) : WorkerJob :=
  { w with
    index := job.index
    jobs := Function.update w.jobs job.index (job.setBackend .cpu)
    rounds := Function.update w.rounds job.index 0
    nonceMask := Function.update w.nonceMask job.index job.nonceMask }

/-- The `memcpy` of the loop. -/
def copyLane (w : WorkerJob) (lane : Nat) : WorkerJob :=
  w.store (lane * w.currentJob.size) w.currentJob.blob

/-- The tests of `add`: what becomes of the worker job when it does not save, if so. -/
def keep (w : WorkerJob) (job : Job) : Option WorkerJob :=
  if w.currentJob.isEqual job then some w
  else if w.index = 1 ∧ job.index = 0 ∧ job.isEqual (w.jobs 0) then some { w with index := 0 }
  else none

/-- `m_rounds[index()]++`. -/
def countRound (w : WorkerJob) : WorkerJob :=
  { w with rounds := Function.update w.rounds w.index (w.rounds w.index + 1) }

/-- `(m_rounds[index()] & (rounds - 1)) == 0`. -/
def roundOver (w : WorkerJob) (rounds : UInt32) : Bool :=
  w.rounds w.index &&& (rounds - 1) == 0

/-- The loop of `nextRound` inside a reserved range, up to a lane. -/
def bumped (w : WorkerJob) (roundSize : UInt32) : Nat → Memory
  | 0 => w.blob
  | n + 1 =>
    let m := w.bumped roundSize n
    w.putNonce m n (word m (w.nonceAt n) + roundSize)

def bump (w : WorkerJob) (roundSize : UInt32) (width : Nat) : WorkerJob :=
  w.withBlob (w.bumped roundSize width)

/-- `writeUnaligned(m_jobs[index()].nonce() + 1, readUnaligned(n + 1))` of the one-lane
`nextRound`. -/
def syncNonce (w : WorkerJob) : WorkerJob :=
  let job := w.currentJob
  if job.nonceSize = 8 then
    let blob := splice job.blob (job.nonceOffset + 4) (read w.blob (w.nonceAt 0 + 4) 4)
    { w with jobs := Function.update w.jobs w.index { job with blob } }
  else
    w

/-- `*(uint64_t*)(m_job.blob()) ^= BenchState::data()`. -/
def mix (w : WorkerJob) (data : UInt64) : WorkerJob :=
  w.store 0 (le ((UInt64.ofNat (ofLe (read w.blob 0 8)) ^^^ data).toNat) 8)

/-- `generateMinerSignature` writes at `miner_signature_ptr`. -/
def sign (w : WorkerJob) (signature : Signature) : WorkerJob :=
  w.store w.currentJob.signatureOffset signature.toList

/-- The bytes at `miner_signature_ptr`. -/
def signature (w : WorkerJob) : Signature :=
  Vector.ofFn fun i => w.blob (w.currentJob.signatureOffset + i)

section Frame

variable (w : WorkerJob) (m : Memory)

@[simp] theorem withBlob_jobs : (w.withBlob m).jobs = w.jobs := rfl

@[simp] theorem withBlob_index : (w.withBlob m).index = w.index := rfl

@[simp] theorem withBlob_currentJob : (w.withBlob m).currentJob = w.currentJob := rfl

@[simp] theorem withBlob_nonceMask : (w.withBlob m).nonceMask = w.nonceMask := rfl

@[simp] theorem withBlob_rounds : (w.withBlob m).rounds = w.rounds := rfl

@[simp] theorem withBlob_sequence : (w.withBlob m).sequence = w.sequence := rfl

@[simp] theorem withBlob_nonceAt (lane : Nat) : (w.withBlob m).nonceAt lane = w.nonceAt lane := rfl

@[simp] theorem withBlob_blob : (w.withBlob m).blob = m := Function.update_self ..

/-- A lane of the current job, in any contents of its buffer. -/
def view (lane : Nat) : List UInt8 := read m (lane * w.currentJob.size) w.currentJob.size

theorem bytes_eq (lane : Nat) : w.bytes lane = w.view w.blob lane := rfl

@[simp] theorem withBlob_bytes (lane : Nat) : (w.withBlob m).bytes lane = w.view m lane :=
  congrArg (w.view · lane) (withBlob_blob w m)

theorem withBlob_lane_ne {index : Fin 2} (h : index ≠ w.index) (lane : Nat) :
    (w.withBlob m).lane index lane = w.lane index lane :=
  congrArg (read · (lane * (w.jobs index).size) (w.jobs index).size) (Function.update_of_ne h ..)

end Frame

section Lanes

variable {w : WorkerJob} {m : Memory} {i j o n : Nat}

/-- A stretch inside one lane does not meet another lane. -/
theorem lane_apart {size : Nat} (hij : i ≠ j) (h : o + n ≤ size) :
    i * size + size ≤ j * size + o ∨ j * size + o + n ≤ i * size := by
  rcases Nat.lt_or_gt_of_ne hij with hlt | hlt
  · have := Nat.mul_le_mul_right size (Nat.succ_le_of_lt hlt)
    rw [Nat.succ_mul] at this
    omega
  · have := Nat.mul_le_mul_right size (Nat.succ_le_of_lt hlt)
    rw [Nat.succ_mul] at this
    omega

theorem view_write_self {b : List UInt8} (h : o + b.length ≤ w.currentJob.size) :
    w.view (write m (i * w.currentJob.size + o) b) i = splice (w.view m i) o b :=
  read_write_splice h

theorem view_write_ne {b : List UInt8} (hij : i ≠ j) (h : o + b.length ≤ w.currentJob.size) :
    w.view (write m (j * w.currentJob.size + o) b) i = w.view m i :=
  read_write_disjoint (by simpa using lane_apart hij h)

theorem copyLane_bytes_self : (w.copyLane i).bytes i = w.currentJob.blob := by
  rw [copyLane, store, withBlob_bytes, view]
  exact (read_write_take le_rfl).trans (List.take_length)

theorem copyLane_bytes_ne (hij : i ≠ j) : (w.copyLane j).bytes i = w.bytes i := by
  rw [copyLane, store, withBlob_bytes, bytes_eq]
  exact view_write_ne (o := 0) hij (by simp)

variable (hw : w.currentJob.Sound)

include hw

theorem view_putNonce_self (v : UInt32) :
    w.view (w.putNonce m i v) i = splice (w.view m i) w.currentJob.nonceOffset (le v.toNat 4) :=
  view_write_self (by simpa using hw.nonce_le)

theorem view_putNonce_ne (hij : i ≠ j) (v : UInt32) : w.view (w.putNonce m j v) i = w.view m i :=
  view_write_ne hij (by simpa using hw.nonce_le)

/-- The nonce of a lane is the one its bytes carry. -/
theorem word_nonceAt : word m (w.nonceAt i) = w.currentJob.nonceOf (w.view m i) := by
  rw [word, nonceAt, Job.nonceOf, view, read_slice hw.nonce_le]

theorem carries_nonce {nonce : UInt32} (h : w.currentJob.Carries (w.bytes i) nonce) :
    w.nonce i = nonce := by
  rw [WorkerJob.nonce, word_nonceAt hw, ← bytes_eq, hw.nonceOf_carries h]

theorem view_bumped (roundSize : UInt32) :
    w.view (w.bumped roundSize n) i =
      if i < n then
        splice (w.bytes i) w.currentJob.nonceOffset (le (w.nonce i + roundSize).toNat 4)
      else
        w.bytes i := by
  induction n with
  | zero => rfl
  | succ n ih =>
    rw [bumped]
    by_cases hi : i = n
    · subst hi
      rw [view_putNonce_self hw, ih, if_neg (lt_irrefl i), if_pos (Nat.lt_succ_self i),
        word_nonceAt hw, ih, if_neg (lt_irrefl i), WorkerJob.nonce, word_nonceAt hw, ← bytes_eq]
    · rw [view_putNonce_ne hw hi, ih]
      exact if_congr (by omega) rfl rfl

theorem bump_carries {roundSize nonce : UInt32} (hi : i < n)
    (h : w.currentJob.Carries (w.bytes i) nonce) :
    w.currentJob.Carries ((w.bump roundSize n).bytes i) (nonce + roundSize) := by
  rw [bump, withBlob_bytes, view_bumped hw, if_pos hi, carries_nonce hw h]
  exact hw.carries_splice h _

theorem storeNonce_eq (hmask : w.mask = w.currentJob.nonceMask) (counter : UInt64) :
    ∃ v, w.storeNonce i counter = w.withBlob (w.putNonce w.blob i v) ∧
      v = (Nonce.write (Nonce.effectiveMask w.mask) counter
        ⟨w.nonce i, word w.blob (w.nonceAt i + 4)⟩).lo := by
  have hbits := Job.effectiveMask_nonceMask hw.nonceSize
  have hsmall : ¬ Nonce.effectiveMask w.mask > 0xFFFFFFFF := by
    rw [hmask, Nonce.gt_word_iff hbits, Job.nonceBits]
    split <;> omega
  exact ⟨_, by rw [storeNonce, if_neg hsmall], rfl⟩

theorem storeNonce_carries {nonce : UInt32} (hmask : w.mask = w.currentJob.nonceMask)
    (counter : UInt64) (h : w.currentJob.Carries (w.bytes i) nonce) :
    w.currentJob.Carries ((w.storeNonce i counter).bytes i)
      (Nonce.write (Nonce.effectiveMask w.mask) counter
        ⟨w.nonce i, word w.blob (w.nonceAt i + 4)⟩).lo := by
  obtain ⟨v, hv, rfl⟩ := storeNonce_eq hw hmask (i := i) counter
  rw [hv, withBlob_bytes, view_putNonce_self hw, ← bytes_eq]
  exact hw.carries_splice h _

theorem storeNonce_bytes_ne (hmask : w.mask = w.currentJob.nonceMask) (hij : i ≠ j)
    (counter : UInt64) : (w.storeNonce j counter).bytes i = w.bytes i := by
  obtain ⟨v, hv, -⟩ := storeNonce_eq hw hmask (i := j) counter
  rw [hv, withBlob_bytes, view_putNonce_ne hw hij, bytes_eq]

section Signature

variable (hsig : w.currentJob.hasMinerSignature = true)

include hsig

theorem sign_bytes_zero (signature : Signature) : (w.sign signature).bytes 0 =
    splice (w.bytes 0) w.currentJob.signatureOffset signature.toList := by
  have h := view_write_self (w := w) (m := w.blob) (i := 0) (o := w.currentJob.signatureOffset)
    (b := signature.toList) (by simpa [kSignatureSize] using hw.signature_le hsig)
  rw [Nat.zero_mul, Nat.zero_add] at h
  rw [WorkerJob.sign, store, withBlob_bytes, h, bytes_eq]

theorem sign_bytes_ne (hi : i ≠ 0) (signature : Signature) :
    (w.sign signature).bytes i = w.bytes i := by
  have h := view_write_ne (w := w) (m := w.blob) (j := 0) (o := w.currentJob.signatureOffset)
    (b := signature.toList) hi (by simpa [kSignatureSize] using hw.signature_le hsig)
  rw [Nat.zero_mul, Nat.zero_add] at h
  rw [WorkerJob.sign, store, withBlob_bytes, h, bytes_eq]

theorem signature_of_signed {nonce : UInt32} {signature : Signature}
    (h : w.bytes 0 = w.currentJob.signed nonce signature) : w.signature = signature := by
  have hroom := hw.signature_room hsig nonce signature
  have hslice : slice (w.bytes 0) w.currentJob.signatureOffset 64 = signature.toList := by
    have hself := slice_splice_self hroom
    rwa [Vector.length_toList, ← Job.signed, ← h] at hself
  rw [bytes_eq, view, read_slice (by simpa [kSignatureSize] using hw.signature_le hsig),
    Nat.zero_mul, Nat.zero_add] at hslice
  apply Vector.toList_inj.mp
  rw [← hslice]
  apply List.ext_getElem <;> simp [WorkerJob.signature, CodeBuffer.read]

end Signature

end Lanes

/-- The masks are those of the jobs, but for a job that was never saved. -/
def Masked (w : WorkerJob) : Prop :=
  ∀ index, w.jobs index = {} ∨ w.nonceMask index = (w.jobs index).nonceMask

section Masked

variable {w : WorkerJob}

theorem Masked.keep {v : WorkerJob} {job : Job} (h : w.Masked) (hv : w.keep job = some v) :
    v.Masked := by
  unfold WorkerJob.keep at hv
  split_ifs at hv <;> cases hv <;> exact h

theorem Masked.select (h : w.Masked) (job : Job) : (w.select job).Masked := by
  intro index
  simp only [WorkerJob.select]
  by_cases hindex : index = job.index
  · subst hindex
    rw [Function.update_self, Function.update_self]
    exact .inr rfl
  · rw [Function.update_of_ne hindex, Function.update_of_ne hindex]
    exact h index

theorem Masked.effectiveMask_lt (h : w.Masked) (hsize : w.currentJob.nonceSize = 4)
    (hvalid : w.currentJob.algorithm ≠ .invalid) :
    (Nonce.effectiveMask w.mask).toNat < 2 ^ 32 := by
  have hmask : w.mask = w.currentJob.nonceMask := by
    refine (h w.index).resolve_left fun hdefault => hvalid ?_
    rw [currentJob, hdefault]
  rw [hmask, Job.effectiveMask_nonceMask hsize, Job.nonceBits]
  split <;> norm_num

end Masked

theorem roundOver_iff {w : WorkerJob} {rounds : UInt32} {j : Nat} (h : rounds.toNat = 2 ^ j) :
    w.roundOver rounds = true ↔ (w.rounds w.index).toNat % rounds.toNat = 0 := by
  have hle : (1 : UInt32) ≤ rounds := UInt32.le_iff_toNat_le.mpr (by
    rw [h]
    exact Nat.one_le_two_pow)
  have hsub : (rounds - 1).toNat = 2 ^ j - 1 := by
    rw [UInt32.toNat_sub_of_le _ _ hle, h]
    rfl
  rw [roundOver, beq_iff_eq, ← UInt32.toNat_inj, UInt32.toNat_and, hsub,
    Nat.and_two_pow_sub_one_eq_mod, h]
  rfl

/-- An eight-byte nonce is all that is synchronised. -/
theorem syncNonce_eq {w : WorkerJob} (h : w.currentJob.nonceSize = 4) : w.syncNonce = w :=
  if_neg fun h8 => absurd (h.symm.trans h8) (by decide)

/-- The first `n` lanes of a job hold its blob, each with some nonce. -/
def Loaded (w : WorkerJob) (index : Fin 2) (n : Nat) : Prop :=
  (w.jobs index).Sound → w.nonceMask index = (w.jobs index).nonceMask ∧
    ∀ i < n, ∃ nonce, (w.jobs index).Carries (w.lane index i) nonce

section Loaded

variable {w : WorkerJob} {index : Fin 2} {n : Nat}

/-- The blob of the other job is not written to. -/
theorem Loaded.withBlob_ne (h : w.Loaded index n) (hne : index ≠ w.index) (m : Memory) :
    (w.withBlob m).Loaded index n := by
  intro hsound
  refine ⟨(h hsound).1, fun i hi => ?_⟩
  rw [withBlob_lane_ne w m hne]
  exact (h hsound).2 i hi

/-- Writes to the current blob keep what both jobs carry if they do so for the current one. -/
theorem Loaded.withBlob (h : w.Loaded index n) (m : Memory)
    (hkeep : w.currentJob.Sound → w.mask = w.currentJob.nonceMask → ∀ i nonce,
      w.currentJob.Carries (w.bytes i) nonce →
      ∃ nonce, w.currentJob.Carries ((w.withBlob m).bytes i) nonce) :
    (w.withBlob m).Loaded index n := by
  by_cases hidx : index = w.index
  · subst hidx
    intro hsound
    obtain ⟨hmask, hlanes⟩ := h hsound
    refine ⟨hmask, fun i hi => ?_⟩
    obtain ⟨nonce, hc⟩ := hlanes i hi
    exact hkeep hsound hmask i nonce hc
  · exact h.withBlob_ne hidx m

theorem Loaded.bump (h : w.Loaded index n) (roundSize : UInt32) (width : Nat) :
    (w.bump roundSize width).Loaded index n := by
  refine h.withBlob _ fun hsound _ i nonce hc => ?_
  by_cases hi : i < width
  · exact ⟨_, bump_carries hsound hi hc⟩
  · refine ⟨nonce, ?_⟩
    rwa [withBlob_bytes, view_bumped hsound, if_neg hi]

theorem Loaded.storeNonce (h : w.Loaded index n) (lane : Nat) (counter : UInt64) :
    (w.storeNonce lane counter).Loaded index n := by
  refine h.withBlob _ fun hsound hmask i nonce hc => ?_
  by_cases hi : i = lane
  · subst hi
    exact ⟨_, storeNonce_carries hsound hmask counter hc⟩
  · exact ⟨nonce, (storeNonce_bytes_ne hsound hmask hi counter).symm ▸ hc⟩

theorem Loaded.sign (h : w.Loaded index n) (hsig : w.currentJob.hasMinerSignature = true)
    (signature : Signature) : (w.sign signature).Loaded index n := by
  refine h.withBlob _ fun hsound _ i nonce hc => ⟨nonce, ?_⟩
  by_cases hi : i = 0
  · subst hi
    have hbytes := (sign_bytes_zero hsound hsig signature).trans
      (hsound.carries_sign hsig hc signature)
    exact .inr ⟨hsig, signature, hbytes⟩
  · exact (sign_bytes_ne hsound hsig hi signature).symm ▸ hc

theorem Loaded.countRound (h : w.Loaded index n) : w.countRound.Loaded index n := by
  unfold Loaded WorkerJob.countRound
  exact h

theorem Loaded.keep {v : WorkerJob} {job : Job} (h : w.Loaded index n) (hv : w.keep job = some v) :
    v.Loaded index n := by
  unfold WorkerJob.keep at hv
  split_ifs at hv <;> cases hv <;> exact h

theorem loaded_select (w : WorkerJob) (job : Job) : (w.select job).Loaded job.index 0 := by
  intro _
  simp [WorkerJob.select, Job.setBackend, Job.nonceMask, Job.nonceSize]

theorem Loaded.select {job : Job} (h : w.Loaded index n) (hne : index ≠ job.index) :
    (w.select job).Loaded index n := by
  unfold Loaded
  simp only [WorkerJob.select, lane, Function.update_of_ne hne]
  exact h

theorem Loaded.copyLane (h : w.Loaded w.index n) : (w.copyLane n).Loaded w.index (n + 1) := by
  intro hsound
  obtain ⟨hmask, hlanes⟩ := h hsound
  refine ⟨hmask, fun i hi => ?_⟩
  by_cases hin : i = n
  · subst hin
    refine ⟨w.currentJob.nonceOf w.currentJob.blob, ?_⟩
    change w.currentJob.Carries ((w.copyLane i).bytes i) _
    rw [copyLane_bytes_self]
    exact hsound.carries_blob
  · obtain ⟨nonce, hc⟩ := hlanes i (by omega)
    refine ⟨nonce, ?_⟩
    change w.currentJob.Carries ((w.copyLane n).bytes i) _
    rwa [copyLane_bytes_ne hin]

end Loaded

end WorkerJob

end VeloxHash
