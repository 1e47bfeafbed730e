import VeloxHash.LaneNonce
import VeloxHash.TransitionSystem

/-! `WorkerJob<1>` access by access, for eight-byte nonces. Their high word stands twice: in
the blob that is hashed, and in the job that results are reported for. Between the accesses
the static members of `Nonce` change by the hands of other threads. -/

namespace VeloxHash

open CodeBuffer Splice TransitionSystem

namespace Nonce

/-- What is left of the high word when a counter is written. -/
theorem write_hi_eq_iff {k : Nat} {mask counter : UInt64} (hmask : mask.toNat = 2 ^ k - 1)
    (hk : k ≤ 64) (hc : counter ≤ mask) (w : Words) :
    (write mask counter w).hi = w.hi ↔ counter >>> 32 = w.hi.toUInt64 &&& mask >>> 32 := by
  have hc' : counter.toNat < 2 ^ k := by
    have := UInt64.le_iff_toNat_le.mp hc
    have := Nat.two_pow_pos k
    omega
  have hhigh {j : Nat} (hj : k ≤ j) : counter.toNat.testBit j = false :=
    Nat.testBit_lt_two_pow (hc'.trans_le (Nat.pow_le_pow_right (by norm_num) hj))
  have hwide {j : Nat} (hj : 32 ≤ j) : w.hi.toNat.testBit j = false :=
    Nat.testBit_lt_two_pow (w.hi.toNat_lt.trans_le (Nat.pow_le_pow_right (by norm_num) hj))
  have hand (i : Nat) : (w.hi.toUInt64 &&& mask >>> 32).toNat.testBit i =
      (w.hi.toNat.testBit i && decide (i + 32 < k)) := by
    rw [UInt64.toNat_and, Nat.testBit_and, UInt32.toNat_toUInt64]
    have hshift := shiftRight_testBit mask (Nat.le_add_left 32 i)
    rw [Nat.add_sub_cancel, mask_testBit hmask] at hshift
    rw [hshift]
  have hcount (i : Nat) : (counter >>> 32).toNat.testBit i = counter.toNat.testBit (i + 32) := by
    have hshift := shiftRight_testBit counter (Nat.le_add_left 32 i)
    rwa [Nat.add_sub_cancel] at hshift
  have hword (hk : 32 < k) (j : Nat) (hj : 32 ≤ j) (h64 : j < 64) :
      (write mask counter w).hi.toNat.testBit (j - 32) =
        (w.hi.toNat.testBit (j - 32) && !decide (j < k) || counter.toNat.testBit j) :=
    write_hi_testBit hmask hk w hj h64
  -- bit by bit, below and above the end of the mask
  have hbit (i : Nat) : (write mask counter w).hi.toNat.testBit i = w.hi.toNat.testBit i ↔
      counter.toNat.testBit (i + 32) = (w.hi.toNat.testBit i && decide (i + 32 < k)) := by
    by_cases hi : i + 32 < k
    · have hwrite := hword (by omega) (i + 32) (Nat.le_add_left 32 i) (by omega)
      rw [Nat.add_sub_cancel] at hwrite
      rw [hwrite]
      simp [hi]
    · rw [hhigh (Nat.not_lt.mp hi), decide_eq_false hi, Bool.and_false]
      refine iff_of_true ?_ rfl
      by_cases hbig : 32 < k
      · by_cases h64 : i + 32 < 64
        · have hwrite := hword hbig (i + 32) (Nat.le_add_left 32 i) h64
          rw [Nat.add_sub_cancel, hhigh (Nat.not_lt.mp hi), decide_eq_false hi] at hwrite
          simpa using hwrite
        · rw [hwide (by omega)]
          exact Nat.testBit_lt_two_pow ((UInt32.toNat_lt _).trans_le
            (Nat.pow_le_pow_right (by norm_num) (by omega)))
      · rw [write, if_neg fun h => hbig ((gt_word_iff hmask).mp h)]
  constructor
  · intro h
    apply UInt64.toNat.inj
    apply Nat.eq_of_testBit_eq
    intro i
    rw [hcount, hand]
    exact (hbit i).mp (by rw [h])
  · intro h
    apply UInt32.toNat.inj
    apply Nat.eq_of_testBit_eq
    intro i
    rw [hbit, ← hcount, ← hand, h]

/-- A counter that waits for the pause, or is returned, lies under the mask. -/
theorem afterFetch_le {a : Args} {counter c : UInt64}
    (h : (Pc.afterFetch a counter).holds = some c) : c ≤ effectiveMask a.mask := by
  have hle : (Pc.afterFetch a counter).holds = some c →
      c = counter ∧ ¬ effectiveMask a.mask < counter := by
    unfold Pc.afterFetch examine
    split_ifs with hlt <;> simp [Pc.holds, eq_comm, hlt]
  obtain ⟨rfl, hnot⟩ := hle h
  exact UInt64.not_lt.mp hnot

/-- An access keeps a call that is under the mask there. -/
theorem step_le {a : Args} {g : Shared} {pc : Pc} {next : Shared × Pc}
    (hnext : pc.step a g = some next)
    (hpaused : ∀ counter, pc.holds = some counter → counter ≤ effectiveMask a.mask)
    {counter : UInt64} (h : next.2.holds = some counter) : counter ≤ effectiveMask a.mask := by
  cases pc with
  | enter =>
    obtain rfl := Option.some.inj hnext
    split at h
    · exact nomatch h
    · exact afterFetch_le h
  | fetch =>
    obtain rfl := Option.some.inj hnext
    exact afterFetch_le h
  | pause c short =>
    obtain rfl := Option.some.inj hnext
    refine hpaused counter ?_
    cases short with
    | true => exact nomatch h
    | false => exact h
  | done result => exact nomatch hnext

end Nonce

/-- `*(nonce() + 1)` of a job. -/
def Job.highWord (j : Job) : UInt32 := UInt32.ofNat (ofLe (slice j.blob (j.nonceOffset + 4) 4))

namespace WideNonce

inductive Caller
  | save
  | nextRound
  deriving DecidableEq, Repr

/-- A call of `Nonce::next` that has not returned. -/
structure Call where
  caller : Caller
  reserveCount : UInt32
  pc : Nonce.Pc
  deriving DecidableEq, Repr

structure State where
  worker : WorkerJob := {}
  shared : Nonce.Shared := {}
  call : Option Call := none

inductive Event
  | add (job : { j : Job // j.Accepted }) (reserveCount : UInt32) (backend : Nonce.Backend)
  | nextRound (rounds roundSize : UInt32)
  | access
  | reserve (index : Fin 2) (amount : UInt32)
  | others (shared : Nonce.Shared)

/-- `save` up to its call of `Nonce::next`. -/
def save (w : WorkerJob) (job : Job) (backend : Nonce.Backend) : WorkerJob :=
  let selected := w.select job
  let jobs := Function.update w.jobs job.index (job.setBackend backend)
  { selected with jobs }.copyLane 0

def add (s : State) (job : Job) (reserveCount : UInt32) (backend : Nonce.Backend) : State :=
  let w := { s.worker with sequence := s.shared.sequence backend }
  match w.keep job with
  | some kept => { s with worker := kept }
  | none =>
    { s with worker := save w job backend, call := some ⟨.save, reserveCount, .enter⟩ }

def nextRound (s : State) (rounds roundSize : UInt32) : State :=
  let w := s.worker.countRound
  if w.roundOver rounds then
    { s with worker := w, call := some ⟨.nextRound, rounds * roundSize, .enter⟩ }
  else
    { s with worker := w.bump roundSize 1 }

/-- What is left to do when `Nonce::next` has returned. -/
def finish (w : WorkerJob) (caller : Caller) : Option UInt64 → WorkerJob
  | none => w
  | some counter =>
    match caller with
    | .save => w.storeNonce 0 counter
    | .nextRound => (w.storeNonce 0 counter).syncNonce

/-- A call moves on to its next access, or returns. -/
def State.move (s : State) (call : Call) (shared : Nonce.Shared) : Nonce.Pc → State
  | .done result => ⟨finish s.worker call.caller result, shared, none⟩
  | pc => { s with shared, call := some { call with pc } }

def step (s : State) : Event → Option State
  | .add job reserveCount backend =>
    if s.call = none then some (add s job reserveCount backend) else none
  | .nextRound rounds roundSize =>
    if s.call = none then some (nextRound s rounds roundSize) else none
  | .access => s.call.bind fun call =>
    (call.pc.step (s.worker.args call.reserveCount) s.shared).map fun next =>
      s.move call next.1 next.2
  | .reserve index amount => some { s with shared := s.shared.fetchAdd index amount }
  | .others shared => some { s with shared }

/-- The high word of the current job is that of the blob. -/
def Coherent (w : WorkerJob) : Prop :=
  w.currentJob.nonceSize = 8 → w.currentJob.highWord = word w.blob (w.nonceAt 0 + 4)

/-- The counter that `save` is given by the next access. -/
def drawn (s : State) : Option UInt64 :=
  match s.call with
  | some ⟨.save, reserveCount, pc⟩ =>
    match pc.step (s.worker.args reserveCount) s.shared with
    | some (_, .done result) => result
    | _ => none
  | _ => none

/-- A counter that `save` draws has the high word that the job has under the mask. -/
def Steady (s : State) : Event → Prop
  | .access => ∀ counter, drawn s = some counter → s.worker.currentJob.nonceSize = 8 →
      counter >>> 32 = s.worker.currentJob.highWord.toUInt64 &&&
        Nonce.effectiveMask s.worker.mask >>> 32
  | _ => True

open Nonce (effectiveMask)

variable {w v : WorkerJob} {index : Fin 2} {s t : State}

/-- A job with an eight-byte nonce, and the blob that was made from it. -/
structure Side (w : WorkerJob) (index : Fin 2) : Prop where
  nonce_le : (w.jobs index).nonceOffset + 8 ≤ (w.jobs index).size
  mask : w.nonceMask index = (w.jobs index).nonceMask
  word : (w.jobs index).highWord = word (w.blobs index) ((w.jobs index).nonceOffset + 4)

def Sides (w : WorkerJob) : Prop := ∀ index, (w.jobs index).nonceSize = 8 → Side w index

theorem side_of_job {job : Job} (hjob : v.jobs index = job)
    (hle : job.nonceOffset + 8 ≤ job.size) (hmask : v.nonceMask index = job.nonceMask)
    (hword : job.highWord = VeloxHash.word (v.blobs index) (job.nonceOffset + 4)) :
    Side v index := by
  subst hjob
  exact ⟨hle, hmask, hword⟩

theorem nonceAt_zero (w : WorkerJob) : w.nonceAt 0 = w.currentJob.nonceOffset := by
  rw [WorkerJob.nonceAt, Nat.zero_mul, Nat.zero_add]

theorem Sides.coherent (h : Sides w) : Coherent w := by
  intro h8
  rw [nonceAt_zero]
  exact (h w.index h8).word

/-- What an operation on the current job has to keep. -/
theorem Sides.current (h : Sides w)
    (hjobs : ∀ i ≠ v.index, v.jobs i = w.jobs i) (hblobs : ∀ i ≠ v.index, v.blobs i = w.blobs i)
    (hmasks : ∀ i ≠ v.index, v.nonceMask i = w.nonceMask i)
    (hside : v.currentJob.nonceSize = 8 → Side v v.index) : Sides v := by
  intro i h8
  by_cases hi : i = v.index
  · subst hi
    exact hside h8
  · rw [hjobs i hi] at h8
    obtain ⟨hle, hmask, hword⟩ := h i h8
    refine ⟨?_, ?_, ?_⟩
    · rwa [hjobs i hi]
    · rw [hmasks i hi, hjobs i hi, hmask]
    · rw [hjobs i hi, hblobs i hi, hword]

/-- Another blob with the same high word. -/
theorem Sides.withBlob (h : Sides w) {m : Memory}
    (hword : word m (w.currentJob.nonceOffset + 4) =
      word w.blob (w.currentJob.nonceOffset + 4)) : Sides (w.withBlob m) := by
  refine h.current (fun _ _ => rfl) (fun i hi => Function.update_of_ne hi ..) (fun _ _ => rfl) ?_
  intro h8
  obtain ⟨hle, hmask, hside⟩ := h w.index h8
  refine ⟨hle, hmask, ?_⟩
  change _ = VeloxHash.word (w.withBlob m).blob _
  rw [WorkerJob.withBlob_blob]
  exact hside.trans hword.symm

theorem Sides.keep {job : Job} (h : Sides w) (hv : w.keep job = some v) : Sides v := by
  unfold WorkerJob.keep at hv
  intro i h8
  split_ifs at hv <;> cases hv
  · exact h i h8
  · obtain ⟨hle, hmask, hword⟩ := h i h8
    exact ⟨hle, hmask, hword⟩

theorem Sides.save (h : Sides w) {job : Job} (hjob : job.Accepted) (backend : Nonce.Backend) :
    Sides (save w job backend) := by
  refine h.current (fun i hi => Function.update_of_ne hi ..)
    (fun i hi => Function.update_of_ne hi ..) (fun i hi => Function.update_of_ne hi ..) ?_
  have hcur : (WideNonce.save w job backend).jobs job.index = job.setBackend backend :=
    Function.update_self ..
  change (Job.nonceSize ((WideNonce.save w job backend).jobs job.index)) = 8 →
    Side (WideNonce.save w job backend) job.index
  intro h8
  rw [hcur] at h8
  have hsize : job.nonceOffset + 8 ≤ job.blob.length := by
    have hplaced := hjob.placed
    rwa [show job.nonceSize = 8 from h8] at hplaced
  have hblob : (WideNonce.save w job backend).blobs job.index =
      write (w.blobs job.index) 0 job.blob := by
    refine (Function.update_self ..).trans ?_
    have hset := congrArg (fun j : Job => write (w.blobs job.index) 0 j.blob)
      (Function.update_self job.index (job.setBackend backend) w.jobs)
    rw [Nat.zero_mul]
    exact hset
  have hslice := read_slice (m := write (w.blobs job.index) 0 job.blob) (p := 0)
    (o := job.nonceOffset + 4) (k := 4) hsize
  rw [read_write_take le_rfl, List.take_length, Nat.zero_add] at hslice
  refine side_of_job hcur hsize (Function.update_self ..) ?_
  rw [hblob, VeloxHash.word]
  exact congrArg (fun bytes => UInt32.ofNat (ofLe bytes)) hslice

theorem Sides.bump (h : Sides w) (roundSize : UInt32) : Sides (w.bump roundSize 1) := by
  refine h.withBlob ?_
  rw [WorkerJob.bumped, WorkerJob.bumped, WorkerJob.putNonce, nonceAt_zero]
  exact word_write_disjoint (.inr (by rw [length_le]))

/-- The high word that `Nonce::next` leaves in the blob. -/
theorem high_storeNonce (w : WorkerJob) (counter : UInt64) :
    word (w.storeNonce 0 counter).blob (w.currentJob.nonceOffset + 4) =
      (Nonce.write (effectiveMask w.mask) counter
        ⟨w.nonce 0, word w.blob (w.currentJob.nonceOffset + 4)⟩).hi := by
  unfold WorkerJob.storeNonce
  dsimp only
  rw [WorkerJob.withBlob_blob, nonceAt_zero]
  split
  case isTrue => exact word_write_self ..
  case isFalse hsmall =>
    rw [WorkerJob.putNonce, nonceAt_zero, word_write_disjoint (.inr (by rw [length_le])),
      Nonce.write, if_neg hsmall]

theorem storeNonce_eq (w : WorkerJob) (counter : UInt64) :
    ∃ m, w.storeNonce 0 counter = w.withBlob m := ⟨_, rfl⟩

/-- `nextRound` copies whatever high word there is. -/
theorem Sides.sync (h : Sides w) (counter : UInt64) :
    Sides (w.storeNonce 0 counter).syncNonce := by
  obtain ⟨m, hm⟩ := storeNonce_eq w counter
  rw [hm]
  unfold WorkerJob.syncNonce
  dsimp only
  rw [WorkerJob.withBlob_currentJob]
  split
  case isFalse hsize =>
    exact h.current (fun _ _ => rfl) (fun i hi => Function.update_of_ne hi ..) (fun _ _ => rfl)
      fun h8 => absurd h8 hsize
  case isTrue h8 =>
    obtain ⟨hle, hmask, -⟩ := h w.index h8
    have hlen : w.currentJob.nonceOffset + 4 +
        (read m (w.currentJob.nonceOffset + 4) 4).length ≤ w.currentJob.blob.length := by
      rw [length_read]
      exact hle
    refine h.current (fun i hi => Function.update_of_ne hi ..)
      (fun i hi => Function.update_of_ne hi ..) (fun _ _ => rfl) fun _ => ?_
    refine side_of_job (Function.update_self ..) ?_ hmask ?_
    · rw [Job.size, nonceAt_zero, WorkerJob.withBlob_blob, WorkerJob.withBlob_currentJob,
        length_splice hlen]
      exact hle
    · have hslice := slice_splice_self hlen
      rw [length_read] at hslice
      rw [Job.highWord, nonceAt_zero, WorkerJob.withBlob_blob, WorkerJob.withBlob_currentJob]
      refine (congrArg (fun bytes => UInt32.ofNat (ofLe bytes)) hslice).trans ?_
      change word m _ = word (w.withBlob m).blob _
      rw [WorkerJob.withBlob_blob]
      rfl


structure Inv (s : State) : Prop where
  sides : Sides s.worker
  paused : ∀ call, s.call = some call → ∀ counter, call.pc.holds = some counter →
    counter ≤ effectiveMask s.worker.mask

theorem inv_idle (hs : Sides s.worker) (hcall : s.call = none) : Inv s where
  sides := hs
  paused call h := absurd (hcall.symm.trans h) (by simp)

theorem inv_enter {caller : Caller} {reserveCount : UInt32} (hs : Sides w) (g : Nonce.Shared) :
    Inv ⟨w, g, some ⟨caller, reserveCount, .enter⟩⟩ where
  sides := hs
  paused call h counter hholds := by
    obtain rfl := Option.some.inj h
    exact nomatch hholds

theorem inv_add (hs : Inv s) (hcall : s.call = none) {job : Job} (hjob : job.Accepted)
    (reserveCount : UInt32) (backend : Nonce.Backend) :
    Inv (add s job reserveCount backend) := by
  have hsides : Sides { s.worker with sequence := s.shared.sequence backend } := by
    intro i h8
    obtain ⟨hle, hmask, hword⟩ := hs.sides i h8
    exact ⟨hle, hmask, hword⟩
  unfold add
  dsimp only
  split
  case h_1 kept hkept => exact inv_idle (hsides.keep hkept) hcall
  case h_2 => exact inv_enter (hsides.save hjob backend) s.shared

theorem inv_nextRound (hs : Inv s) (hcall : s.call = none) (rounds roundSize : UInt32) :
    Inv (nextRound s rounds roundSize) := by
  have hsides : Sides s.worker.countRound := by
    intro i h8
    obtain ⟨hle, hmask, hword⟩ := hs.sides i h8
    exact ⟨hle, hmask, hword⟩
  unfold nextRound
  dsimp only
  split
  case isTrue => exact inv_enter hsides s.shared
  case isFalse => exact inv_idle (hsides.bump roundSize) hcall

/-- After `save` has drawn a counter the two words are as one exactly if it is steady. -/
theorem coherent_save_iff (hs : Sides w) {counter : UInt64} (hc : counter ≤ effectiveMask w.mask) :
    Coherent (w.storeNonce 0 counter) ↔
      (w.currentJob.nonceSize = 8 →
        counter >>> 32 = w.currentJob.highWord.toUInt64 &&& effectiveMask w.mask >>> 32) := by
  obtain ⟨m, hm⟩ := storeNonce_eq w counter
  have hhigh := high_storeNonce w counter
  rw [hm] at hhigh ⊢
  unfold Coherent
  rw [nonceAt_zero, WorkerJob.withBlob_currentJob, hhigh]
  refine forall_congr' fun h8 => ?_
  obtain ⟨-, hmask, hword⟩ := hs w.index h8
  obtain ⟨k, hk, hbits⟩ := (w.jobs w.index).effectiveMask_bits
  rw [← hmask] at hbits
  have hiff := Nonce.write_hi_eq_iff hbits (by omega) hc
    ⟨w.nonce 0, word w.blob (w.currentJob.nonceOffset + 4)⟩
  have hword' : w.currentJob.highWord = word w.blob (w.currentJob.nonceOffset + 4) := hword
  rw [hword']
  exact eq_comm.trans hiff

theorem Sides.storeNonce (hs : Sides w) {counter : UInt64} (h : Coherent (w.storeNonce 0 counter)) :
    Sides (w.storeNonce 0 counter) := by
  obtain ⟨m, hm⟩ := storeNonce_eq w counter
  rw [hm] at h ⊢
  refine hs.current (fun _ _ => rfl) (fun i hi => Function.update_of_ne hi ..) (fun _ _ => rfl) ?_
  intro h8
  obtain ⟨hle, hmask, -⟩ := hs w.index h8
  have hword := h h8
  rw [nonceAt_zero] at hword
  exact ⟨hle, hmask, hword⟩

theorem drawn_eq_some_iff {counter : UInt64} : drawn s = some counter ↔
    ∃ reserveCount pc shared, s.call = some ⟨.save, reserveCount, pc⟩ ∧
      pc.step (s.worker.args reserveCount) s.shared = some (shared, .done (some counter)) := by
  constructor
  · intro h
    unfold drawn at h
    split at h
    case h_2 => exact nomatch h
    case h_1 reserveCount pc hcall =>
      split at h
      case h_2 => exact nomatch h
      case h_1 shared result hnext =>
        subst h
        exact ⟨reserveCount, pc, shared, hcall, hnext⟩
  · rintro ⟨reserveCount, pc, shared, hcall, hnext⟩
    unfold drawn
    rw [hcall]
    dsimp only
    rw [hnext]

theorem move_inv (hs : Inv s) {call : Call} (hcall : s.call = some call)
    {shared : Nonce.Shared} {pc : Nonce.Pc}
    (hnext : call.pc.step (s.worker.args call.reserveCount) s.shared = some (shared, pc)) :
    (Coherent (s.move call shared pc).worker ↔ Steady s .access) ∧
      (Steady s .access → Inv (s.move call shared pc)) := by
  have hle {counter : UInt64} (h : pc.holds = some counter) :
      counter ≤ effectiveMask s.worker.mask :=
    Nonce.step_le hnext (hs.paused call hcall) h
  -- what `save` is given, if anything
  have hdrawn {counter : UInt64} (h : drawn s = some counter) :
      call.caller = .save ∧ pc = .done (some counter) := by
    obtain ⟨reserveCount, pc', shared', hcall', hnext'⟩ := drawn_eq_some_iff.mp h
    obtain rfl := Option.some.inj (hcall.symm.trans hcall')
    have hpair := Option.some.inj (hnext.symm.trans hnext')
    exact ⟨rfl, congrArg Prod.snd hpair⟩
  have hquiet (hinv : Inv (s.move call shared pc))
      (hno : call.caller = .save → ∀ counter, pc ≠ .done (some counter)) :
      (Coherent (s.move call shared pc).worker ↔ Steady s .access) ∧
        (Steady s .access → Inv (s.move call shared pc)) := by
    refine ⟨iff_of_true hinv.sides.coherent fun counter h => ?_, fun _ => hinv⟩
    exact absurd (hdrawn h).2 (hno (hdrawn h).1 counter)
  have hmoved (hpc : ∀ result, pc ≠ .done result) : Inv (s.move call shared pc) := by
    have heq : s.move call shared pc = { s with shared, call := some { call with pc } } := by
      cases pc with
      | done result => exact absurd rfl (hpc result)
      | _ => rfl
    rw [heq]
    refine ⟨hs.sides, fun call' hcall' counter hholds => ?_⟩
    obtain rfl := Option.some.inj hcall'
    exact hle hholds
  cases hpc : pc with
  | enter => exact hpc ▸ hquiet (hmoved (by simp [hpc])) (by simp [hpc])
  | fetch => exact hpc ▸ hquiet (hmoved (by simp [hpc])) (by simp [hpc])
  | pause counter short => exact hpc ▸ hquiet (hmoved (by simp [hpc])) (by simp [hpc])
  | done result =>
    subst hpc
    cases result with
    | none => exact hquiet (inv_idle hs.sides rfl) (by simp)
    | some counter =>
      cases hcaller : call.caller with
      | nextRound =>
        refine hquiet (inv_idle ?_ rfl) (by simp [hcaller])
        simp only [State.move, finish, hcaller]
        exact hs.sides.sync counter
      | save =>
        have hworker : (s.move call shared (.done (some counter))).worker =
            s.worker.storeNonce 0 counter := by simp only [State.move, finish, hcaller]
        have hsteady : Steady s .access ↔ (s.worker.currentJob.nonceSize = 8 →
            counter >>> 32 = s.worker.currentJob.highWord.toUInt64 &&&
              effectiveMask s.worker.mask >>> 32) := by
          constructor
          · intro h
            refine h counter (drawn_eq_some_iff.mpr ⟨call.reserveCount, call.pc, shared, ?_, hnext⟩)
            rw [hcall, ← hcaller]
          · intro h c hc
            obtain rfl : counter = c := by simpa using (hdrawn hc).2
            exact h
        have hiff := coherent_save_iff hs.sides (hle rfl)
        rw [hworker, hiff, hsteady]
        refine ⟨Iff.rfl, fun h => inv_idle ?_ rfl⟩
        rw [hworker]
        exact hs.sides.storeNonce (hiff.mpr h)

/-- One step of the worker or of the others. -/
theorem step_coherent {e : Event} (hs : Inv s) (h : step s e = some t) :
    (Coherent t.worker ↔ Steady s e) ∧ (Steady s e → Inv t) := by
  have hkept (ht : Inv t) (hsteady : Steady s e) :
      (Coherent t.worker ↔ Steady s e) ∧ (Steady s e → Inv t) :=
    ⟨iff_of_true ht.sides.coherent hsteady, fun _ => ht⟩
  cases e with
  | add job reserveCount backend =>
    obtain ⟨hcall, h⟩ := Option.ite_none_right_eq_some.mp h
    obtain rfl := Option.some.inj h
    exact hkept (inv_add hs hcall job.2 reserveCount backend) trivial
  | nextRound rounds roundSize =>
    obtain ⟨hcall, h⟩ := Option.ite_none_right_eq_some.mp h
    obtain rfl := Option.some.inj h
    exact hkept (inv_nextRound hs hcall rounds roundSize) trivial
  | access =>
    obtain ⟨call, hcall, h⟩ := Option.bind_eq_some_iff.mp h
    obtain ⟨next, hnext, rfl⟩ := Option.map_eq_some_iff.mp h
    exact move_inv hs hcall hnext
  | reserve index amount =>
    obtain rfl := Option.some.inj h
    exact hkept ⟨hs.sides, hs.paused⟩ trivial
  | others shared =>
    obtain rfl := Option.some.inj h
    exact hkept ⟨hs.sides, hs.paused⟩ trivial

theorem inv_initial (shared : Nonce.Shared) : Inv ⟨{}, shared, none⟩ :=
  inv_idle (fun _ h8 => absurd (show ({} : Job).nonceSize = 8 from h8) (by decide)) rfl

/-- Throughout a run the job has the high word of its blob if every counter that `save` draws
has that word already, and only then. -/
theorem coherent_iff_steady (shared : Nonce.Shared) (events : List Event) :
    (∀ k t, exec step ⟨{}, shared, none⟩ (events.take k) = some t → Coherent t.worker) ↔
      ∀ k (hk : k < events.length) s t, exec step ⟨{}, shared, none⟩ (events.take k) = some s →
        step s events[k] = some t → Steady s events[k] :=
  forall_take_iff (fun _ hs => hs.sides.coherent) (fun _ _ _ hs h => step_coherent hs h)
    (inv_initial shared) events

/-- A KawPow job for the extra nonce `abcd`. -/
def kawpow : Job where
  algorithm := .kawpowRvn
  extraNonce := "abcd"
  blob := List.replicate 38 0 ++ [0xCD, 0xAB] ++ List.replicate 36 0

theorem kawpow_accepted : kawpow.Accepted := by decide

def kawpowJob (id : String) (target : UInt64) : { j : Job // j.Accepted } :=
  ⟨{ kawpow with id, target }, kawpow_accepted.placed, kawpow_accepted.nicehash⟩

/-- Another worker takes `2 ^ 25` nonces, 128 times, before the pool sends the same blob with
another target. -/
def retarget : List Event :=
  [.add (kawpowJob "1" 100) 33554432 .opencl, .access] ++
    List.replicate 128 (.reserve 0 33554432) ++
    [.add (kawpowJob "2" 50) 33554432 .opencl, .access]

/-- The blob has the high word of the counter, the job still that of the pool. -/
theorem stale_high_word :
    (exec step ⟨{}, {}, none⟩ retarget).map (fun t => (t.worker.currentJob.nonceSize,
        t.worker.currentJob.highWord, word t.worker.blob (t.worker.nonceAt 0 + 4))) =
      some (8, 0xABCD0000, 0xABCD0001) ∧
    ¬ ∀ k t, exec step ⟨{}, {}, none⟩ (retarget.take k) = some t → Coherent t.worker := by
  have hend : (exec step ⟨{}, {}, none⟩ retarget).map (fun t => (t.worker.currentJob.nonceSize,
      t.worker.currentJob.highWord, word t.worker.blob (t.worker.nonceAt 0 + 4))) =
      some (8, 0xABCD0000, 0xABCD0001) := by decide +kernel
  refine ⟨hend, fun h => ?_⟩
  obtain ⟨t, ht, hwords⟩ := Option.map_eq_some_iff.mp hend
  have hall : retarget.take retarget.length = retarget := List.take_length
  have hcoherent := h retarget.length t (hall.symm ▸ ht) (congrArg Prod.fst hwords)
  have hhigh : t.worker.currentJob.highWord = 0xABCD0000 := congrArg (·.2.1) hwords
  have hblob : word t.worker.blob (t.worker.nonceAt 0 + 4) = 0xABCD0001 := congrArg (·.2.2) hwords
  rw [hhigh, hblob] at hcoherent
  exact absurd hcoherent (by decide)

end WideNonce
end VeloxHash
