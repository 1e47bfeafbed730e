import VeloxHash.CounterLedger
import VeloxHash.NonceReservation
import VeloxHash.OclWorker

/-! Any number of OpenCL workers next to the main thread and to workers of other backends, in any
order of their accesses: which nonces their batches are made of. -/

namespace VeloxHash.OclNonces

open CodeBuffer Splice TransitionSystem OclWorker TicketBook CounterLedger
open Nonce (effectiveMask)

variable {ι : Type*}

/-- The ghosts `drawn` and `stale` list the blobs for which nonces were fetched since the last
reset of a counter, and before it. -/
structure World (ι : Type*) where
  shared : Nonce.Shared := {}
  miner : JobChange.Miner := {}
  workers : ι → Worker := fun _ => {}
  log : List (ι × Event) := []
  drawn : Fin 2 → List (List UInt8) := fun _ => []
  stale : Fin 2 → List (List UInt8) := fun _ => []

/-- An access of the main thread or of a worker, or a reservation of another backend. -/
inductive Access (ι : Type*)
  | main (event : JobChange.Event)
  | worker (i : ι) (ready throws : Bool)
  | reserve (index : Fin 2) (amount : UInt32)

/-- The job that a worker has. -/
def current (w : Worker) : Job := w.origin w.job.index

/-- The worker goes on to fetch a range. -/
def fetches (w : Worker) : Bool :=
  match w.pc with
  | .save _ .enter | .save _ .fetch | .next .enter | .next .fetch => true
  | _ => false

namespace World

def environment (s : World ι) (ready throws : Bool) : Environment :=
  ⟨s.shared, s.miner.job, ready, throws⟩

def main (s : World ι) (event : JobChange.Event) : Option (World ι) :=
  (s.miner.step s.shared event).map fun (miner, shared) =>
    match s.miner.resets event with
    | none => { s with miner, shared }
    | some index =>
      { s with
        miner, shared
        drawn := Function.update s.drawn index []
        stale := Function.update s.stale index (s.drawn index ++ s.stale index) }

def work [DecidableEq ι] (s : World ι) (i : ι) (effect : Effect) : World ι :=
  let w := s.workers i
  { s with
    shared := effect.shared
    workers := Function.update s.workers i effect.worker
    log := s.log ++ effect.events.map fun e => (i, e)
    drawn :=
      if fetches w then
        Function.update s.drawn w.job.index ((current w).blob :: s.drawn w.job.index)
      else s.drawn }

end World

variable [DecidableEq ι]

def step (intensity : ι → UInt32) (s : World ι) : Access ι → Option (World ι)
  | .main event => s.main event
  | .worker i ready throws =>
    (OclWorker.step (intensity i) (s.environment ready throws) (s.workers i)).map (s.work i)
  | .reserve index amount => some { s with shared := s.shared.fetchAdd index amount }

/-- A worker calls `run` only with a nonce that it drew since the last call for the job, and
fetches nothing for a blob for which nonces were fetched before the counter was reset. The counter
does not overflow. -/
def Allowed (intensity : ι → UInt32) (s : World ι) : Access ι → Prop
  | .main _ => True
  | .worker i _ _ =>
    ((s.workers i).pc = .run → (s.workers i).drawn (s.workers i).job.index ≠ none) ∧
    (fetches (s.workers i) = true →
      (current (s.workers i)).blob ∉ s.stale (s.workers i).job.index ∧
        (s.shared.nonces (s.workers i).job.index).toNat + (intensity i).toNat < 2 ^ 64)
  | .reserve index amount => (s.shared.nonces index).toNat + amount.toNat < 2 ^ 64

local instance lawfulBlobs : LawfulBEq (List UInt8) := inferInstance

instance (intensity : ι → UInt32) (s : World ι) (a : Access ι) :
    Decidable (Allowed intensity s a) := by
  cases a <;> unfold Allowed <;> infer_instance

/-- The jobs that the miner is given. -/
def given (schedule : List (Access ι)) : List Job :=
  schedule.filterMap fun
    | .main (.setJob job _ _) => some job
    | _ => none

/-- The nonce in bytes of a job. -/
def nonceValue (job : Job) (bytes : List UInt8) : ℕ :=
  ofLe (slice bytes job.nonceOffset job.nonceSize)

/-- The first nonce that a batch hashes: `nonce` is its low word. -/
def first (b : Batch) : ℕ := nonceValue b.job b.blob

def batches (log : List (ι × Event)) : List Batch :=
  log.filterMap fun
    | (_, .batch b) => some b
    | _ => none

/-- Batches for one index and one blob have no nonce in common. -/
def Apart (b c : Batch) : Prop :=
  b.job.index = c.job.index → b.job.blob = c.job.blob →
    Disjoint (Set.Ico (first b) (first b + b.intensity.toNat))
      (Set.Ico (first c) (first c + c.intensity.toNat))

def eventsOf (i : ι) (log : List (ι × Event)) : List Event :=
  log.filterMap fun e => if e.1 = i then some e.2 else none

/-- `nextRound` failed, and no other job was consumed since. -/
def failedBy (failed : Bool) : Event → Bool
  | .failed => true
  | .consumed => false
  | .batch _ => failed

def failed (i : ι) (log : List (ι × Event)) : Bool := (eventsOf i log).foldl failedBy false

/-- No thread goes on with a job after `nextRound` failed. -/
def Orderly (log : List (ι × Event)) : Prop :=
  ∀ before after i b, log = before ++ (i, .batch b) :: after → failed i before = false

/-- How many nonces the pool left to the miner, from a multiple of that number on. -/
def span (job : Job) : ℕ := (effectiveMask job.nonceMask).toNat + 1

/-- The nonces of a job start here. -/
def base (job : Job) : ℕ := nonceValue job job.blob / span job * span job

section Values

variable {w : WorkerJob} {counter : UInt64}

theorem nonceSize_cases (job : Job) : job.nonceSize = 4 ∨ job.nonceSize = 8 := by
  unfold Job.nonceSize Algorithm.nonceSize
  split
  · exact .inr rfl
  · exact .inl rfl

theorem span_eq {job : Job} {k : ℕ} (h : (effectiveMask job.nonceMask).toNat = 2 ^ k - 1) :
    span job = 2 ^ k := by
  have := Nat.two_pow_pos k
  rw [span, h]
  omega

theorem low_storeNonce (w : WorkerJob) (counter : UInt64) :
    word (w.storeNonce 0 counter).blob w.currentJob.nonceOffset =
      (Nonce.write (effectiveMask w.mask) counter
        ⟨w.nonce 0, word w.blob (w.currentJob.nonceOffset + 4)⟩).lo := by
  unfold WorkerJob.storeNonce
  dsimp only
  rw [WorkerJob.withBlob_blob, WideNonce.nonceAt_zero]
  split
  case isTrue =>
    rw [word_write_disjoint (.inl le_rfl), WorkerJob.putNonce, WideNonce.nonceAt_zero]
    exact word_write_self ..
  case isFalse =>
    rw [WorkerJob.putNonce, WideNonce.nonceAt_zero]
    exact word_write_self ..

/-- The nonce in a worker's blob. -/
def stored (job : Job) (m : Memory) : ℕ := ofLe (read m job.nonceOffset job.nonceSize)

/-- `Nonce::next` writes the counter over the low bits of the nonce. -/
theorem stored_storeNonce (hmask : w.mask = w.currentJob.nonceMask)
    (hle : counter ≤ effectiveMask w.mask) :
    stored w.currentJob (w.storeNonce 0 counter).blob / span w.currentJob =
        stored w.currentJob w.blob / span w.currentJob ∧
      stored w.currentJob (w.storeNonce 0 counter).blob % span w.currentJob = counter.toNat := by
  have hlow := low_storeNonce w counter
  have hhigh := WideNonce.high_storeNonce w counter
  have hle' : counter.toNat ≤ (effectiveMask w.mask).toNat := UInt64.le_iff_toNat_le.mp hle
  have hnonce : w.nonce 0 = word w.blob w.currentJob.nonceOffset := by
    rw [WorkerJob.nonce, WideNonce.nonceAt_zero]
  rw [hnonce] at hlow hhigh
  unfold stored
  rcases nonceSize_cases w.currentJob with h4 | h8
  · have hbits := Job.effectiveMask_nonceMask h4
    rw [h4, span_eq hbits, ← toNat_word, ← toNat_word, hlow]
    rw [← hmask] at hbits
    have hpos := Nat.two_pow_pos w.currentJob.nonceBits
    have hlt : counter.toNat < 2 ^ w.currentJob.nonceBits := by omega
    rw [Nonce.write_lo w.currentJob.nonceBits_le hbits hle']
    constructor
    · rw [Nat.add_comm, Nat.add_mul_div_right _ _ hpos, Nat.div_eq_of_lt hlt, Nat.zero_add]
    · rw [Nat.add_comm, Nat.add_mul_mod_self_right, Nat.mod_eq_of_lt hlt]
  · obtain ⟨k, hk, hbits⟩ := w.currentJob.effectiveMask_bits
    rw [h8, span_eq hbits, ofLe_read_eight, ofLe_read_eight, hlow, hhigh]
    rw [← hmask] at hbits
    obtain ⟨hmod, hdiv⟩ := Nonce.write_value hk hbits hle'
      ⟨word w.blob w.currentJob.nonceOffset, word w.blob (w.currentJob.nonceOffset + 4)⟩
    exact ⟨hdiv, hmod⟩

/-- A range that fits does not carry into the high word. -/
theorem low_word {job : Job} {value : ℕ} {count : UInt32}
    (hfits : Nonce.Fits (effectiveMask job.nonceMask) count counter)
    (hvalue : value % span job = counter.toNat) :
    value % 2 ^ 32 + count.toNat ≤ 2 ^ 32 := by
  obtain ⟨k, -, hbits⟩ := job.effectiveMask_bits
  have hle := hfits.le_mask
  have hlow := hfits.low_word
  have hpos := Nat.two_pow_pos k
  rw [span_eq hbits] at hvalue
  rcases Nat.le_total 32 k with hk | hk
  · have hmod : value % 2 ^ 32 = counter.toNat % 2 ^ 32 := by
      rw [← hvalue, Nat.mod_mod_of_dvd _ (Nat.pow_dvd_pow 2 hk)]
    omega
  · obtain ⟨d, hd⟩ := Nat.exists_eq_add_of_le hk
    have hmod : value % 2 ^ 32 % 2 ^ k = counter.toNat := by
      rw [Nat.mod_mod_of_dvd _ (Nat.pow_dvd_pow 2 hk), hvalue]
    have hquot : value % 2 ^ 32 / 2 ^ k < 2 ^ d := by
      rw [Nat.div_lt_iff_lt_mul hpos, ← pow_add, Nat.add_comm d, ← hd]
      exact Nat.mod_lt _ (by norm_num)
    have hmul := Nat.mul_le_mul_right (2 ^ k) hquot
    rw [← pow_add, Nat.add_comm d, ← hd, Nat.succ_mul] at hmul
    have hsplit := Nat.div_add_mod' (value % 2 ^ 32) (2 ^ k)
    omega

end Values

abbrev Key := Fin 2 × List UInt8

/-- The call of `Nonce::next` that a thread is in. -/
def calling : Pc → Option Nonce.Pc
  | .save _ call => some call
  | .next call => some call
  | _ => none

/-- From `run` or `save` up to the return of `Nonce::next` the nonce in the blob is used up. -/
def busy : Pc → Bool
  | .save _ _ | .check | .next _ => true
  | _ => false

def key (w : Worker) : Key := (w.job.index, (current w).blob)

def drawnTickets (r : UInt32) (w : Worker) (index : Fin 2) : Multiset (Key × ℕ) :=
  match w.drawn index with
  | some counter => stretch (index, (w.origin index).blob) counter.toNat r.toNat
  | none => 0

/-- The range that a call is about to return. -/
def inflight (r : UInt32) (w : Worker) : Multiset (Key × ℕ) :=
  match calling w.pc with
  | some (.pause counter false) => stretch (key w) counter.toNat r.toNat
  | _ => 0

/-- The nonces that a worker has reserved and not used. -/
def held (r : UInt32) (w : Worker) (index : Fin 2) : Multiset (Key × ℕ) :=
  drawnTickets r w index + if index = w.job.index then inflight r w else 0

def tickets : Event → Multiset (Key × ℕ)
  | .batch b =>
    match b.counter with
    | some counter => stretch (b.job.index, b.job.blob) counter.toNat b.intensity.toNat
    | none => 0
  | _ => 0

def spent (events : List Event) : Multiset (Key × ℕ) := (events.map tickets).sum

/-- A batch made of a range that was drawn for its job. -/
structure Drawn (known : Job → Prop) (b : Batch) : Prop where
  known : known b.job
  counter : ∃ counter, b.counter = some counter ∧ first b = base b.job + counter.toNat ∧
    Nonce.Fits (effectiveMask b.job.nonceMask) b.intensity counter
  word : b.nonce.toNat = first b % 2 ^ 32
  room : b.nonce.toNat + b.intensity.toNat ≤ 2 ^ 32

section Worker

variable {known : Job → Prop} {r : UInt32} {w w' : Worker} {index : Fin 2}

/-- The blob of a job from the miner, with a nonce of its block. -/
structure Holds (known : Job → Prop) (r : UInt32) (w : Worker) (index : Fin 2) : Prop where
  known : known (w.origin index)
  indexed : (w.origin index).index = index
  job : ∃ blob, blob.length = (w.origin index).size ∧
    w.job.jobs index = { (w.origin index).setBackend .opencl with blob }
  mask : w.job.nonceMask index = (w.origin index).nonceMask
  block : stored (w.origin index) (w.job.blobs index) / span (w.origin index) *
    span (w.origin index) = base (w.origin index)
  drawn : ∀ counter, w.drawn index = some counter →
    stored (w.origin index) (w.job.blobs index) % span (w.origin index) = counter.toNat ∧
      Nonce.Fits (effectiveMask (w.origin index).nonceMask) r counter

def Side (known : Job → Prop) (r : UInt32) (w : Worker) (index : Fin 2) : Prop :=
  w.job.jobs index = {} ∧ w.drawn index = none ∨ Holds known r w index

structure WorkerInv (known : Job → Prop) (r : UInt32) (w : Worker) : Prop where
  sides : ∀ index, Side known r w index
  busy : busy w.pc = true → Holds known r w w.job.index ∧ w.drawn w.job.index = none
  fetch : calling w.pc = some .fetch → 1 ≤ r.toNat
  takes : ∀ counter, calling w.pc = some (.pause counter false) →
    Nonce.Fits (effectiveMask (current w).nonceMask) r counter

/-- Nothing of one of the two jobs differs but its rounds. -/
structure Same (w w' : Worker) (index : Fin 2) : Prop where
  job : w'.job.jobs index = w.job.jobs index
  blob : w'.job.blobs index = w.job.blobs index
  mask : w'.job.nonceMask index = w.job.nonceMask index
  origin : w'.origin index = w.origin index
  drawn : w'.drawn index = w.drawn index

theorem Same.holds (h : Same w w' index) (hw : Holds known r w index) :
    Holds known r w' index := by
  refine ⟨?_, ?_, ?_, ?_, ?_, ?_⟩
  · exact h.origin ▸ hw.known
  · exact h.origin ▸ hw.indexed
  · rw [h.origin, h.job]
    exact hw.job
  · rw [h.origin, h.mask]
    exact hw.mask
  · rw [h.origin, h.blob]
    exact hw.block
  · rw [h.origin, h.blob, h.drawn]
    exact hw.drawn

theorem Same.side (h : Same w w' index) (hw : Side known r w index) : Side known r w' index := by
  refine hw.imp (fun ⟨hjob, hdrawn⟩ => ?_) h.holds
  exact ⟨by rw [h.job, hjob], by rw [h.drawn, hdrawn]⟩

theorem Same.drawnTickets (h : Same w w' index) :
    drawnTickets r w' index = OclNonces.drawnTickets r w index := by
  rw [OclNonces.drawnTickets, OclNonces.drawnTickets, h.origin, h.drawn]

/-- What a step of a worker does to the nonces: it draws at most one range, and uses and keeps no
more than it had and drew. -/
structure Balanced (known : Job → Prop) (r : UInt32) (shared : Nonce.Shared) (w : Worker)
    (effect : Effect) : Prop where
  inv : WorkerInv known r effect.worker
  others : ∀ index ≠ effect.worker.job.index,
    held r effect.worker index = held r w index
  fetch : ∃ n : UInt32,
    effect.shared.nonces = (shared.fetchAdd effect.worker.job.index n).nonces ∧
    (n = 0 ∨ n = r ∧ fetches w = true ∧ effect.worker.job.index = w.job.index ∧
      key effect.worker = key w) ∧
    spent effect.events + held r effect.worker effect.worker.job.index ≤
      held r w effect.worker.job.index +
        stretch (key effect.worker) (shared.nonces effect.worker.job.index).toNat n.toNat

theorem inflight_of_calling (h : ∀ counter, calling w.pc ≠ some (.pause counter false)) :
    inflight r w = 0 := by
  unfold inflight
  split
  · next counter heq => exact absurd heq (h counter)
  · rfl

theorem held_of_calling (h : ∀ counter, calling w.pc ≠ some (.pause counter false))
    (index : Fin 2) : held r w index = drawnTickets r w index := by
  rw [held, inflight_of_calling h, ite_self, add_zero]

/-- A step that moves no nonce. -/
theorem Balanced.quiet {shared : Nonce.Shared} {effect : Effect} (hinv : WorkerInv known r w)
    (h : ∀ index, Same w effect.worker index) (hshared : effect.shared = shared) (hspent : spent effect.events = 0)
    (hfree : ∀ counter, calling w.pc ≠ some (.pause counter false))
    (hcalling : calling effect.worker.pc = none ∨ calling effect.worker.pc = some .enter)
    (hbusy : OclNonces.busy effect.worker.pc = true →
      Holds known r w effect.worker.job.index ∧ w.drawn effect.worker.job.index = none) :
    Balanced known r shared w effect := by
  have hfree' : ∀ counter, calling effect.worker.pc ≠ some (.pause counter false) := by
    intro counter heq
    rcases hcalling with hnone | hsome
    · exact absurd (hnone.symm.trans heq) (by simp)
    · exact absurd (hsome.symm.trans heq) (by simp)
  have hheld (index : Fin 2) : held r effect.worker index = held r w index := by
    rw [held_of_calling hfree, held_of_calling hfree']
    exact (h index).drawnTickets
  refine ⟨⟨fun index => (h index).side (hinv.sides index), fun hb => ?_, fun hf => ?_, fun counter hc => ?_⟩,
    fun index _ => hheld index, 0, ?_, .inl rfl, ?_⟩
  · obtain ⟨hholds, hdrawn⟩ := hbusy hb
    exact ⟨(h _).holds hholds, (h _).drawn.trans hdrawn⟩
  · rcases hcalling with hnone | hsome
    · exact absurd (hnone.symm.trans hf) (by simp)
    · exact absurd (hsome.symm.trans hf) (by simp)
  · exact absurd hc (hfree' counter)
  · rw [hshared, Nonce.Shared.fetchAdd_zero]
  · rw [hspent, zero_add, hheld]
    exact Multiset.le_add_right _ _

/-- What is left of the job when `Nonce::next` has returned a counter. -/
theorem finish_eq (w : WorkerJob) (caller : WideNonce.Caller) (counter : UInt64)
    (hsize : w.currentJob.nonceOffset + w.currentJob.nonceSize ≤ w.currentJob.size) :
    ∃ blob, blob.length = w.currentJob.size ∧ WideNonce.finish w caller (some counter) =
      { w.storeNonce 0 counter with
        jobs := Function.update w.jobs w.index { w.currentJob with blob } } := by
  have hself : w.storeNonce 0 counter =
      { w.storeNonce 0 counter with
        jobs := Function.update w.jobs w.index { w.currentJob with blob := w.currentJob.blob } } :=
    congrArg (fun jobs => { w.storeNonce 0 counter with jobs })
      (Function.update_eq_self w.index w.jobs).symm
  cases caller with
  | save => exact ⟨w.currentJob.blob, rfl, hself⟩
  | nextRound =>
    by_cases h8 : w.currentJob.nonceSize = 8
    · rw [h8] at hsize
      refine ⟨splice w.currentJob.blob (w.currentJob.nonceOffset + 4)
        (read (w.storeNonce 0 counter).blob (w.nonceAt 0 + 4) 4), ?_, if_pos h8⟩
      refine length_splice ?_
      rw [length_read]
      exact hsize
    · exact ⟨w.currentJob.blob, rfl, (if_neg h8).trans hself⟩

/-- A counter that `Nonce::next` returned is in the blob. -/
theorem holds_draw (haccepted : ∀ job, known job → job.Accepted)
    (h : Holds known r w w.job.index) (caller : WideNonce.Caller) {counter : UInt64}
    (hfits : Nonce.Fits (effectiveMask (current w).nonceMask) r counter) :
    Holds known r (w.draw caller (some counter)) w.job.index := by
  obtain ⟨blob, hlength, hjob⟩ := h.job
  have hjob' : w.job.currentJob = { (current w).setBackend .opencl with blob } := hjob
  have hplaced := (haccepted _ h.known).placed
  have hsize : w.job.currentJob.nonceOffset + w.job.currentJob.nonceSize ≤
      w.job.currentJob.size := by
    rw [hjob']
    exact hplaced.trans_eq hlength.symm
  have hmask : w.job.mask = w.job.currentJob.nonceMask := by
    rw [hjob']
    exact h.mask
  have hle : counter ≤ effectiveMask w.job.mask := by
    rw [hmask, hjob', UInt64.le_iff_toNat_le]
    exact (Nat.le_add_right _ _).trans hfits.le_mask
  obtain ⟨hblock, hdrawn⟩ := stored_storeNonce hmask hle
  rw [hjob'] at hblock hdrawn
  obtain ⟨blob', hlength', hfinish⟩ := finish_eq w.job caller counter hsize
  refine ⟨h.known, h.indexed, ⟨blob', ?_, ?_⟩, ?_, ?_, ?_⟩
  · rw [hlength', hjob']
    exact hlength
  · change (WideNonce.finish w.job caller (some counter)).jobs w.job.index = _
    rw [hfinish]
    exact (Function.update_self ..).trans (by rw [hjob']; rfl)
  · change (WideNonce.finish w.job caller (some counter)).nonceMask w.job.index = _
    rw [hfinish]
    exact h.mask
  · change stored (current w) ((WideNonce.finish w.job caller (some counter)).blobs w.job.index) /
      span (current w) * span (current w) = base (current w)
    rw [hfinish]
    exact (congrArg (· * span (current w)) hblock).trans h.block
  · intro counter' hcounter
    change stored (current w) ((WideNonce.finish w.job caller (some counter)).blobs w.job.index) %
      span (current w) = _ ∧ _
    change Function.update w.drawn w.job.index (some counter) w.job.index = _ at hcounter
    rw [Function.update_self] at hcounter
    obtain rfl := Option.some.inj hcounter
    rw [hfinish]
    exact ⟨hdrawn, hfits⟩

theorem draw_same (w : Worker) (caller : WideNonce.Caller) (result : Option UInt64)
    (hsize : w.job.currentJob.nonceOffset + w.job.currentJob.nonceSize ≤ w.job.currentJob.size)
    (hne : index ≠ w.job.index) : Same w (w.draw caller result) index := by
  cases result with
  | none => exact ⟨rfl, rfl, rfl, rfl, rfl⟩
  | some counter =>
    obtain ⟨blob, -, hfinish⟩ := finish_eq w.job caller counter hsize
    refine ⟨?_, ?_, ?_, rfl, Function.update_of_ne hne ..⟩
    · change (WideNonce.finish w.job caller (some counter)).jobs index = _
      rw [hfinish]
      exact Function.update_of_ne hne ..
    · change (WideNonce.finish w.job caller (some counter)).blobs index = _
      rw [hfinish]
      exact Function.update_of_ne hne ..
    · change (WideNonce.finish w.job caller (some counter)).nonceMask index = _
      rw [hfinish]
      rfl

/-- The range that a call has taken from the counter. -/
def taken (r : UInt32) (w : Worker) (call : Nonce.Pc) : Multiset (Key × ℕ) :=
  match call with
  | .pause counter false | .done (some counter) => stretch (key w) counter.toNat r.toNat
  | _ => 0

theorem taken_takes {call : Nonce.Pc} {counter : UInt64}
    (h : NonceReservation.Pc.takes call counter) :
    taken r w call = stretch (key w) counter.toNat r.toNat := by
  rcases h with rfl | rfl <;> rfl

theorem taken_eq_zero {call : Nonce.Pc} (h : ∀ counter, ¬ NonceReservation.Pc.takes call counter) :
    taken r w call = 0 := by
  unfold taken
  split
  · exact absurd (.inl rfl) (h _)
  · exact absurd (.inr rfl) (h _)
  · rfl

/-- A call takes nothing and tries nothing again for a range without nonces. -/
theorem step_count {a : Nonce.Args} {g g' : Nonce.Shared} {call call' : Nonce.Pc}
    (h : call.step a g = some (g', call')) (hfetch : call = .fetch → 1 ≤ a.reserveCount.toNat)
    (hcall : call' = .fetch ∨ ∃ counter, NonceReservation.Pc.takes call' counter) :
    1 ≤ a.reserveCount.toNat ∨ ∃ counter, NonceReservation.Pc.takes call counter := by
  cases call with
  | enter =>
    rw [Nonce.Pc.step] at h
    split at h
    · cases h
      simp [NonceReservation.Pc.takes] at hcall
    · next hrefuses =>
      refine .inl (Nat.one_le_iff_ne_zero.mpr fun hzero => hrefuses ?_)
      rw [Nonce.refuses, UInt32.toNat_inj.mp (hzero.trans UInt32.toNat_zero.symm)]
      rfl
  | fetch => exact .inl (hfetch rfl)
  | pause counter short =>
    cases h
    cases short with
    | false => exact .inr ⟨counter, .inl rfl⟩
    | true => simp [NonceReservation.Pc.takes] at hcall
  | done result => cases h

section Access

variable {env : Environment} {call : Nonce.Pc} {caller : WideNonce.Caller}
  {within : Nonce.Pc → Pc} {behind : Pc} {effect : Effect}

theorem Holds.args_mask (h : Holds known r w w.job.index) :
    (w.job.args r).mask = (current w).nonceMask := h.mask

theorem Holds.placed (haccepted : ∀ job, known job → job.Accepted)
    (h : Holds known r w w.job.index) :
    w.job.currentJob.nonceOffset + w.job.currentJob.nonceSize ≤ w.job.currentJob.size := by
  obtain ⟨blob, hlength, hjob⟩ := h.job
  have hjob' : w.job.currentJob = { (current w).setBackend .opencl with blob } := hjob
  rw [hjob']
  exact (haccepted _ h.known).placed.trans_eq hlength.symm

/-- What a call has taken after an access fits, and is accounted for. -/
theorem taken_step {g g' : Nonce.Shared} {call' : Nonce.Pc} (hinv : WorkerInv known r w)
    (hcalling : calling w.pc = some call) (hbusy : busy w.pc = true)
    (hstep : call.step (w.job.args r) g = some (g', call')) :
    ∃ n : UInt32, g'.nonces = (g.fetchAdd w.job.index n).nonces ∧
      (n = 0 ∨ n = r ∧ fetches w = true) ∧
      (call' = .fetch → 1 ≤ r.toNat) ∧
      (∀ counter, NonceReservation.Pc.takes call' counter →
        Nonce.Fits (effectiveMask (current w).nonceMask) r counter) ∧
      taken r w call' ≤
        inflight r w + stretch (key w) (g.nonces w.job.index).toNat n.toNat := by
  obtain ⟨hholds, -⟩ := hinv.busy hbusy
  obtain ⟨n, hnonces, hn, htakes⟩ := NonceReservation.call_step hstep
  have hfetches (hne : ∀ counter short, call ≠ .pause counter short) : fetches w = true := by
    unfold fetches
    unfold calling at hcalling
    cases hpc : w.pc <;> rw [hpc] at hcalling <;> cases hcalling <;> cases call <;>
      first | rfl | exact absurd rfl (hne _ _) | cases hstep
  have hold {counter : UInt64} (h : NonceReservation.Pc.takes call counter) :
      calling w.pc = some (.pause counter false) := by
    rcases h with rfl | rfl
    · exact hcalling
    · cases hstep
  have hcount (h : call' = .fetch ∨ ∃ counter, NonceReservation.Pc.takes call' counter) :
      1 ≤ r.toNat ∨ ∃ counter, NonceReservation.Pc.takes call counter :=
    step_count hstep (fun heq => hinv.fetch (hcalling.trans (congrArg some heq))) h
  refine ⟨n, hnonces, hn.imp_right fun ⟨hr, hne⟩ => ⟨hr, hfetches hne⟩, fun heq => ?_,
    fun counter hcounter => ?_, ?_⟩
  · refine (hcount (.inl heq)).resolve_right fun ⟨counter, hcounter⟩ => ?_
    have hpause := Option.some.inj (hcalling.symm.trans (hold hcounter))
    rw [hpause, heq] at hstep
    cases hstep
  · rcases htakes counter hcounter with h | ⟨-, -, hafter⟩
    · exact hinv.takes counter (hold h)
    · rcases hcount (.inr ⟨counter, hcounter⟩) with hone | ⟨counter', h⟩
      · obtain ⟨k, -, hbits⟩ := (current w).effectiveMask_bits
        rw [← hholds.args_mask] at hbits ⊢
        exact NonceReservation.afterFetch_takes hbits hone hafter
      · have hpause := Option.some.inj (hcalling.symm.trans (hold h))
        rw [hpause] at hstep
        cases hstep
        rcases hcounter with heq | heq
        · cases heq
        · cases heq
          exact hinv.takes _ (hold h)
  · by_cases hsome : ∃ counter, NonceReservation.Pc.takes call' counter
    · obtain ⟨counter, hcounter⟩ := hsome
      rw [taken_takes hcounter]
      rcases htakes counter hcounter with h | ⟨rfl, rfl, -⟩
      · have hinflight : inflight r w = stretch (key w) counter.toNat r.toNat := by
          rw [inflight, hold h]
        rw [hinflight]
        exact Multiset.le_add_right _ _
      · exact Multiset.le_add_left _ _
    · rw [taken_eq_zero fun counter hcounter => hsome ⟨counter, hcounter⟩]
      exact Multiset.zero_le _

/-- An access of a call changes the current job only. -/
theorem Balanced.current (hcurrent : current effect.worker = current w)
    (hindex : effect.worker.job.index = w.job.index)
    (hothers : ∀ index ≠ w.job.index, Same w effect.worker index)
    (hinv : WorkerInv known r effect.worker) (hspent : spent effect.events = 0) {n : UInt32}
    (hnonces : effect.shared.nonces = (env.shared.fetchAdd w.job.index n).nonces)
    (hn : n = 0 ∨ n = r ∧ fetches w = true)
    (hheld : held r effect.worker w.job.index ≤ held r w w.job.index +
      stretch (key w) (env.shared.nonces w.job.index).toNat n.toNat) :
    Balanced known r env.shared w effect := by
  have hkey : key effect.worker = key w := by rw [key, key, hindex, hcurrent]
  refine ⟨hinv, fun index hne => ?_, n, ?_, ?_, ?_⟩
  · rw [hindex] at hne
    rw [held, held, (hothers index hne).drawnTickets, if_neg hne, if_neg (hindex.symm ▸ hne)]
  · rw [hindex, hnonces]
  · exact hn.imp_right fun ⟨hr, hfetches⟩ => ⟨hr, hfetches, hindex, hkey⟩
  · rw [hspent, zero_add, hindex, hkey]
    exact hheld

theorem balanced_access (haccepted : ∀ job, known job → job.Accepted) (hinv : WorkerInv known r w)
    (hcalling : calling w.pc = some call) (hbusy : busy w.pc = true)
    (hwithin : ∀ call, calling (within call) = some call) (hbehind : calling behind = none)
    (hbusy' : busy behind = false)
    (h : w.access env r call caller within behind = some effect) :
    Balanced known r env.shared w effect := by
  obtain ⟨hholds, hdrawn⟩ := hinv.busy hbusy
  obtain ⟨⟨shared, call'⟩, hstep, heq⟩ := Option.map_eq_some_iff.mp h
  obtain ⟨n, hnonces, hn, hfetch, hfits, htaken⟩ := taken_step hinv hcalling hbusy hstep
  have hnone : drawnTickets r w w.job.index = 0 := by rw [drawnTickets, hdrawn]
  have hheld : held r w w.job.index = inflight r w := by
    rw [held, hnone, if_pos rfl, zero_add]
  -- the call goes on, or returns nothing
  have hstay (pc : Pc) (events : List Event) (hspent : spent events = 0)
      (hpc : calling pc = none ∧ busy pc = false ∨ calling pc = some call') :
      Balanced known r env.shared w ⟨shared, { w with pc }, events⟩ := by
    have hsame (index : Fin 2) : Same w { w with pc } index := ⟨rfl, rfl, rfl, rfl, rfl⟩
    have hinflight : inflight r { w with pc } ≤ taken r w call' := by
      unfold inflight
      rcases hpc with ⟨hcall, -⟩ | hcall
      · rw [hcall]
        exact Multiset.zero_le _
      · rw [hcall]
        split
        · next counter heq =>
          rw [Option.some.inj heq]
          exact le_rfl
        · exact Multiset.zero_le _
    refine Balanced.current rfl rfl (fun index _ => hsame index) ⟨?_, ?_, ?_, ?_⟩ hspent hnonces hn ?_
    · exact fun index => (hsame index).side (hinv.sides index)
    · exact fun _ => ⟨(hsame _).holds hholds, hdrawn⟩
    · intro hcall
      rcases hpc with ⟨hnone, -⟩ | hsome
      · exact absurd (hnone.symm.trans hcall) (by simp)
      · exact hfetch (Option.some.inj (hsome.symm.trans hcall))
    · intro counter hcall
      rcases hpc with ⟨hnone, -⟩ | hsome
      · exact absurd (hnone.symm.trans hcall) (by simp)
      · exact hfits counter (.inl (Option.some.inj (hsome.symm.trans hcall)))
    · rw [hheld]
      change drawnTickets r w w.job.index + (if w.job.index = w.job.index then
        inflight r { w with pc } else 0) ≤ _
      rw [hnone, if_pos rfl, zero_add]
      exact hinflight.trans htaken
  subst heq
  cases call' with
  | enter => exact hstay _ [] rfl (.inr (hwithin _))
  | fetch => exact hstay _ [] rfl (.inr (hwithin _))
  | pause counter short => exact hstay _ [] rfl (.inr (hwithin _))
  | done result =>
    cases result with
    | none =>
      refine hstay behind (if caller = .nextRound ∧ none = none then [.failed] else []) ?_
        (.inl ⟨hbehind, hbusy'⟩)
      split <;> rfl
    | some counter =>
      have hsize := hholds.placed haccepted
      obtain ⟨blob, -, hfinish⟩ := finish_eq w.job caller counter hsize
      have hindex : (w.draw caller (some counter)).job.index = w.job.index := by
        change (WideNonce.finish w.job caller (some counter)).index = _
        rw [hfinish]
        rfl
      have hothers (index : Fin 2) (hne : index ≠ w.job.index) :
          Same w { w.draw caller (some counter) with pc := behind } index := by
        obtain ⟨hjob, hblob, hmask, horigin, hdrawn⟩ := draw_same w caller (some counter) hsize hne
        exact ⟨hjob, hblob, hmask, horigin, hdrawn⟩
      have hnew := holds_draw haccepted hholds caller (hfits counter (.inr rfl))
      have hnew' : Holds known r { w.draw caller (some counter) with pc := behind } w.job.index :=
        Same.holds (w := w.draw caller (some counter)) ⟨rfl, rfl, rfl, rfl, rfl⟩ hnew
      have hcurrent : current { w.draw caller (some counter) with pc := behind } = current w := by
        change w.origin (w.draw caller (some counter)).job.index = _
        rw [hindex]
        rfl
      refine Balanced.current hcurrent hindex hothers ⟨fun index => ?_, ?_, ?_, ?_⟩ ?_ hnonces hn ?_
      · by_cases hne : index = w.job.index
        · exact .inr (hne ▸ hnew')
        · exact (hothers index hne).side (hinv.sides index)
      · exact fun hb => absurd (hbusy'.symm.trans hb) Bool.false_ne_true
      · exact fun hcall => absurd (hbehind.symm.trans hcall) (by simp)
      · exact fun _ hcall => absurd (hbehind.symm.trans hcall) (by simp)
      · dsimp only
        rw [if_neg (by simp)]
        rfl
      · rw [hheld]
        refine le_trans ?_ htaken
        have hfree : ∀ counter', calling behind ≠ some (.pause counter' false) :=
          fun _ hcall => absurd (hbehind.symm.trans hcall) (by simp)
        refine (held_of_calling hfree w.job.index).trans_le ?_
        have hcounter : (w.draw caller (some counter)).drawn w.job.index = some counter :=
          Function.update_self ..
        unfold drawnTickets
        dsimp only
        rw [hcounter]
        exact le_rfl

end Access

section Step

variable {env : Environment} {effect : Effect}

/-- No job was consumed yet. -/
structure Blank (w : Worker) : Prop where
  jobs : ∀ index, w.job.jobs index = {}
  index : w.job.index = 0
  drawn : ∀ index, w.drawn index = none

theorem Blank.not_busy (haccepted : ∀ job, known job → job.Accepted) (h : Blank w)
    (hinv : WorkerInv known r w) : busy w.pc = false := by
  refine Bool.eq_false_iff.mpr fun hbusy => ?_
  obtain ⟨hholds, -⟩ := hinv.busy hbusy
  have hplaced := hholds.placed haccepted
  have hpos := (current w).algorithm.nonceSize_pos
  rw [WorkerJob.currentJob, h.jobs] at hplaced
  exact absurd hplaced (by decide)

theorem balanced_goto (hinv : WorkerInv known r w) {pc : Pc} (hcalling : calling w.pc = none)
    (hpc : calling pc = none) (hbusy : busy pc = true → busy w.pc = true) :
    Balanced known r env.shared w (w.goto env pc) :=
  .quiet hinv (fun _ => ⟨rfl, rfl, rfl, rfl, rfl⟩) rfl rfl
    (fun _ h => absurd (hcalling.symm.trans h) (by simp)) (.inl hpc) fun h => hinv.busy (hbusy h)

/-- A job is copied, and a range is asked for. -/
theorem holds_save (haccepted : ∀ job, known job → job.Accepted) (hjob : known env.job)
    (pc : Pc) (drawn : Fin 2 → Option UInt64) (hdrawn : drawn env.job.index = none) :
    Holds known r
      { job := WideNonce.save w.job env.job .opencl, pc, drawn
        origin := Function.update w.origin env.job.index env.job } env.job.index := by
  have horigin : Function.update w.origin env.job.index env.job env.job.index = env.job :=
    Function.update_self ..
  have hplaced : env.job.nonceOffset + env.job.nonceSize ≤ env.job.blob.length :=
    (haccepted _ hjob).placed
  have hcur : (WideNonce.save w.job env.job .opencl).jobs env.job.index =
      env.job.setBackend .opencl := Function.update_self ..
  have hblob : (WideNonce.save w.job env.job .opencl).blobs env.job.index =
      write (w.job.blobs env.job.index) 0 env.job.blob := by
    refine (Function.update_self ..).trans ?_
    have hset := congrArg (fun j : Job => write (w.job.blobs env.job.index) 0 j.blob)
      (Function.update_self env.job.index (env.job.setBackend .opencl) w.job.jobs)
    rw [Nat.zero_mul]
    exact hset
  have hstored : stored env.job (write (w.job.blobs env.job.index) 0 env.job.blob) =
      nonceValue env.job env.job.blob := by
    have hslice := read_slice (m := write (w.job.blobs env.job.index) 0 env.job.blob) (p := 0)
      hplaced
    rw [read_write_take le_rfl, List.take_length, Nat.zero_add] at hslice
    rw [stored, nonceValue, hslice]
  refine ⟨?_, ?_, ⟨env.job.blob, ?_, ?_⟩, ?_, ?_, fun counter hcounter => ?_⟩ <;> dsimp only
  · rw [horigin]
    exact hjob
  · rw [horigin]
  · rw [horigin]
    rfl
  · rw [hcur, horigin]
    rfl
  · rw [horigin]
    exact Function.update_self ..
  · rw [horigin, hblob, hstored]
    rfl
  · exact absurd (hdrawn.symm.trans hcounter) (by simp)

theorem save_same (w : Worker) {job : Job} (hne : index ≠ job.index) (pc : Pc) :
    Same w
      { job := WideNonce.save w.job job .opencl, pc
        origin := Function.update w.origin job.index job
        drawn := Function.update w.drawn job.index none } index :=
  ⟨Function.update_of_ne hne .., Function.update_of_ne hne .., Function.update_of_ne hne ..,
    Function.update_of_ne hne .., Function.update_of_ne hne ..⟩

theorem keep_cases {v kept : WorkerJob} {job : Job} (h : v.keep job = some kept) :
    kept = v ∨ kept = { v with index := 0 } := by
  unfold WorkerJob.keep at h
  split_ifs at h
  · exact .inl (Option.some.inj h).symm
  · exact .inr (Option.some.inj h).symm

theorem Blank.keep (h : Blank w) : w.job.keep {} = some w.job := by
  refine if_pos ?_
  rw [WorkerJob.currentJob, h.jobs]
  decide

theorem balanced_add (haccepted : ∀ job, known job → job.Accepted) (hinv : WorkerInv known r w)
    {afterPause : Bool} (hpc : w.pc = .add afterPause)
    (hjob : known env.job ∨ env.job = {} ∧ Blank w) :
    Balanced known r env.shared w (w.add env afterPause) := by
  have hfree : ∀ counter, calling w.pc ≠ some (.pause counter false) := by simp [hpc, calling]
  unfold Worker.add
  cases hkeep : w.job.keep env.job with
  | some kept =>
    have hsame (index : Fin 2) : Same w { w with job := kept, pc := .set afterPause } index := by
      rcases keep_cases hkeep with rfl | rfl <;> exact ⟨rfl, rfl, rfl, rfl, rfl⟩
    refine .quiet hinv hsame rfl ?_ hfree (.inl rfl) fun h => absurd h Bool.false_ne_true
    dsimp only
    split <;> rfl
  | none =>
    have hknown : known env.job := by
      refine hjob.resolve_right fun ⟨hdefault, hblank⟩ => ?_
      rw [hdefault, hblank.keep] at hkeep
      cases hkeep
    have hcurrent := holds_save (w := w) (r := r) haccepted hknown (.save afterPause .enter)
      (Function.update w.drawn env.job.index none) (Function.update_self ..)
    have hindex : (WideNonce.save w.job env.job .opencl).index = env.job.index := rfl
    have hfree' : ∀ counter, calling (.save afterPause .enter) ≠ some (.pause counter false) := by
      simp [calling]
    refine ⟨⟨fun index => ?_, ?_, ?_, ?_⟩, fun index hne => ?_, 0, ?_, .inl rfl, ?_⟩
    · by_cases hne : index = env.job.index
      · exact .inr (hne ▸ hcurrent)
      · exact (save_same w hne _).side (hinv.sides index)
    · exact fun _ => ⟨hcurrent, Function.update_self ..⟩
    · simp [calling]
    · simp [calling]
    · rw [held_of_calling hfree, held_of_calling hfree']
      exact (save_same w hne _).drawnTickets
    · rw [Nonce.Shared.fetchAdd_zero]
    · rw [held_of_calling hfree']
      have hnone : drawnTickets r
          { job := WideNonce.save w.job env.job .opencl, pc := .save afterPause .enter
            origin := Function.update w.origin env.job.index env.job
            drawn := Function.update w.drawn env.job.index none } env.job.index = 0 := by
        unfold drawnTickets
        dsimp only
        rw [Function.update_self]
      refine le_of_eq_of_le ?_ (Multiset.zero_le _)
      exact (zero_add _).trans hnone

/-- A batch is made of what was drawn for the current job. -/
theorem drawn_batch (haccepted : ∀ job, known job → job.Accepted)
    (h : Holds known r w w.job.index) {counter : UInt64}
    (hcounter : w.drawn w.job.index = some counter) : Drawn known (w.batch r) := by
  obtain ⟨blob, hlength, hjob⟩ := h.job
  have hplaced : (current w).nonceOffset + (current w).nonceSize ≤ (current w).size :=
    (haccepted _ h.known).placed
  obtain ⟨hmod, hfits⟩ := h.drawn counter hcounter
  have hbytes : w.job.bytes 0 = read w.job.blob 0 (current w).size := by
    change read _ (0 * _) (w.job.jobs w.job.index).size = _
    rw [hjob, Nat.zero_mul]
    exact congrArg (read w.job.blob 0) hlength
  have hfirst : first (w.batch r) = stored (current w) w.job.blob := by
    change ofLe (slice (w.job.bytes 0) (current w).nonceOffset (current w).nonceSize) = _
    rw [hbytes, read_slice hplaced, Nat.zero_add]
    rfl
  have hnonce : (w.batch r).nonce = word w.job.blob (current w).nonceOffset := by
    change w.job.nonce 0 = _
    rw [WorkerJob.nonce, WideNonce.nonceAt_zero]
    refine congrArg (word w.job.blob) ?_
    change (w.job.jobs w.job.index).nonceOffset = _
    rw [hjob]
    rfl
  have hword : (w.batch r).nonce.toNat = first (w.batch r) % 2 ^ 32 := by
    rw [hnonce, hfirst, stored]
    rcases nonceSize_cases (current w) with h4 | h8
    · rw [h4, ← toNat_word, Nat.mod_eq_of_lt (UInt32.toNat_lt _)]
    · rw [h8, ofLe_read_eight, Nonce.Words.value, Nat.add_mul_mod_self_right,
        Nat.mod_eq_of_lt (UInt32.toNat_lt _)]
  refine ⟨h.known, ⟨counter, hcounter, ?_, hfits⟩, hword, ?_⟩
  · rw [hfirst]
    change _ = base (current w) + _
    have hblock : stored (current w) w.job.blob / span (current w) * span (current w) =
      base (current w) := h.block
    have hmod' : stored (current w) w.job.blob % span (current w) = counter.toNat := hmod
    rw [← hblock, ← hmod', Nat.div_add_mod']
  · rw [hword]
    have hmod' : first (w.batch r) % span (current w) = counter.toNat := by
      rw [hfirst]
      exact hmod
    exact low_word hfits hmod'

theorem balanced_run (hinv : WorkerInv known r w) (hpc : w.pc = .run)
    (hdrawn : w.drawn w.job.index ≠ none) {pc : Pc} (hcheck : pc = .check ∨ pc = .finished) :
    Balanced known r env.shared w
      { shared := env.shared
        worker := { w with pc, drawn := Function.update w.drawn w.job.index none }
        events := [.batch (w.batch r)] } := by
  obtain ⟨counter, hcounter⟩ := Option.ne_none_iff_exists'.mp hdrawn
  have hholds : Holds known r w w.job.index :=
    (hinv.sides w.job.index).resolve_left fun h => hdrawn h.2
  have hholds' : Holds known r { w with pc, drawn := Function.update w.drawn w.job.index none }
      w.job.index :=
    ⟨hholds.known, hholds.indexed, hholds.job, hholds.mask, hholds.block, fun _ h =>
      absurd ((Function.update_self ..).symm.trans h) (by simp)⟩
  have hsame (index : Fin 2) (hne : index ≠ w.job.index) :
      Same w { w with pc, drawn := Function.update w.drawn w.job.index none } index :=
    ⟨rfl, rfl, rfl, rfl, Function.update_of_ne hne ..⟩
  have hcalling : calling pc = none := by rcases hcheck with rfl | rfl <;> rfl
  have hfree : ∀ counter, calling w.pc ≠ some (.pause counter false) := by simp [hpc, calling]
  have hfree' : ∀ counter, calling pc ≠ some (.pause counter false) := by simp [hcalling]
  refine ⟨⟨fun index => ?_, fun _ => ⟨hholds', Function.update_self ..⟩, ?_, ?_⟩,
    fun index hne => ?_, 0, ?_, .inl rfl, ?_⟩
  · by_cases hne : index = w.job.index
    · exact .inr (hne ▸ hholds')
    · exact (hsame index hne).side (hinv.sides index)
  · simp [hcalling]
  · simp [hcalling]
  · rw [held_of_calling hfree, held_of_calling hfree']
    exact (hsame index hne).drawnTickets
  · rw [Nonce.Shared.fetchAdd_zero]
  · rw [held_of_calling hfree, held_of_calling hfree']
    have hspent : spent [.batch (w.batch r)] = drawnTickets r w w.job.index := by
      have hindex : (w.origin w.job.index).index = w.job.index := hholds.indexed
      change tickets (.batch (w.batch r)) + 0 = _
      rw [add_zero, tickets, drawnTickets]
      change (match w.drawn w.job.index with
        | some counter => stretch ((w.origin w.job.index).index, (w.origin w.job.index).blob) _ _
        | none => 0) = _
      rw [hcounter, hindex]
      rfl
    have hnone : drawnTickets r
        { w with pc, drawn := Function.update w.drawn w.job.index none } w.job.index = 0 := by
      unfold drawnTickets
      dsimp only
      rw [Function.update_self]
    dsimp only
    rw [hspent, hnone, add_zero]
    exact Multiset.le_add_right _ _

theorem balanced_step (haccepted : ∀ job, known job → job.Accepted) (hinv : WorkerInv known r w)
    (hallowed : w.pc = .run → w.drawn w.job.index ≠ none)
    (hjob : known env.job ∨ env.job = {} ∧ Blank w)
    (h : OclWorker.step r env w = some effect) : Balanced known r env.shared w effect := by
  unfold OclWorker.step at h
  have hcall (hnone : calling w.pc = none) : ∀ counter, calling w.pc ≠ some (.pause counter false) :=
    by simp [hnone]
  cases hpc : w.pc <;> rw [hpc] at h <;> dsimp only at h
  case finished => cases h
  case save afterPause call =>
    exact balanced_access haccepted hinv (by rw [hpc]; rfl) (by rw [hpc]; rfl) (fun _ => rfl) rfl rfl h
  case next call =>
    exact balanced_access haccepted hinv (by rw [hpc]; rfl) (by rw [hpc]; rfl) (fun _ => rfl) rfl rfl h
  all_goals obtain rfl := Option.some.inj h
  case add afterPause => exact balanced_add haccepted hinv hpc hjob
  case run =>
    refine balanced_run hinv hpc (hallowed hpc) ?_
    split
    · exact .inr rfl
    · exact .inl rfl
  case sequence afterPause =>
    exact .quiet hinv (fun _ => ⟨rfl, rfl, rfl, rfl, rfl⟩) rfl rfl (hcall (by rw [hpc]; rfl))
      (.inl rfl) fun h => absurd h Bool.false_ne_true
  case check =>
    split
    · exact balanced_goto hinv (by rw [hpc]; rfl) rfl fun h => absurd h Bool.false_ne_true
    · unfold Worker.nextRound
      dsimp only
      have hround : w.job.countRound.roundOver 1 = true := by
        rw [WorkerJob.roundOver, sub_self, UInt32.and_zero]
        rfl
      rw [if_pos hround]
      exact .quiet hinv (fun _ => ⟨rfl, rfl, rfl, rfl, rfl⟩) rfl rfl (hcall (by rw [hpc]; rfl))
        (.inr rfl) fun _ => hinv.busy (by rw [hpc]; rfl)
  all_goals
    refine balanced_goto hinv (by rw [hpc]; rfl) ?_ ?_ <;>
      (repeat' split) <;> first | rfl | exact fun h => absurd h Bool.false_ne_true

theorem step_batch (h : OclWorker.step r env w = some effect) {b : Batch}
    (hb : .batch b ∈ effect.events) : w.pc = .run ∧ b = w.batch r := by
  unfold OclWorker.step at h
  have hcall {call : Nonce.Pc} {caller : WideNonce.Caller} {within : Nonce.Pc → Pc} {behind : Pc}
      (haccess : w.access env r call caller within behind = some effect) :
      .batch b ∉ effect.events := by
    obtain ⟨⟨shared, call'⟩, -, rfl⟩ := Option.map_eq_some_iff.mp haccess
    cases call' <;> dsimp only
    case done =>
      split <;> simp
    all_goals exact List.not_mem_nil
  cases hpc : w.pc <;> rw [hpc] at h <;> dsimp only at h
  case finished => cases h
  case save => exact absurd hb (hcall h)
  case next => exact absurd hb (hcall h)
  all_goals obtain rfl := Option.some.inj h
  case run =>
    have heq := List.mem_singleton.mp hb
    exact ⟨rfl, by cases heq; rfl⟩
  case add =>
    unfold Worker.add at hb
    cases hkeep : w.job.keep env.job <;> rw [hkeep] at hb <;> dsimp only at hb
    · simp at hb
    · split at hb <;> simp at hb
  case check =>
    unfold Worker.nextRound at hb
    dsimp only at hb
    split at hb
    · exact absurd hb List.not_mem_nil
    · split at hb <;> exact absurd hb List.not_mem_nil
  all_goals exact absurd hb List.not_mem_nil

/-- A thread without another job since `nextRound` failed rests. -/
theorem step_failed (hinv : WorkerInv known r w)
    (hallowed : w.pc = .run → w.drawn w.job.index ≠ none) {f : Bool}
    (hrest : f = true → w.drawn w.job.index = none ∧ busy w.pc = false)
    (h : OclWorker.step r env w = some effect) (hf : effect.events.foldl failedBy f = true) :
    effect.worker.drawn effect.worker.job.index = none ∧ busy effect.worker.pc = false := by
  unfold OclWorker.step at h
  have hbusy (hb : busy w.pc = true) : f ≠ true := fun heq => by
    rw [(hrest heq).2] at hb
    exact Bool.false_ne_true hb
  cases hpc : w.pc <;> rw [hpc] at h <;> dsimp only at h
  case finished => cases h
  case save =>
    obtain ⟨⟨shared, call'⟩, -, rfl⟩ := Option.map_eq_some_iff.mp h
    cases call' <;> exact absurd hf (hbusy (by rw [hpc]; rfl))
  case next =>
    have hf' := hbusy (by rw [hpc]; rfl)
    obtain ⟨⟨shared, call'⟩, -, rfl⟩ := Option.map_eq_some_iff.mp h
    cases call' with
    | done result =>
      cases result with
      | none => exact ⟨(hinv.busy (by rw [hpc]; rfl)).2, rfl⟩
      | some counter => exact absurd hf hf'
    | _ => exact absurd hf hf'
  all_goals obtain rfl := Option.some.inj h
  case run => exact absurd (hrest hf).1 (hallowed hpc)
  case add =>
    unfold Worker.add at hf ⊢
    cases hkeep : w.job.keep env.job <;> rw [hkeep] at hf <;> dsimp only at hf ⊢
    · exact absurd hf Bool.false_ne_true
    · split at hf
      · next hindex => exact ⟨by rw [hindex]; exact (hrest hf).1, rfl⟩
      · exact absurd hf Bool.false_ne_true
  case check =>
    have hf' := hbusy (by rw [hpc]; rfl)
    unfold Worker.nextRound at hf
    dsimp only at hf
    split at hf
    · exact absurd hf hf'
    · split at hf <;> exact absurd hf hf'
  all_goals
    refine ⟨(hrest hf).1, ?_⟩
    dsimp only [Worker.goto]
    (repeat' split) <;> rfl

theorem Blank.step (haccepted : ∀ job, known job → job.Accepted) (h : Blank w)
    (hinv : WorkerInv known r w) (hallowed : w.pc = .run → w.drawn w.job.index ≠ none)
    (hjob : env.job = {}) (hstep : OclWorker.step r env w = some effect) : Blank effect.worker := by
  have hidle := h.not_busy haccepted hinv
  unfold OclWorker.step at hstep
  cases hpc : w.pc <;> rw [hpc] at hstep hidle <;> dsimp only at hstep
  case finished => cases hstep
  case save => exact absurd hidle.symm Bool.false_ne_true
  case next => exact absurd hidle.symm Bool.false_ne_true
  all_goals obtain rfl := Option.some.inj hstep
  case check => exact absurd hidle.symm Bool.false_ne_true
  case run => exact absurd (h.drawn _) (hallowed hpc)
  case add =>
    unfold Worker.add
    rw [hjob, h.keep]
    exact ⟨h.jobs, h.index, h.drawn⟩
  all_goals exact ⟨h.jobs, h.index, h.drawn⟩

end Step

end Worker

section World

variable [Fintype ι] {intensity : ι → UInt32} {jobs : List Job} {s t : World ι} {i : ι}
  {effect : Effect}

/-- Where the jobs of the workers come from. -/
def Known (jobs : List Job) (job : Job) : Prop := ∃ j ∈ jobs, ∃ index, job = j.setIndex index

def ledger (intensity : ι → UInt32) (s : World ι) : Ledger (Fin 2) (List UInt8) (ι × Fin 2) where
  book :=
    { spent := spent (s.log.map Prod.snd)
      held := fun p => held (intensity p.1) (s.workers p.1) p.2 }
  counter := fun index => (s.shared.nonces index).toNat
  drawn := s.drawn
  stale := s.stale

structure Inv (intensity : ι → UInt32) (jobs : List Job) (s : World ι) : Prop where
  workers : ∀ i, WorkerInv (Known jobs) (intensity i) (s.workers i)
  job : Known jobs s.miner.job ∨ s.miner.job = {} ∧ ∀ i, Blank (s.workers i)
  coming : ∀ job, s.miner.pc.job = some job → job ∈ jobs
  sound : (ledger intensity s).Sound
  batches : ∀ b ∈ batches s.log, Drawn (Known jobs) b
  orderly : Orderly s.log
  rest : ∀ i, failed i s.log = true →
    (s.workers i).drawn (s.workers i).job.index = none ∧ busy (s.workers i).pc = false

theorem inv_main {event : JobChange.Event} (h : Inv intensity jobs s)
    (hevent : ∀ job donate isReady, event = .setJob job donate isReady → job ∈ jobs)
    (hstep : s.main event = some t) : Inv intensity jobs t := by
  obtain ⟨⟨miner, shared⟩, hmain, rfl⟩ := Option.map_eq_some_iff.mp hstep
  have hnonces := JobChange.step_nonces hmain
  obtain ⟨hjob, hcoming⟩ := JobChange.step_job hmain
  have hjob' : Known jobs miner.job ∨ miner.job = {} ∧ ∀ i, Blank (s.workers i) := by
    rcases hjob with hsame | ⟨job, index, hpc, hnew⟩
    · exact hsame.symm ▸ h.job
    · exact .inl ⟨job, h.coming job hpc, index, hnew⟩
  have hcoming' (job : Job) (hpc : miner.pc.job = some job) : job ∈ jobs := by
    rcases hcoming job hpc with hold | ⟨donate, isReady, heq⟩
    · exact h.coming job hold
    · exact hevent job donate isReady heq
  cases hresets : s.miner.resets event with
  | none =>
    rw [hresets] at hnonces
    have hledger : ledger intensity { s with miner, shared } = ledger intensity s := by
      unfold ledger
      dsimp only
      rw [hnonces]
    exact ⟨h.workers, hjob', hcoming', hledger ▸ h.sound, h.batches, h.orderly, h.rest⟩
  | some index =>
    rw [hresets] at hnonces
    have hcounter : (fun i => (shared.nonces i).toNat) =
        Function.update (fun i => (s.shared.nonces i).toNat) index 0 := by
      have hreset : shared.nonces = Function.update s.shared.nonces index 0 := hnonces
      funext i
      rw [hreset, Function.update_apply, Function.update_apply]
      split <;> rfl
    have hledger : ledger intensity
        { s with
          miner, shared
          drawn := Function.update s.drawn index []
          stale := Function.update s.stale index (s.drawn index ++ s.stale index) } =
        (ledger intensity s).setBack index := by
      unfold ledger Ledger.setBack
      dsimp only
      rw [hcounter]
    exact ⟨h.workers, hjob', hcoming', hledger ▸ h.sound.setBack index, h.batches, h.orderly, h.rest⟩

theorem inv_reserve {index : Fin 2} {amount : UInt32} (h : Inv intensity jobs s)
    (hroom : (s.shared.nonces index).toNat + amount.toNat < 2 ^ 64) :
    Inv intensity jobs { s with shared := s.shared.fetchAdd index amount } := by
  refine ⟨h.workers, h.job, h.coming, h.sound.raise fun i => ?_, h.batches, h.orderly, h.rest⟩
  change (s.shared.nonces i).toNat ≤ ((s.shared.fetchAdd index amount).nonces i).toNat
  by_cases hi : i = index
  · rw [hi, Nonce.Shared.fetchAdd_nonces_self, UInt64.toNat_add, UInt32.toNat_toUInt64,
      Nat.mod_eq_of_lt hroom]
    exact Nat.le_add_right _ _
  · exact (congrArg UInt64.toNat (Function.update_of_ne hi ..)).ge

omit [Fintype ι] in
theorem eventsOf_work (s : World ι) (i j : ι) (effect : Effect) :
    eventsOf j (s.work i effect).log =
      eventsOf j s.log ++ if i = j then effect.events else [] := by
  change List.filterMap _ (s.log ++ _) = _
  rw [List.filterMap_append, List.filterMap_map]
  refine congrArg (eventsOf j s.log ++ ·) ?_
  split
  · next heq => exact (List.filterMap_congr fun e _ => if_pos heq).trans List.filterMap_some
  · next hne =>
    exact (List.filterMap_congr fun e _ => if_neg hne).trans (List.filterMap_none effect.events)

omit [Fintype ι] in
/-- A batch at the end of the log came from a worker that rested only before. -/
theorem orderly_work {i : ι} {effect : Effect} (h : Orderly s.log)
    (hbatch : ∀ b, .batch b ∈ effect.events → failed i s.log = false)
    (hlast : ∀ b, .batch b ∈ effect.events → effect.events = [.batch b]) :
    Orderly (s.work i effect).log := by
  intro before after j b heq
  have happend : s.log ++ effect.events.map (fun e => (i, e)) =
      before ++ (j, .batch b) :: after := heq
  rcases List.append_eq_append_iff.mp happend with ⟨mid, hbefore, hmid⟩ | ⟨mid, hlog, hmid⟩
  · have hmem : (j, Event.batch b) ∈ effect.events.map (fun e => (i, e)) := by
      rw [hmid]
      exact List.mem_append_right _ List.mem_cons_self
    obtain ⟨e, he, hpair⟩ := List.mem_map.mp hmem
    obtain ⟨rfl, rfl⟩ := Prod.mk.inj hpair
    rw [hlast b he, List.map_singleton] at hmid
    have hnil : mid = [] := by
      cases mid with
      | nil => rfl
      | cons x mid => simp at hmid
    rw [hbefore, hnil, List.append_nil]
    exact hbatch b he
  · cases mid with
    | nil =>
      rw [List.nil_append] at hmid
      rw [List.append_nil] at hlog
      have hmem : (j, Event.batch b) ∈ effect.events.map (fun e => (i, e)) := by
        rw [← hmid]
        exact List.mem_cons_self
      obtain ⟨e, he, hpair⟩ := List.mem_map.mp hmem
      obtain ⟨rfl, rfl⟩ := Prod.mk.inj hpair
      rw [← hlog]
      exact hbatch b he
    | cons x mid =>
      obtain ⟨rfl, -⟩ := List.cons.inj hmid
      exact h before mid j b hlog

omit [Fintype ι] in
theorem ledger_work (hothers : ∀ index ≠ effect.worker.job.index,
      held (intensity i) effect.worker index = held (intensity i) (s.workers i) index) :
    (ledger intensity (s.work i effect)).book =
      (ledger intensity s).book.exchange (i, effect.worker.job.index) (spent effect.events)
        (held (intensity i) effect.worker effect.worker.job.index) := by
  have hheld : (ledger intensity (s.work i effect)).book.held =
      Function.update (ledger intensity s).book.held (i, effect.worker.job.index)
        (held (intensity i) effect.worker effect.worker.job.index) := by
    funext ⟨j, index⟩
    change held (intensity j) (Function.update s.workers i effect.worker j) index = _
    by_cases hj : j = i
    · subst hj
      rw [Function.update_self]
      by_cases hindex : index = effect.worker.job.index
      · subst hindex
        rw [Function.update_self]
      · rw [Function.update_of_ne (fun heq => hindex (congrArg Prod.snd heq))]
        exact hothers index hindex
    · rw [Function.update_of_ne hj, Function.update_of_ne fun heq => hj (congrArg Prod.fst heq)]
      rfl
  have hspent : (ledger intensity (s.work i effect)).book.spent =
      (ledger intensity s).book.spent + spent effect.events := by
    change spent ((s.log ++ effect.events.map fun e => (i, e)).map Prod.snd) = _
    rw [List.map_append, List.map_map, spent, List.map_append, List.sum_append]
    exact congrArg (spent (s.log.map Prod.snd) + spent ·) (List.map_id effect.events)
  exact congrArg₂ Book.mk hspent hheld

omit [Fintype ι] in
theorem failed_work (s : World ι) (i j : ι) (effect : Effect) :
    failed j (s.work i effect).log =
      (if i = j then effect.events else []).foldl failedBy (failed j s.log) := by
  rw [failed, eventsOf_work, List.foldl_append]
  rfl

theorem sound_work {ready throws : Bool} (h : (ledger intensity s).Sound)
    (hallowed : Allowed intensity s (.worker i ready throws)) {known : Job → Prop}
    (hbalanced : Balanced known (intensity i) s.shared (s.workers i) effect) :
    (ledger intensity (s.work i effect)).Sound := by
  obtain ⟨n, hnonces, hfetch, hbalance⟩ := hbalanced.fetch
  have hfetch' : n = 0 ∨ fetches (s.workers i) = true ∧ key effect.worker = key (s.workers i) ∧
      (s.shared.nonces effect.worker.job.index).toNat + n.toNat < 2 ^ 64 := by
    refine hfetch.imp_right fun ⟨hn, hpc, hindex, hkey⟩ => ⟨hpc, hkey, ?_⟩
    rw [hindex, hn]
    exact (hallowed.2 hpc).2
  have hzero (hn : n = 0) : n.toNat = 0 := by rw [hn]; rfl
  have hcounter : (fun index => (effect.shared.nonces index).toNat) =
      Function.update (fun index => (s.shared.nonces index).toNat) effect.worker.job.index
        ((s.shared.nonces effect.worker.job.index).toNat + n.toNat) := by
    funext index
    rw [hnonces, Function.update_apply]
    split
    case isTrue heq =>
      rw [heq, Nonce.Shared.fetchAdd_nonces_self, UInt64.toNat_add, UInt32.toNat_toUInt64]
      refine Nat.mod_eq_of_lt ?_
      rcases hfetch' with hn | ⟨-, -, hroom⟩
      · rw [hzero hn, Nat.add_zero]
        exact UInt64.toNat_lt _
      · exact hroom
    case isFalse hne => exact congrArg UInt64.toNat (Function.update_of_ne hne ..)
  have hexchange : spent effect.events +
      held (intensity i) effect.worker effect.worker.job.index ≤
        (ledger intensity s).book.held (i, effect.worker.job.index) +
          stretch (key effect.worker) ((ledger intensity s).counter (key effect.worker).1)
            n.toNat := hbalance
  refine h.draw ?_ hexchange (ledger_work hbalanced.others) hcounter rfl
    (fun index blob hblob => ?_) ?_
  · refine hfetch'.imp hzero fun ⟨hpc, hkey, _⟩ => ?_
    rw [hkey]
    exact (hallowed.2 hpc).1
  · change blob ∈ (s.work i effect).drawn index
    have hold : blob ∈ s.drawn index := hblob
    unfold World.work
    dsimp only
    split
    · rw [Function.update_apply]
      split
      case isTrue heq => exact List.mem_cons_of_mem _ (heq ▸ hold)
      case isFalse => exact hold
    · exact hold
  · refine hfetch'.imp hzero fun ⟨hpc, hkey, _⟩ => ?_
    rw [hkey]
    change (current (s.workers i)).blob ∈ (s.work i effect).drawn (s.workers i).job.index
    unfold World.work
    dsimp only
    rw [if_pos hpc, Function.update_self]
    exact List.mem_cons_self

theorem inv_work {ready throws : Bool} (haccepted : ∀ job ∈ jobs, job.Accepted)
    (h : Inv intensity jobs s) (hallowed : Allowed intensity s (.worker i ready throws))
    (hstep : OclWorker.step (intensity i) (s.environment ready throws) (s.workers i) =
      some effect) : Inv intensity jobs (s.work i effect) := by
  have haccepted' : ∀ job, Known jobs job → job.Accepted := by
    rintro job ⟨j, hj, index, rfl⟩
    exact ⟨(haccepted j hj).placed, (haccepted j hj).nicehash⟩
  have hbalanced : Balanced (Known jobs) (intensity i) s.shared (s.workers i) effect :=
    balanced_step haccepted' (h.workers i) hallowed.1
      (h.job.imp_right fun ⟨hjob, hblank⟩ => ⟨hjob, hblank i⟩) hstep
  have hself : (s.work i effect).workers i = effect.worker := Function.update_self ..
  have hother {j : ι} (hj : j ≠ i) : (s.work i effect).workers j = s.workers j :=
    Function.update_of_ne hj ..
  have hbatch {b : Batch} (hb : .batch b ∈ effect.events) :
      (s.workers i).pc = .run ∧ b = (s.workers i).batch (intensity i) := step_batch hstep hb
  refine ⟨fun j => ?_, ?_, h.coming, sound_work h.sound hallowed hbalanced, fun b hb => ?_, ?_,
    fun j hfailed => ?_⟩
  · by_cases hj : j = i
    · subst hj
      rw [hself]
      exact hbalanced.inv
    · rw [hother hj]
      exact h.workers j
  · refine h.job.imp_right fun ⟨hjob, hblank⟩ => ⟨hjob, fun j => ?_⟩
    by_cases hj : j = i
    · subst hj
      rw [hself]
      exact (hblank j).step haccepted' (h.workers j) hallowed.1 hjob hstep
    · rw [hother hj]
      exact hblank j
  · obtain ⟨⟨j, e⟩, hmem, hevent⟩ := List.mem_filterMap.mp hb
    rcases List.mem_append.mp hmem with hold | hnew
    · exact h.batches b (List.mem_filterMap.mpr ⟨(j, e), hold, hevent⟩)
    · obtain ⟨e', he', hpair⟩ := List.mem_map.mp hnew
      obtain ⟨rfl, rfl⟩ := Prod.mk.inj hpair
      cases e' with
      | batch b' =>
        obtain rfl := Option.some.inj hevent
        obtain ⟨hpc, rfl⟩ := hbatch he'
        have hdrawn := hallowed.1 hpc
        obtain ⟨counter, hcounter⟩ := Option.ne_none_iff_exists'.mp hdrawn
        have hholds := ((h.workers i).sides (s.workers i).job.index).resolve_left
          fun hside => hdrawn hside.2
        exact drawn_batch haccepted' hholds hcounter
      | _ => cases hevent
  · refine orderly_work h.orderly (fun b hb => ?_) fun b hb => ?_
    · refine Bool.eq_false_iff.mpr fun hfailed => ?_
      exact hallowed.1 (hbatch hb).1 (h.rest i hfailed).1
    · obtain ⟨hpc, rfl⟩ := hbatch hb
      unfold OclWorker.step at hstep
      rw [hpc] at hstep
      obtain rfl := Option.some.inj hstep
      rfl
  · rw [failed_work] at hfailed
    by_cases hj : j = i
    · subst hj
      rw [if_pos rfl] at hfailed
      rw [hself]
      exact step_failed (h.workers j) hallowed.1 (h.rest j) hstep hfailed
    · rw [if_neg (Ne.symm hj)] at hfailed
      rw [hother hj]
      exact h.rest j hfailed

theorem inv_step {access : Access ι} (haccepted : ∀ job ∈ jobs, job.Accepted)
    (h : Inv intensity jobs s) (hallowed : Allowed intensity s access)
    (hgiven : ∀ job donate isReady, access = .main (.setJob job donate isReady) → job ∈ jobs)
    (hstep : step intensity s access = some t) : Inv intensity jobs t := by
  cases access with
  | main event =>
    refine inv_main h (fun job donate isReady heq => ?_) hstep
    exact hgiven job donate isReady (congrArg Access.main heq)
  | worker i ready throws =>
    obtain ⟨effect, hwork, rfl⟩ := Option.map_eq_some_iff.mp hstep
    exact inv_work haccepted h hallowed hwork
  | reserve index amount =>
    obtain rfl := Option.some.inj hstep
    exact inv_reserve h hallowed

theorem inv_start : Inv intensity jobs ({} : World ι) := by
  have hissued : (ledger intensity ({} : World ι)).book.issued = 0 :=
    (zero_add _).trans (Finset.sum_eq_zero fun _ _ => held_of_calling (by simp [calling]) _)
  refine ⟨fun _ => ⟨fun _ => .inl ⟨rfl, rfl⟩, ?_, ?_, ?_⟩, .inr ⟨rfl, fun _ => ?_⟩, fun job hjob => ?_,
    ⟨⟨hissued ▸ Multiset.nodup_zero, fun t ht => ?_⟩, fun t ht => ?_⟩, fun b hb => ?_, ?_, fun i hi => ?_⟩
  · exact fun h => absurd h Bool.false_ne_true
  · simp [calling]
  · simp [calling]
  · exact ⟨fun _ => rfl, rfl, fun _ => rfl⟩
  · exact absurd hjob.symm (Option.some_ne_none job)
  · exact absurd (hissued ▸ ht) (Multiset.notMem_zero t)
  · exact absurd (hissued ▸ ht) (Multiset.notMem_zero t)
  · exact absurd hb List.not_mem_nil
  · exact fun before after i b heq => absurd heq (by simp)
  · exact absurd hi Bool.false_ne_true

end World

section Batches

variable {known : Job → Prop} {jobs : List Job}

end Batches

def poolJob (id : String) (last : UInt8) : Job where
  algorithm := .rx0
  nicehash := true
  id := id
  target := 1
  blob := List.replicate 43 0 ++ [last]

def proceeds (n : ℕ) : List (Access (Fin 1)) := List.replicate n (.main (.proceed true))

def turns (n : ℕ) : List (Access (Fin 1)) := List.replicate n (.worker 0 true false)

/-- Two batches of a job, and one of the next. -/
def changedOnce : List (Access (Fin 1)) :=
  .main (.setJob (poolJob "1" 1) false true) :: proceeds 6 ++ turns 17 ++
    .main (.setJob (poolJob "2" 2) false true) :: proceeds 6 ++ turns 13

end VeloxHash.OclNonces
