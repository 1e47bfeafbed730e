import VeloxHash.CpuWorker

/-! The shares of a CPU worker: hash, nonce, signature and job of every submission belong
together. A RandomX hash is read out one iteration after it was begun, by which time the
blob carries the next nonce and the next signature. -/

namespace VeloxHash.SharePairing

open CodeBuffer Splice TransitionSystem CpuWorker

variable {k : Primitives} {data : CpuLaunchData} {given : Job → Prop}

/-- The hash is that of the job's blob with the nonce, and with the signature if the job
asks for one, which is then a signature for this nonce. -/
structure Paired (k : Primitives) (s : Submission) : Prop where
  hash : s.hash = s.job.hash k (match s.signature with
    | some signature => s.job.signed s.nonce signature
    | none => s.job.stamp s.nonce)
  signed : s.signature.isSome = s.job.hasMinerSignature
  generated : ∀ signature, s.signature = some signature → ∃ entropy,
    signature = s.job.generateMinerSignature k entropy (s.job.stamp s.nonce)

/-- What the body relies on: RandomX has one lane, only RandomX signs, and the nonce and the
signature lie inside the blob. -/
structure Suits (data : CpuLaunchData) (job : Job) : Prop where
  lane : job.algorithm.isRandomX = true → data.width = 1
  signs : job.hasMinerSignature = true →
    job.algorithm.isRandomX = true ∧ job.signatureOffset + kSignatureSize ≤ job.size
  nonce : job.nonceOffset + 4 ≤ job.size

/-- The job that is hashed suits the worker. Benchmarks on one thread are left aside. -/
def Allowed (data : CpuLaunchData) (w : Worker k) (env : Environment k) : Prop :=
  Enters data env w →
    Suits data w.job.currentJob ∧ (w.benchSize ≠ 0 → data.threads ≠ 1)

instance (data : CpuLaunchData) (job : Job) : Decidable (Suits data job) :=
  decidable_of_iff ((job.algorithm.isRandomX = true → data.width = 1) ∧
    (job.hasMinerSignature = true →
      job.algorithm.isRandomX = true ∧ job.signatureOffset + kSignatureSize ≤ job.size) ∧
    job.nonceOffset + 4 ≤ job.size)
    ⟨fun h => ⟨h.1, h.2.1, h.2.2⟩, fun h => ⟨h.lane, h.signs, h.nonce⟩⟩

instance (data : CpuLaunchData) (w : Worker k) (env : Environment k) :
    Decidable (Allowed data w env) := by
  unfold Allowed; infer_instance

/-- The machine holds the first half of the hash for a nonce. The signature it was taken
over still stands in the blob, behind a nonce that may have changed since. -/
def Begun (k : Primitives) (job : WorkerJob) (vm : k.Vm) (nonce : UInt32) : Prop :=
  let j := job.currentJob
  if j.hasMinerSignature then
    ∃ entropy current, let signature := j.generateMinerSignature k entropy (j.stamp nonce)
      vm = k.begin (j.signed nonce signature) ∧ job.bytes 0 = j.signed current signature
  else
    vm = k.begin (j.stamp nonce)

/-- An iteration whose nonces are being replaced: its hashes are begun or done. -/
structure InFlight (data : CpuLaunchData) (job : WorkerJob) (hash : Nat → Hash) (vm : k.Vm)
    (it : Iteration) : Prop where
  suits : Suits data job.currentJob
  sound : job.currentJob.Sound
  begun : job.currentJob.algorithm.isRandomX = true →
    ∃ nonce, it.nonces = [nonce] ∧ Begun k job vm nonce
  hashed : job.currentJob.algorithm.isRandomX = false → it.valid = true →
    ∀ (lane : Nat) nonce, it.nonces[lane]? = some nonce →
      hash lane = job.currentJob.hash k (job.currentJob.stamp nonce)

def AllLoaded (data : CpuLaunchData) (job : WorkerJob) : Prop :=
  ∀ index, job.Loaded index data.width

/-- The lanes of the current job are loaded up to `n`, those of the other one all. -/
def LoadedTo (data : CpuLaunchData) (job : WorkerJob) (n : Nat) : Prop :=
  ∀ index, job.Loaded index (if index = job.index then n else data.width)

def Phase (data : CpuLaunchData) (given : Job → Prop) (w : Worker k) : Prop :=
  match w.pc with
  | .add job _ => AllLoaded data w.job ∧ given job
  | .save lane _ _ => lane < data.width ∧ LoadedTo data w.job (lane + 1)
  | .nextRound lane _ it =>
    lane < data.width ∧ AllLoaded data w.job ∧ InFlight data w.job w.hash w.vm it
  | .iterate => AllLoaded data w.job ∧ (w.first = false →
      w.job.currentJob.algorithm.isRandomX = true → w.job.currentJob.Sound →
        Begun k w.job w.vm (w.job.nonce 0))
  | _ => AllLoaded data w.job

/-- The jobs are the initial ones or came from the miner. -/
def Taken (given : Job → Prop) (w : WorkerJob) : Prop :=
  ∀ index, w.jobs index = {} ∨ ∃ job, given job ∧ w.jobs index = job.setBackend .cpu

structure Inv (data : CpuLaunchData) (given : Job → Prop) (w : Worker k) : Prop where
  taken : Taken given w.job
  phase : Phase data given w

/-- A share as the claim has it: paired, for a job that came from the miner. -/
def Genuine (k : Primitives) (given : Job → Prop) (s : Submission) : Prop :=
  Paired k s ∧ ∃ job, given job ∧ s.job = job.setBackend .cpu

structure Kept (data : CpuLaunchData) (given : Job → Prop) (effect : Effect k) : Prop where
  inv : Inv data given effect.worker
  genuine : ∀ s, .submit s ∈ effect.events → Genuine k given s

/-- A step without events. -/
theorem Kept.silent {effect : Effect k} (h : Inv data given effect.worker)
    (hevents : effect.events = []) : Kept data given effect :=
  ⟨h, fun _ hs => absurd (hevents ▸ hs) List.not_mem_nil⟩

section Iteration

variable {w : Worker k} {it : Iteration}

theorem Suits.sound {job : Job} (h : Suits data job)
    (hl3 : job.algorithm.l3 = data.algorithm.l3) : job.Sound :=
  ⟨(data.of_l3 hl3).1, h.nonce, fun hsig => (h.signs hsig).2⟩

theorem submit_mem_results {s : Submission} (h : .submit s ∈ w.results it) :
    it.valid = true ∧ ∃ lane nonce, it.nonces[lane]? = some nonce ∧
      s = ⟨w.job.currentJob, nonce, w.hash lane,
        if w.job.currentJob.hasMinerSignature then some it.saved else none⟩ := by
  unfold Worker.results at h
  split at h
  case isFalse => cases h
  case isTrue hvalid =>
    obtain ⟨⟨nonce, lane⟩, hmem, hs⟩ := List.mem_flatMap.mp h
    refine ⟨hvalid, lane, nonce, List.mk_mem_zipIdx_iff_getElem?.mp hmem, ?_⟩
    unfold Worker.compare at hs
    dsimp only at hs
    split_ifs at hs <;> simp_all

theorem loaded_begin (hload : AllLoaded data w.job) (entropy : k.Entropy) :
    AllLoaded data (w.begin entropy).job := by
  intro index
  unfold Worker.begin
  dsimp only
  split
  case isTrue hsig => exact (hload index).sign hsig _
  case isFalse => exact hload index

theorem taken_begin (h : Taken given w.job) (entropy : k.Entropy) :
    Taken given (w.begin entropy).job := by
  unfold Taken Worker.begin
  dsimp only
  split <;> exact h

/-- The hash is begun for the nonce that the blob carries, which signing leaves alone. -/
theorem begun_begin (hsound : w.job.currentJob.Sound) {nonce : UInt32}
    (hc : w.job.currentJob.Carries (w.job.bytes 0) nonce) (entropy : k.Entropy) :
    (w.begin entropy).job.nonce 0 = nonce ∧
      Begun k (w.begin entropy).job (w.begin entropy).vm nonce := by
  by_cases hsig : w.job.currentJob.hasMinerSignature = true
  · have hgen := hsound.generateMinerSignature_carries hsig entropy hc
    have hbytes : (w.begin entropy).job.bytes 0 = w.job.currentJob.signed nonce
        (w.job.currentJob.generateMinerSignature k entropy (w.job.currentJob.stamp nonce)) := by
      rw [← hgen, ← hsound.carries_sign hsig hc, ← WorkerJob.sign_bytes_zero hsound hsig,
        Worker.begin, if_pos hsig]
    have hcurrent := w.begin_currentJob entropy
    constructor
    · apply WorkerJob.carries_nonce (hcurrent.symm ▸ hsound)
      rw [hcurrent, hbytes]
      exact .inr ⟨hsig, _, rfl⟩
    · unfold Begun
      rw [hcurrent, if_pos hsig]
      exact ⟨entropy, nonce, congrArg k.begin hbytes, hbytes⟩
  · have hstamp : w.job.bytes 0 = w.job.currentJob.stamp nonce := by
      rcases hc with hc | ⟨hc, -⟩
      · exact hc
      · exact absurd hc hsig
    have hjob : (w.begin entropy).job = w.job := by rw [Worker.begin, if_neg hsig]
    have hvm : (w.begin entropy).vm = k.begin (w.job.bytes 0) := by rw [Worker.begin, if_neg hsig]
    rw [hjob, hvm]
    refine ⟨WorkerJob.carries_nonce hsound hc, ?_⟩
    unfold Begun
    rw [if_neg hsig, hstamp]

/-- A hash that was begun survives a new nonce in the blob. -/
theorem Begun.renonce {job : WorkerJob} {vm : k.Vm} {nonce : UInt32} (h : Begun k job vm nonce)
    (m : Memory) (hkeep : ∀ current signature, job.currentJob.hasMinerSignature = true →
      job.bytes 0 = job.currentJob.signed current signature →
      ∃ current, (job.withBlob m).bytes 0 = job.currentJob.signed current signature) :
    Begun k (job.withBlob m) vm nonce := by
  unfold Begun at h ⊢
  dsimp only at h ⊢
  rw [WorkerJob.withBlob_currentJob]
  split at h
  case isTrue hsig =>
    obtain ⟨entropy, current, hvm, hbytes⟩ := h
    obtain ⟨current', hbytes'⟩ := hkeep current _ hsig hbytes
    rw [if_pos hsig]
    exact ⟨entropy, current', hvm, hbytes'⟩
  case isFalse hsig =>
    rw [if_neg hsig]
    exact h

theorem Begun.bump {job : WorkerJob} {vm : k.Vm} {nonce : UInt32} (h : Begun k job vm nonce)
    (hsound : job.currentJob.Sound) (roundSize : UInt32) (width : Nat) :
    Begun k (job.bump roundSize width) vm nonce := by
  refine h.renonce _ fun current signature hsig hbytes => ?_
  rw [WorkerJob.withBlob_bytes, WorkerJob.view_bumped hsound]
  split
  case isTrue =>
    rw [hbytes, hsound.signed_splice hsig]
    exact ⟨_, rfl⟩
  case isFalse => exact ⟨current, hbytes⟩

theorem Begun.storeNonce {job : WorkerJob} {vm : k.Vm} {nonce : UInt32} (h : Begun k job vm nonce)
    (hsound : job.currentJob.Sound) (hmask : job.mask = job.currentJob.nonceMask) (lane : Nat)
    (counter : UInt64) : Begun k (job.storeNonce lane counter) vm nonce := by
  obtain ⟨v, hv, -⟩ := WorkerJob.storeNonce_eq hsound hmask (i := lane) counter
  rw [hv]
  refine h.renonce _ fun current signature hsig hbytes => ?_
  rw [WorkerJob.withBlob_bytes]
  by_cases hlane : lane = 0
  · subst hlane
    rw [WorkerJob.view_putNonce_self hsound, ← WorkerJob.bytes_eq, hbytes,
      hsound.signed_splice hsig]
    exact ⟨v, rfl⟩
  · rw [WorkerJob.view_putNonce_ne hsound (Ne.symm hlane), ← WorkerJob.bytes_eq]
    exact ⟨current, hbytes⟩

theorem not_sound_default : ¬ Job.Sound {} := by
  intro h
  have hle := h.nonce_le
  simp [Job.size] at hle

theorem Taken.current (h : Taken given w.job) (hsound : w.job.currentJob.Sound) :
    ∃ job, given job ∧ w.job.currentJob = job.setBackend .cpu := by
  rcases h w.job.index with hdefault | hgiven
  · rw [WorkerJob.currentJob, hdefault] at hsound
    exact absurd hsound not_sound_default
  · exact hgiven

/-- The share read out of the machine for the nonce it was begun with. -/
theorem paired_of_begun (hsound : w.job.currentJob.Sound)
    (hrx : w.job.currentJob.algorithm.isRandomX = true) {nonce : UInt32}
    (h : Begun k w.job w.vm nonce) :
    Paired k ⟨w.job.currentJob, nonce, k.finish w.vm,
      if w.job.currentJob.hasMinerSignature then some w.job.signature else none⟩ := by
  unfold Begun at h
  dsimp only at h
  split at h
  case isTrue hsig =>
    obtain ⟨entropy, current, hvm, hbytes⟩ := h
    have hsigned := WorkerJob.signature_of_signed hsound hsig hbytes
    rw [if_pos hsig, hsigned]
    constructor
    · simp only [Job.hash, hrx, if_true, hvm]
    · simp [hsig]
    · rintro _ ⟨⟩
      exact ⟨entropy, rfl⟩
  case isFalse hsig =>
    rw [if_neg hsig]
    constructor
    · simp only [Job.hash, hrx, if_true, h]
    · simp [hsig]
    · rintro _ ⟨⟩

/-- The share of a lane that was hashed at the head of the iteration. -/
theorem paired_of_hashed (hsig : w.job.currentJob.hasMinerSignature = false) {nonce : UInt32}
    {hash : Hash} (h : hash = w.job.currentJob.hash k (w.job.currentJob.stamp nonce))
    (saved : Signature) :
    Paired k ⟨w.job.currentJob, nonce, hash,
      if w.job.currentJob.hasMinerSignature then some saved else none⟩ := by
  simp only [hsig, Bool.false_eq_true, if_false]
  exact ⟨h, hsig.symm, nofun⟩

theorem AllLoaded.carries (h : AllLoaded data w.job) (hsound : w.job.currentJob.Sound) :
    w.job.mask = w.job.currentJob.nonceMask ∧
      ∀ i < data.width, w.job.currentJob.Carries (w.job.bytes i) (w.job.nonce i) := by
  obtain ⟨hmask, hlanes⟩ := h w.job.index hsound
  refine ⟨hmask, fun i hi => ?_⟩
  obtain ⟨nonce, hc⟩ := hlanes i hi
  exact (WorkerJob.carries_nonce hsound hc).symm ▸ hc

theorem kept_finish (htaken : Taken given w.job) (hload : AllLoaded data w.job)
    (hflight : InFlight data w.job w.hash w.vm it) (env : Environment k) (shared : Nonce.Shared) :
    Kept data given (finish env shared w it) := by
  have hsound := hflight.sound
  obtain ⟨job, hgiven, hjob⟩ := htaken.current hsound
  unfold finish
  dsimp only
  split
  case isTrue hrx =>
    obtain ⟨nonce, hnonces, hbegun⟩ := hflight.begun hrx
    have hnext := begun_begin hsound ((hload.carries hsound).2 0 data.pos) (env.entropy 1)
    refine ⟨⟨taken_begin htaken _, loaded_begin hload _, fun _ _ _ => ?_⟩, fun s hs => ?_⟩
    · have hnonce := hnext.1
      exact hnonce.symm ▸ hnext.2
    · have hpaired := paired_of_begun hsound hrx hbegun
      rcases List.mem_append.mp hs with hs | hs
      · obtain ⟨_, -, hs⟩ := List.mem_map.mp hs
        cases hs
      · obtain ⟨-, lane, nonce', hnonce', rfl⟩ := submit_mem_results hs
        have hits : (if w.job.currentJob.hasMinerSignature = true then
            { it with saved := w.job.signature } else it).nonces = [nonce] := by
          split <;> exact hnonces
        rw [hits] at hnonce'
        obtain ⟨rfl, rfl⟩ : lane = 0 ∧ nonce = nonce' := by
          cases lane <;> simp_all
        rw [w.next_currentJob, w.next_hash_zero]
        refine ⟨?_, job, hgiven, hjob⟩
        convert hpaired using 2
        split <;> rfl
  case isFalse hrx =>
    refine ⟨⟨htaken, hload, fun _ hrx' _ => absurd hrx' hrx⟩, fun s hs => ?_⟩
    obtain ⟨hvalid, lane, nonce, hnonce, rfl⟩ := submit_mem_results hs
    have hsig : w.job.currentJob.hasMinerSignature = false := by
      by_contra h
      exact hrx (hflight.suits.signs (Bool.of_not_eq_false h)).1
    exact ⟨paired_of_hashed hsig
      (hflight.hashed (Bool.of_not_eq_true hrx) hvalid lane nonce hnonce) _, job, hgiven, hjob⟩

/-- `nextRound` begins with hashes that are begun or done, and without its own accesses
replaces the nonces at once. -/
theorem kept_startRound (htaken : Taken given w.job) (hload : AllLoaded data w.job)
    (hflight : InFlight data w.job w.hash w.vm it) (env : Environment k) :
    Kept data given (startRound data env w it) := by
  have htaken' : Taken given w.job.countRound := htaken
  have hload' : AllLoaded data w.job.countRound := fun index => (hload index).countRound
  have hflight' : InFlight data w.job.countRound w.hash w.vm it :=
    ⟨hflight.suits, hflight.sound, hflight.begun, hflight.hashed⟩
  unfold startRound
  dsimp only
  generalize w.job.countRound = job at *
  split
  case isTrue => exact .silent ⟨htaken', data.pos, hload', hflight'⟩ rfl
  case isFalse =>
    refine kept_finish (w := { w with job := job.bump 1 data.width }) htaken'
      (fun index => (hload' index).bump 1 data.width)
      ⟨hflight'.suits, hflight'.sound, fun hrx => ?_, hflight'.hashed⟩ env env.shared
    obtain ⟨nonce, hnonces, hbegun⟩ := hflight'.begun hrx
    exact ⟨nonce, hnonces, hbegun.bump hflight'.sound 1 data.width⟩

theorem kept_advance (htaken : Taken given w.job) (hload : AllLoaded data w.job)
    (hflight : InFlight data w.job w.hash w.vm it) (env : Environment k) (shared : Nonce.Shared)
    (lane : Nat) (counter : UInt64) :
    Kept data given (advance data env shared w lane counter it) := by
  have hsound := hflight.sound
  have hmask := (hload.carries hsound).1
  have hsync : (w.job.storeNonce lane counter).syncNonce = w.job.storeNonce lane counter :=
    WorkerJob.syncNonce_eq hsound.nonceSize
  have hload' : AllLoaded data (w.job.storeNonce lane counter) := fun index =>
    (hload index).storeNonce lane counter
  have hflight' : InFlight data (w.job.storeNonce lane counter) w.hash w.vm it := by
    refine ⟨hflight.suits, hsound, fun hrx => ?_, hflight.hashed⟩
    obtain ⟨nonce, hnonces, hbegun⟩ := hflight.begun hrx
    exact ⟨nonce, hnonces, hbegun.storeNonce hsound hmask lane counter⟩
  unfold advance
  dsimp only
  rw [hsync, ite_self]
  split
  case isTrue hlane => exact .silent ⟨htaken, hlane, hload', hflight'⟩ rfl
  case isFalse =>
    exact kept_finish (w := { w with job := w.job.storeNonce lane counter }) htaken hload' hflight'
      env shared

/-- The nonces that the body reads. -/
theorem nonces_getElem? {lane : Nat} {nonce : UInt32} {n : Nat}
    (h : ((List.range n).map w.job.nonce)[lane]? = some nonce) :
    lane < n ∧ nonce = w.job.nonce lane := by
  rw [List.getElem?_map] at h
  obtain ⟨i, hi, rfl⟩ := Option.map_eq_some_iff.mp h
  obtain ⟨hlt, rfl⟩ := List.getElem?_eq_some_iff.mp hi
  simp only [List.length_range] at hlt
  simp [hlt]

/-- The hashing starts what it does not finish. -/
theorem flight_compute (htaken : Taken given w.job) (hload : AllLoaded data w.job)
    (hsuits : Suits data w.job.currentJob) (hsound : w.job.currentJob.Sound)
    (hfirst : w.first = false → w.job.currentJob.algorithm.isRandomX = true →
      Begun k w.job w.vm (w.job.nonce 0))
    (hnonces : it.nonces = (List.range data.width).map w.job.nonce) (env : Environment k) :
    Taken given (compute data env w it).1.job ∧ AllLoaded data (compute data env w it).1.job ∧
      InFlight data (compute data env w it).1.job (compute data env w it).1.hash
        (compute data env w it).1.vm it ∧
      ∀ s, .submit s ∉ (compute data env w it).2 := by
  have hcarries := (hload.carries hsound).2
  have hsingle (hrx : w.job.currentJob.algorithm.isRandomX = true) :
      it.nonces = [w.job.nonce 0] := by
    rw [hnonces, hsuits.lane hrx]
    rfl
  unfold compute
  split
  case isTrue hrx =>
    split
    case isTrue =>
      have hcurrent := w.begin_currentJob (env.entropy 0)
      obtain ⟨-, hbegun⟩ := begun_begin hsound (hcarries 0 data.pos) (env.entropy 0)
      refine ⟨taken_begin htaken _, loaded_begin hload _, ⟨?_, ?_, ?_, ?_⟩, ?_⟩
      · exact hcurrent.symm ▸ hsuits
      · exact hcurrent.symm ▸ hsound
      · exact fun _ => ⟨_, hsingle hrx, hbegun⟩
      · intro hother
        rw [hcurrent, hrx] at hother
        cases hother
      · simp [hsingle hrx]
    case isFalse hlater =>
      refine ⟨htaken, hload, ⟨hsuits, hsound, fun _ => ⟨_, hsingle hrx, ?_⟩, ?_⟩, ?_⟩
      · exact hfirst (Bool.of_not_eq_true hlater) hrx
      · intro hother
        rw [hrx] at hother
        cases hother
      · simp
  case isFalse hrx =>
    split
    case isTrue =>
      refine ⟨htaken, hload, ⟨hsuits, hsound, fun hrx' => absurd hrx' hrx, ?_⟩, ?_⟩
      · intro _ _ lane nonce hlane
        rw [hnonces] at hlane
        obtain ⟨hlt, rfl⟩ := nonces_getElem? hlane
        have hstamp : w.job.bytes lane = w.job.currentJob.stamp (w.job.nonce lane) := by
          rcases hcarries lane hlt with h | ⟨hsig, -⟩
          · exact h
          · exact absurd (hsuits.signs hsig).1 hrx
        simp only [Worker.hashAll, if_pos hlt, hstamp]
      · simp
    case isFalse hvalid =>
      refine ⟨htaken, hload, ⟨hsuits, hsound, fun hrx' => absurd hrx' hrx, ?_⟩, ?_⟩
      · exact fun _ hvalid' => absurd hvalid' hvalid
      · simp

/-- Events before an effect that hold no share. -/
theorem Kept.prepend {effect : Effect k} {events : List Event} (h : Kept data given effect)
    (hevents : ∀ s, .submit s ∉ events) :
    Kept data given { effect with events := events ++ effect.events } := by
  refine ⟨h.inv, fun s hs => ?_⟩
  rcases List.mem_append.mp hs with hs | hs
  · exact absurd hs (hevents s)
  · exact h.genuine s hs

theorem kept_body (htaken : Taken given w.job) (hload : AllLoaded data w.job)
    (hsuits : Suits data w.job.currentJob) (hsound : w.job.currentJob.Sound)
    (hthreads : w.benchSize ≠ 0 → data.threads ≠ 1)
    (hfirst : w.first = false → w.job.currentJob.algorithm.isRandomX = true →
      Begun k w.job w.vm (w.job.nonce 0)) (env : Environment k) :
    Kept data given (body data env w) := by
  unfold body
  dsimp only
  have hmixed : (w.benchSize != 0 && data.threads == 1) = false := by
    by_cases hbench : w.benchSize = 0
    · simp [hbench]
    · simp [hthreads hbench]
  rw [hmixed]
  split
  case isTrue => exact ⟨⟨htaken, hload⟩, by simp [quiet]⟩
  case isFalse =>
    generalize hit : (⟨(List.range data.width).map w.job.nonce, _, env.stack⟩ : Iteration) = it
    have hnonces : it.nonces = (List.range data.width).map w.job.nonce := hit ▸ rfl
    obtain ⟨htaken', hload', hflight, hquiet⟩ :=
      flight_compute htaken hload hsuits hsound hfirst hnonces env
    exact (kept_startRound htaken' hload' hflight env).prepend hquiet

end Iteration

section Step

variable {w : Worker k} {env : Environment k} {effect : Effect k}

/-- A phase in which nothing is under way. -/
theorem Inv.loaded (h : Inv data given w) (hsave : ∀ lane call resume, w.pc ≠ .save lane call resume) :
    AllLoaded data w.job := by
  have hphase := h.phase
  unfold Phase at hphase
  split at hphase
  case h_2 lane call resume hpc => exact absurd hpc (hsave lane call resume)
  case h_3 => exact hphase.2.1
  case h_5 => exact hphase
  all_goals exact hphase.1

theorem kept_resume (htaken : Taken given w.job) (hload : AllLoaded data w.job) (resume : Resume) :
    Inv data given (w.resume resume) := by
  cases resume with
  | inner => exact ⟨htaken, hload, fun hfirst => absurd hfirst (by simp [Worker.resume])⟩
  | outer => exact ⟨htaken, hload⟩

theorem taken_keep {job kept : WorkerJob} {next : Job} (h : Taken given job)
    (hkept : job.keep next = some kept) : Taken given kept := by
  unfold WorkerJob.keep at hkept
  split_ifs at hkept <;> cases hkept <;> exact h

theorem taken_select {job : WorkerJob} {next : Job} (h : Taken given job) (hnext : given next) :
    Taken given (job.select next) := by
  intro index
  simp only [WorkerJob.select]
  by_cases hindex : index = next.index
  · subst hindex
    exact .inr ⟨next, hnext, Function.update_self ..⟩
  · rw [Function.update_of_ne hindex]
    exact h index

theorem loadedTo_copyLane {job : WorkerJob} {n : Nat} (h : LoadedTo data job n) :
    LoadedTo data (job.copyLane n) (n + 1) := by
  intro index
  have hloaded := h index
  change (job.copyLane n).Loaded index (if index = job.index then n + 1 else data.width)
  by_cases hindex : index = job.index
  · subst hindex
    rw [if_pos rfl] at hloaded ⊢
    exact hloaded.copyLane
  · rw [if_neg hindex] at hloaded ⊢
    exact hloaded.withBlob_ne hindex _

theorem loadedTo_select {job : WorkerJob} (h : AllLoaded data job) (next : Job) :
    LoadedTo data (job.select next) 0 := by
  intro index
  change (job.select next).Loaded index (if index = next.index then 0 else data.width)
  by_cases hindex : index = next.index
  · subst hindex
    rw [if_pos rfl]
    exact WorkerJob.loaded_select job next
  · rw [if_neg hindex]
    exact (h index).select hindex

theorem inv_add {job : Job} (htaken : Taken given w.job) (hload : AllLoaded data w.job)
    (hjob : given job) (sequence : UInt64) (resume : Resume) :
    Inv data given (w.add job sequence resume) := by
  unfold Worker.add
  dsimp only
  have htaken' : Taken given { w.job with sequence } := htaken
  have hload' : AllLoaded data { w.job with sequence } := hload
  generalize { w.job with sequence } = old at *
  split
  case h_1 kept hkept =>
    exact kept_resume (w := { w with job := kept }) (taken_keep htaken' hkept)
      (fun index => (hload' index).keep hkept) resume
  case h_2 =>
    exact ⟨taken_select htaken' hjob, data.pos, loadedTo_copyLane (loadedTo_select hload' job)⟩

theorem inv_saved {lane : Nat} (htaken : Taken given w.job) (hlane : lane < data.width)
    (hload : LoadedTo data w.job (lane + 1)) (resume : Resume) (result : Option UInt64) :
    Inv data given (w.saved data.width lane resume result) := by
  have hcontinue (v : Worker k) (htaken : Taken given v.job)
      (hload : LoadedTo data v.job (lane + 1)) :
      Inv data given (if lane + 1 < data.width then
        { v with pc := .save (lane + 1) .enter resume, job := v.job.copyLane (lane + 1) }
      else
        v.resume resume) := by
    split
    case isTrue hnext => exact ⟨htaken, hnext, loadedTo_copyLane hload⟩
    case isFalse hlast =>
      refine kept_resume htaken (fun index => ?_) resume
      have hloaded := hload index
      rwa [show lane + 1 = data.width by omega, ite_self] at hloaded
  cases result with
  | none => exact hcontinue (w.grant w.job.index false) htaken hload
  | some counter =>
    exact hcontinue { w with job := w.job.storeNonce lane counter } htaken
      fun index => (hload index).storeNonce lane counter

theorem kept_saveStep {lane : Nat} {call : Nonce.Pc} {resume : Resume}
    (htaken : Taken given w.job) (hlane : lane < data.width)
    (hload : LoadedTo data w.job (lane + 1))
    (hstep : saveStep data env w lane call resume = some effect) : Kept data given effect := by
  obtain ⟨⟨shared, call'⟩, -, rfl⟩ := Option.map_eq_some_iff.mp hstep
  refine ⟨?_, fun s hs => ?_⟩
  · cases call' with
    | done result => exact inv_saved htaken hlane hload resume result
    | _ => exact ⟨htaken, hlane, hload⟩
  · cases call <;> simp [reservation] at hs

theorem kept_nextRoundStep {lane : Nat} {call : Nonce.Pc} {it : Iteration}
    (htaken : Taken given w.job) (hlane : lane < data.width) (hload : AllLoaded data w.job)
    (hflight : InFlight data w.job w.hash w.vm it)
    (hstep : nextRoundStep data env w lane call it = some effect) : Kept data given effect := by
  obtain ⟨⟨shared, call'⟩, -, rfl⟩ := Option.map_eq_some_iff.mp hstep
  have hquiet (s : Submission) : .submit s ∉ reservation w call := by
    cases call <;> simp [reservation]
  have hwait (next : Nonce.Pc) :
      Kept data given ⟨{ w with pc := .nextRound lane next it }, shared, []⟩ :=
    .silent ⟨htaken, hlane, hload, hflight⟩ rfl
  cases call' with
  | done result =>
    cases result with
    | none => exact ⟨⟨htaken, hload⟩, fun s hs => by cases call <;> simp [reservation] at hs⟩
    | some counter => exact (kept_advance htaken hload hflight env shared lane counter).prepend hquiet
  | _ => exact (hwait _).prepend hquiet

theorem kept_iterate (htaken : Taken given w.job) (hload : AllLoaded data w.job)
    (hfirst : w.first = false → w.job.currentJob.algorithm.isRandomX = true →
      w.job.currentJob.Sound → Begun k w.job w.vm (w.job.nonce 0))
    (hpc : w.pc = .iterate) (hallowed : Allowed data w env) :
    Kept data given (iterate data env w) := by
  unfold iterate
  split
  case isTrue => exact .silent ⟨htaken, hload⟩ rfl
  case isFalse hcurrent =>
    split
    case isTrue => exact .silent ⟨htaken, hload⟩ rfl
    case isFalse hl3 =>
      have hl3 := not_not.mp hl3
      obtain ⟨hsuits, hthreads⟩ := hallowed ⟨hpc, Bool.of_not_eq_true hcurrent, hl3⟩
      have hsound := hsuits.sound hl3
      exact kept_body htaken hload hsuits hsound hthreads (fun h hrx => hfirst h hrx hsound) env

theorem kept_step (h : Inv data given w) (hallowed : Allowed data w env) (hjob : given env.job)
    (hstep : step data env w = some effect) : Kept data given effect := by
  have hphase := h.phase
  have htaken := h.taken
  unfold Phase at hphase
  unfold step at hstep
  dsimp only at hstep
  cases hpc : w.pc <;> simp only [hpc] at hphase hstep
  case pausedTest =>
    split at hstep <;> cases hstep
    · exact .silent ⟨htaken, hphase⟩ rfl
    · exact .silent (kept_resume htaken hphase .inner) rfl
  case consume resume =>
    split at hstep <;> cases hstep
    · exact .silent (kept_resume htaken hphase resume) rfl
    · exact .silent ⟨htaken, hphase⟩ rfl
  case load resume =>
    cases hstep
    exact .silent ⟨htaken, hphase, hjob⟩ rfl
  case add job resume =>
    cases hstep
    exact .silent (inv_add htaken hphase.1 hphase.2 _ resume) rfl
  case save lane call resume => exact kept_saveStep htaken hphase.1 hphase.2 hstep
  case iterate =>
    cases hstep
    exact kept_iterate htaken hphase.1 hphase.2 hpc hallowed
  case nextRound lane call it =>
    exact kept_nextRoundStep htaken hphase.1 hphase.2.1 hphase.2.2 hstep
  case returned => cases hstep
  -- the other steps only move on
  all_goals split at hstep <;> cases hstep <;> exact .silent ⟨htaken, hphase⟩ rfl

end Step

theorem inv_launch (blob : Memory) (hash : Nat → Hash) (vm : k.Vm) :
    Inv data given (launch blob hash vm) :=
  ⟨fun _ => .inl rfl, fun _ hsound => absurd hsound not_sound_default⟩

/-- A job that comes with a key for miner signatures. -/
def signedJob (algorithm : Algorithm) : Job where
  algorithm := algorithm
  id := "1"
  target := 1
  blob := List.replicate 120 0
  hasMinerSignature := true

/-- A signature that nothing generated goes out with the share. -/
theorem share_unpaired : ¬ ∀ (k : Primitives) (data : CpuLaunchData) (blob : Memory)
    (hash : Nat → Hash) (vm : k.Vm) (schedule : List (Environment k)) (h : History k),
    data.threads ≠ 1 → exec (History.step data) ⟨launch blob hash vm, []⟩ schedule = some h →
      ∀ s, .submit s ∈ h.events →
        Paired k s ∧ ∃ env ∈ schedule, s.job = env.job.setBackend .cpu := by
  intro h
  have hrun : (exec (History.step ⟨.cn0, 1, 2, by decide, by decide⟩)
      ⟨launch (fun _ => 0) (fun _ => Vector.replicate 32 0) (), []⟩
      (List.replicate 11 (unpaused (signedJob .cn0)))).map (fun h => decide (.submit
        ⟨signedJob .cn0, 0, Vector.replicate 32 0, some (Vector.replicate 64 1)⟩ ∈ h.events)) =
      some true := by decide
  obtain ⟨t, hexec, hmem⟩ := Option.map_eq_some_iff.mp hrun
  obtain ⟨entropy, hgenerated⟩ :=
    (h _ _ _ _ _ _ t (by decide) hexec _ (of_decide_eq_true hmem)).1.generated _ rfl
  have hstale : Vector.replicate 64 (1 : UInt8) = Vector.replicate 64 0 := hgenerated
  exact absurd hstale (by decide)

/-- In every run in which the jobs that are hashed suit the worker, whatever the miner and
the other workers do in between, each share is paired, for a job that the miner gave out. -/
theorem shares_paired {blob : Memory} {hash : Nat → Hash} {vm : k.Vm}
    {schedule : List (Environment k)} {h : History k}
    (hrun : Run (History.step data) (fun h env => Allowed data h.worker env)
      ⟨launch blob hash vm, []⟩ schedule h) :
    ∀ s, .submit s ∈ h.events →
      Paired k s ∧ ∃ env ∈ schedule, s.job = env.job.setBackend .cpu := by
  have hkept := (hrun.labels (R := fun env => ∃ e ∈ schedule, env.job = e.job)
    fun env henv => ⟨env, henv, rfl⟩).invariant
    (I := fun h => Kept data (fun job => ∃ e ∈ schedule, job = e.job)
      ⟨h.worker, {}, h.events⟩) ?_ ⟨inv_launch blob hash vm, by simp⟩
  · intro s hs
    obtain ⟨hpaired, _, ⟨env, henv, rfl⟩, hjob⟩ := hkept.genuine s hs
    exact ⟨hpaired, env, henv, hjob⟩
  · rintro h env t ⟨hallowed, hjob⟩ hinv hstep
    obtain ⟨effect, heffect, rfl⟩ := Option.map_eq_some_iff.mp hstep
    have hnext := kept_step hinv.inv hallowed hjob heffect
    refine ⟨hnext.inv, fun s hs => ?_⟩
    rcases List.mem_append.mp hs with hs | hs
    · exact hinv.genuine s hs
    · exact hnext.genuine s hs

/-- A signed RandomX job: its second share is read out while the blob carries a third
nonce. -/
theorem shares_paired_run :
    (exec (guarded (fun h env => decide (Allowed ⟨.rx0, 1, 2, by decide, by decide⟩ h.worker env))
        (History.step ⟨.rx0, 1, 2, by decide, by decide⟩))
      ⟨launch (fun _ => 0) (fun _ => Vector.replicate 32 0) (), []⟩
      (List.replicate 12 (unpaused (signedJob .rx0)))).map (fun h => decide (.submit
        ⟨signedJob .rx0, 1, Vector.replicate 32 0, some (Vector.replicate 64 0)⟩ ∈ h.events)) =
      some true ∧
    Paired zeros
      ⟨signedJob .rx0, 1, Vector.replicate 32 0, some (Vector.replicate 64 0)⟩ := by
  have hrun : (exec (guarded
        (fun h env => decide (Allowed ⟨.rx0, 1, 2, by decide, by decide⟩ h.worker env))
        (History.step ⟨.rx0, 1, 2, by decide, by decide⟩))
      ⟨launch (fun _ => 0) (fun _ => Vector.replicate 32 0) (), []⟩
      (List.replicate 12 (unpaused (signedJob .rx0)))).map (fun h => decide (.submit
        ⟨signedJob .rx0, 1, Vector.replicate 32 0, some (Vector.replicate 64 0)⟩ ∈ h.events)) =
      some true := by decide +kernel
  obtain ⟨h, hexec, hmem⟩ := Option.map_eq_some_iff.mp hrun
  have hpaired := shares_paired (run_of_guarded (fun _ _ => of_decide_eq_true) hexec)
  exact ⟨hrun, (hpaired _ (of_decide_eq_true hmem)).1⟩

end VeloxHash.SharePairing
