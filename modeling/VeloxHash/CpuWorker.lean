import VeloxHash.TransitionSystem
import VeloxHash.WorkerJob

/-! `CpuWorker<N>::start` with `consumeJob` and `nextRound`, cut at its reads of the static
members of `Nonce` and of the miner's job. Between two of them a worker touches only its
own memory. The waiting for a dataset in `allocateRandomX_VM` changes none of it. `batch`
and `granted` are ghosts: how often the nonces of the lanes were replaced, and whether the
last calls of `Nonce::next` for a job returned true. -/

namespace VeloxHash

open CodeBuffer TransitionSystem

def kReserveCount : UInt32 := 32768

/-- `CpuWorker::selfTest` when every `verify` succeeds. -/
def selfTest (algorithm : Algorithm) (width : Nat) : Bool :=
  if algorithm.isRandomX then width == 1
  else if algorithm.isGhostrider then width == 8
  else [0x63150000, 0x63140000, 0x63160000, 0x63120000, 0x63110000, 0x61000000].contains
    algorithm.family

/-- What is fixed at launch; a worker that fails its self test is not started. -/
structure CpuLaunchData where
  algorithm : Algorithm
  width : Nat
  threads : Nat
  pos : 0 < width
  tested : selfTest algorithm width = true

theorem selfTest_l3 {algorithm : Algorithm} {width : Nat}
    (h : selfTest algorithm width = true) : algorithm.l3 ≠ 2 ^ 15 ∧ algorithm.l3 ≠ 1 := by
  cases algorithm with
  | kawpowRvn => exact absurd h Bool.false_ne_true
  | invalid => exact absurd h Bool.false_ne_true
  | _ => decide

/-- A job with the memory of the worker's algorithm is no KawPow job and not the default one. -/
theorem CpuLaunchData.of_l3 (data : CpuLaunchData) {algorithm : Algorithm}
    (h : algorithm.l3 = data.algorithm.l3) : algorithm.nonceSize = 4 ∧ algorithm ≠ .invalid := by
  obtain ⟨hkawpow, hinvalid⟩ := selfTest_l3 data.tested
  cases algorithm with
  | kawpowRvn => exact absurd h.symm hkawpow
  | invalid => exact absurd h.symm hinvalid
  | _ => decide

namespace CpuWorker

/-- Where `start` goes after `consumeJob`. -/
inductive Resume
  | inner
  | outer
  deriving DecidableEq, Repr

/-- The locals of the body of the inner loop that outlive `nextRound`. -/
structure Iteration where
  nonces : List UInt32
  valid : Bool
  saved : Signature
  deriving DecidableEq

inductive Pc
  | running
  | pausedTest
  | sleeping
  | sleepingTest
  | woken
  | consume (resume : Resume)
  | load (resume : Resume)
  | add (job : Job) (resume : Resume)
  | save (lane : Nat) (call : Nonce.Pc) (resume : Resume)
  | iterate
  | nextRound (lane : Nat) (call : Nonce.Pc) (it : Iteration)
  | leave
  | returned
  deriving DecidableEq

variable {k : Primitives}

structure Worker (k : Primitives) where
  pc : Pc := .running
  job : WorkerJob := {}
  benchSize : UInt32 := 0
  hash : Nat → Hash
  first : Bool := true
  vm : k.Vm
  batch : Nat := 0
  granted : Fin 2 → Bool := fun _ => false

/-- A nonce of a lane, and the job whose blob it is written into. -/
structure Work where
  job : Job
  batch : Nat
  lane : Nat
  nonce : UInt32
  deriving DecidableEq

/-- The arguments of `JobResults::submit`. -/
structure Submission where
  job : Job
  nonce : UInt32
  hash : Hash
  signature : Option Signature
  deriving DecidableEq

inductive Event
  | reserved (index : Fin 2) (blob : List UInt8)
  | started (work : Work) (bytes : List UInt8)
  | hashed (work : Work) (hash : Hash)
  | compared (work : Work) (hash : Hash)
  | submit (submission : Submission)
  | done (job : Job)
  | benchAdd (value : UInt64)
  | benchDone
  deriving DecidableEq

/-- What a worker finds outside its own memory: the static members of `Nonce`, the job of
the miner, `BenchState::data()`, stale stack and the randomness of two signatures. -/
structure Environment (k : Primitives) where
  shared : Nonce.Shared
  job : Job
  benchData : UInt64
  stack : Signature
  entropy : Fin 2 → k.Entropy

structure Effect (k : Primitives) where
  worker : Worker k
  shared : Nonce.Shared
  events : List Event := []

/-- `kReserveCount`, or single nonces in a benchmark. -/
def reserveCount (benchSize : UInt32) : UInt32 := if benchSize != 0 then 1 else kReserveCount

namespace Worker

def count (w : Worker k) : UInt32 := reserveCount w.benchSize

/-- The work of a lane whose nonce was read as `nonce`. -/
def work (w : Worker k) (lane : Nat) (nonce : UInt32) : Work where
  job := w.job.currentJob
  batch := w.batch
  lane := lane
  nonce := nonce

def resume (w : Worker k) : Resume → Worker k
  | .inner => { w with pc := .iterate, first := true }
  | .outer => { w with pc := .running }

def grant (w : Worker k) (index : Fin 2) (granted : Bool) : Worker k :=
  { w with granted := Function.update w.granted index granted }

/-- `consumeJob` from its `m_job.add` on. -/
def add (w : Worker k) (job : Job) (sequence : UInt64) (resume : Resume) : Worker k :=
  let old := { w.job with sequence }
  match old.keep job with
  | some kept => Worker.resume { w with job := kept } resume
  | none =>
    { w.grant job.index true with
      pc := .save 0 .enter resume
      job := (old.select job).copyLane 0
      batch := w.batch + 1 }

/-- The loop of `save` after a call of `Nonce::next`. -/
def saved (width : Nat) (w : Worker k) (lane : Nat) (resume : Resume) (result : Option UInt64) :
    Worker k :=
  let w := match result with
    | some counter => { w with job := w.job.storeNonce lane counter }
    | none => w.grant w.job.index false
  if lane + 1 < width then
    { w with pc := .save (lane + 1) .enter resume, job := w.job.copyLane (lane + 1) }
  else
    w.resume resume

/-- The first half of a RandomX hash at the head of the loop. -/
def begin (w : Worker k) (entropy : k.Entropy) : Worker k :=
  let job := w.job.currentJob
  let signed := if job.hasMinerSignature then
      w.job.sign (job.generateMinerSignature k entropy (w.job.bytes 0))
    else
      w.job
  { w with job := signed, first := false, vm := k.begin (signed.bytes 0) }

/-- `randomx_calculate_hash_next`: the hash that was begun, and the next one begun. -/
def next (w : Worker k) (entropy : k.Entropy) : Worker k :=
  let w' := w.begin entropy
  { w' with hash := Function.update w.hash 0 (k.finish w.vm) }

/-- The other algorithms hash all lanes at once. -/
def hashAll (w : Worker k) (width : Nat) : Worker k :=
  { w with hash := fun lane =>
      if lane < width then w.job.currentJob.hash k (w.job.bytes lane) else w.hash lane }

/-- What becomes of the hash of a lane. -/
def compare (w : Worker k) (it : Iteration) (lane : Nat) (nonce : UInt32) : List Event :=
  let hash := w.hash lane
  if w.benchSize != 0 then
    if nonce < w.benchSize then [.benchAdd hash.value] else []
  else
    .compared (w.work lane nonce) hash ::
      if hash.value < w.job.currentJob.target then
        [.submit ⟨w.job.currentJob, nonce, hash,
          if w.job.currentJob.hasMinerSignature then some it.saved else none⟩]
      else
        []

/-- The loop over the hashes. -/
def results (w : Worker k) (it : Iteration) : List Event :=
  if it.valid then (it.nonces.zipIdx.flatMap fun (nonce, lane) => w.compare it lane nonce) else []

theorem one_le_count (w : Worker k) : 1 ≤ w.count.toNat := by
  unfold count reserveCount
  split <;> decide

@[simp] theorem begin_currentJob (w : Worker k) (entropy : k.Entropy) :
    (w.begin entropy).job.currentJob = w.job.currentJob := by
  unfold Worker.begin
  dsimp only
  split <;> rfl

@[simp] theorem next_currentJob (w : Worker k) (entropy : k.Entropy) :
    (w.next entropy).job.currentJob = w.job.currentJob := begin_currentJob w entropy

@[simp] theorem next_hash_zero (w : Worker k) (entropy : k.Entropy) :
    (w.next entropy).hash 0 = k.finish w.vm := by simp [next]

theorem next_work (w : Worker k) (entropy : k.Entropy) (lane : Nat) (nonce : UInt32) :
    (w.next entropy).work lane nonce = w.work lane nonce := by
  simp only [work, next_currentJob]
  rfl

end Worker

/-- A step that writes no static member. -/
def quiet (env : Environment k) (worker : Worker k) (events : List Event := []) : Effect k :=
  ⟨worker, env.shared, events⟩

/-- The body of the inner loop after `nextRound` has returned true. -/
def finish (env : Environment k) (shared : Nonce.Shared) (w : Worker k) (it : Iteration) :
    Effect k :=
  let job := w.job.currentJob
  if job.algorithm.isRandomX then
    let it := if job.hasMinerSignature then { it with saved := w.job.signature } else it
    let next := w.next (env.entropy 1)
    ⟨{ next with pc := .iterate, batch := w.batch + 1 }, shared,
      (it.nonces.take 1).map (fun nonce => .hashed (w.work 0 nonce) (next.hash 0)) ++
        next.results it⟩
  else
    ⟨{ w with pc := .iterate, batch := w.batch + 1 }, shared, w.results it⟩

theorem finish_pc (env : Environment k) (shared : Nonce.Shared) (w : Worker k) (it : Iteration) :
    (finish env shared w it).worker.pc = .iterate := by
  unfold finish
  dsimp only
  split <;> rfl

/-- The hashing before `nextRound`. -/
def compute (data : CpuLaunchData) (env : Environment k) (w : Worker k) (it : Iteration) :
    Worker k × List Event :=
  if w.job.currentJob.algorithm.isRandomX then
    if w.first then
      let begun := w.begin (env.entropy 0)
      (begun, (it.nonces.take 1).map fun nonce => .started (w.work 0 nonce) (begun.job.bytes 0))
    else
      (w, [])
  else if it.valid then
    let hashed := w.hashAll data.width
    (hashed, it.nonces.zipIdx.map fun (nonce, lane) => .hashed (w.work lane nonce) (hashed.hash lane))
  else
    (w, [])

/-- `nextRound` up to its first access, and the rest of the body when it makes none. -/
def startRound (data : CpuLaunchData) (env : Environment k) (w : Worker k) (it : Iteration) :
    Effect k :=
  let w := { w with job := w.job.countRound }
  if w.job.roundOver w.count then quiet env { w with pc := .nextRound 0 .enter it }
  else finish env env.shared { w with job := w.job.bump 1 data.width } it

/-- The body of the inner loop from the reading of the nonces on. -/
def body (data : CpuLaunchData) (env : Environment k) (w : Worker k) : Effect k :=
  let job := w.job.currentJob
  let it : Iteration :=
    ⟨(List.range data.width).map w.job.nonce, !job.algorithm.isGhostrider || data.width == 8,
      env.stack⟩
  if w.benchSize != 0 && decide (w.benchSize ≤ w.job.nonce 0) then
    quiet env { w with pc := .returned } [.benchDone]
  else
    let mixed := if w.benchSize != 0 && data.threads == 1 then
        { w with job := w.job.mix env.benchData }
      else
        w
    let (hashed, events) := compute data env mixed it
    let effect := startRound data env hashed it
    { effect with events := events ++ effect.events }

/-- The head of the inner loop. -/
def iterate (data : CpuLaunchData) (env : Environment k) (w : Worker k) : Effect k :=
  if env.shared.isOutdated .cpu w.job.sequence then quiet env { w with pc := .leave }
  else if w.job.currentJob.algorithm.l3 ≠ data.algorithm.l3 then quiet env { w with pc := .leave }
  else body data env w

/-- A reservation is on record from its `fetch_add` on. -/
def reservation (w : Worker k) : Nonce.Pc → List Event
  | .pause _ _ => []
  | _ => [.reserved w.job.index w.job.currentJob.blob]

/-- An access of a call that `save` makes. -/
def saveStep (data : CpuLaunchData) (env : Environment k) (w : Worker k) (lane : Nat)
    (call : Nonce.Pc) (resume : Resume) : Option (Effect k) :=
  (call.step (w.job.args w.count) env.shared).map fun (shared, call') =>
    ⟨match call' with
      | .done result => w.saved data.width lane resume result
      | _ => { w with pc := .save lane call' resume },
    shared, reservation w call⟩

/-- `nextRound` after a call for a lane has returned true. -/
def advance (data : CpuLaunchData) (env : Environment k) (shared : Nonce.Shared) (w : Worker k)
    (lane : Nat) (counter : UInt64) (it : Iteration) : Effect k :=
  let stored := w.job.storeNonce lane counter
  let w := { w with job := if data.width = 1 then stored.syncNonce else stored }
  if lane + 1 < data.width then ⟨{ w with pc := .nextRound (lane + 1) .enter it }, shared, []⟩
  else finish env shared w it

/-- An access of a call that `nextRound` makes. -/
def nextRoundStep (data : CpuLaunchData) (env : Environment k) (w : Worker k) (lane : Nat)
    (call : Nonce.Pc) (it : Iteration) : Option (Effect k) :=
  (call.step (w.job.args w.count) env.shared).map fun (shared, call') =>
    let effect : Effect k := match call' with
      | .done none =>
        ⟨{ w.grant w.job.index false with pc := .leave }, shared, [.done w.job.currentJob]⟩
      | .done (some counter) => advance data env shared w lane counter it
      | _ => ⟨{ w with pc := .nextRound lane call' it }, shared, []⟩
    { effect with events := reservation w call ++ effect.events }

def step (data : CpuLaunchData) (env : Environment k) (w : Worker k) : Option (Effect k) :=
  let stopped := env.shared.sequence .cpu == 0
  let goto (pc : Pc) := some (quiet env { w with pc })
  match w.pc with
  | .running => goto (if stopped then .returned else .pausedTest)
  | .pausedTest =>
    if env.shared.paused then goto .sleeping else some (quiet env (w.resume .inner))
  | .sleeping => goto (if env.shared.paused then .sleepingTest else .woken)
  | .sleepingTest => goto (if stopped then .woken else .sleeping)
  | .woken => goto (if stopped then .returned else .consume .inner)
  | .consume resume =>
    if stopped then some (quiet env (w.resume resume)) else goto (.load resume)
  | .load resume =>
    some (quiet env { w with pc := .add env.job resume, benchSize := env.job.benchSize })
  | .add job resume => some (quiet env (w.add job (env.shared.sequence .cpu) resume))
  | .save lane call resume => saveStep data env w lane call resume
  | .iterate => some (iterate data env w)
  | .nextRound lane call it => nextRoundStep data env w lane call it
  | .leave => goto (if env.shared.paused then .running else .consume .outer)
  | .returned => none

/-- The inner loop goes on with its body. -/
def Enters (data : CpuLaunchData) (env : Environment k) (w : Worker k) : Prop :=
  w.pc = .iterate ∧ env.shared.isOutdated .cpu w.job.sequence = false ∧
    w.job.currentJob.algorithm.l3 = data.algorithm.l3

instance (data : CpuLaunchData) (env : Environment k) (w : Worker k) :
    Decidable (Enters data env w) := by
  unfold Enters; infer_instance

/-- A worker as its self test leaves it, which hashes in the blob and in the hash buffer. -/
def launch (blob : Memory) (hash : Nat → Hash) (vm : k.Vm) : Worker k :=
  { job := { blobs := ![blob, fun _ => 0] }, hash, vm }

/-- Nothing is paused, and the stack is full of ones. -/
def unpaused (job : Job) : Environment zeros where
  shared := { paused := false }
  job := job
  benchData := 0
  stack := Vector.replicate 64 1
  entropy := fun _ => ()

/-- A worker and what it has done so far. -/
structure History (k : Primitives) where
  worker : Worker k
  events : List Event := []

/-- Alone among steps of others, of which it sees what they leave behind. -/
def History.step (data : CpuLaunchData) (h : History k) (env : Environment k) :
    Option (History k) :=
  (CpuWorker.step data env h.worker).map fun effect =>
    ⟨effect.worker, h.events ++ effect.events⟩

end CpuWorker

end VeloxHash
