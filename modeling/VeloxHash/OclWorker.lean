import VeloxHash.JobChange
import VeloxHash.WideNonce

/-! `OclWorker::start` access by access. What the kernel finds is submitted elsewhere; here is
only which nonces it is given. -/

namespace VeloxHash.OclWorker

open CodeBuffer Splice

/-- A call of `runner->run`: its first argument, and the blob that `runner->set` was given. The
ghosts are the job the blob was copied from, and the counter that the nonce was made of since the
last call. -/
structure Batch where
  job : Job
  blob : List UInt8
  nonce : UInt32
  intensity : UInt32
  counter : Option UInt64
  deriving DecidableEq

inductive Event
  | consumed
  | failed
  | batch (b : Batch)
  deriving DecidableEq

/-- Where a thread stands. A flag says whether `consumeJob` was called after a pause. -/
inductive Pc
  | loop
  | ready
  | sleep
  | woken
  | consume (afterPause : Bool)
  | sequence (afterPause : Bool)
  | add (afterPause : Bool)
  | save (afterPause : Bool) (call : Nonce.Pc)
  | set (afterPause : Bool)
  | test
  | run
  | check
  | next (call : Nonce.Pc)
  | again
  | finished
  deriving DecidableEq

structure Worker where
  pc : Pc := .loop
  job : WorkerJob := {}
  /-- The jobs that the blobs were copied from. -/
  origin : Fin 2 → Job := fun _ => {}
  /-- The counters that the nonces in the blobs were made of, up to the next `run`. -/
  drawn : Fin 2 → Option UInt64 := fun _ => none

/-- What a thread finds: the static members of `Nonce`, the job of the miner, `OclWorker::ready`,
and whether the runner throws. -/
structure Environment where
  shared : Nonce.Shared
  job : Job
  ready : Bool
  throws : Bool

def Environment.isReady (env : Environment) : Bool := !env.shared.paused && env.ready

def Environment.stopped (env : Environment) : Bool := env.shared.sequence .opencl == 0

structure Effect where
  shared : Nonce.Shared
  worker : Worker
  events : List Event := []

namespace Worker

def goto (w : Worker) (env : Environment) (pc : Pc) : Effect := ⟨env.shared, { w with pc }, []⟩

def isOutdated (w : Worker) (env : Environment) : Bool :=
  env.shared.isOutdated .opencl w.job.sequence

/-- The nonce that was stored is not used yet. -/
def draw (w : Worker) (caller : WideNonce.Caller) (result : Option UInt64) : Worker :=
  { w with
    job := WideNonce.finish w.job caller result
    drawn := match result with
      | some counter => Function.update w.drawn w.job.index (some counter)
      | none => w.drawn }

/-- `m_job.add` behind its first line. -/
def add (w : Worker) (env : Environment) (afterPause : Bool) : Effect :=
  match w.job.keep env.job with
  | some job =>
    { shared := env.shared
      worker := { w with job, pc := .set afterPause }
      events := if job.index = w.job.index then [] else [.consumed] }
  | none =>
    { shared := env.shared
      worker :=
        { job := WideNonce.save w.job env.job .opencl
          pc := .save afterPause .enter
          origin := Function.update w.origin env.job.index env.job
          drawn := Function.update w.drawn env.job.index none }
      events := [.consumed] }

/-- The next access of a call of `Nonce::next`. -/
def access (w : Worker) (env : Environment) (intensity : UInt32) (call : Nonce.Pc)
    (caller : WideNonce.Caller) (within : Nonce.Pc → Pc) (behind : Pc) : Option Effect :=
  (call.step (w.job.args intensity) env.shared).map fun (shared, call) =>
    match call with
    | .done result =>
      { shared
        worker := { w.draw caller result with pc := behind }
        events := if caller = .nextRound ∧ result = none then [.failed] else [] }
    | call => { shared, worker := { w with pc := within call } }

def batch (w : Worker) (intensity : UInt32) : Batch where
  job := w.origin w.job.index
  blob := w.job.bytes 0
  nonce := w.job.nonce 0
  intensity := intensity
  counter := w.drawn w.job.index

/-- `nextRound(1, intensity())` up to its call of `Nonce::next`. -/
def nextRound (w : Worker) (env : Environment) (intensity : UInt32) : Effect :=
  let job := w.job.countRound
  if job.roundOver 1 then { w with job }.goto env (.next .enter)
  else { w with job := job.bump intensity 1 }.goto env .test

end Worker

def step (intensity : UInt32) (env : Environment) (w : Worker) : Option Effect :=
  match w.pc with
  | .loop => some (w.goto env (if env.stopped then .finished else .ready))
  | .ready => some (w.goto env (if env.isReady then .test else .sleep))
  | .sleep => some (w.goto env (if env.isReady || env.stopped then .woken else .sleep))
  | .woken => some (w.goto env (if env.stopped then .finished else .consume true))
  | .consume afterPause =>
    some (w.goto env (if env.stopped then .finished else .sequence afterPause))
  | .sequence afterPause =>
    let job := { w.job with sequence := env.shared.sequence .opencl }
    some ({ w with job }.goto env (.add afterPause))
  | .add afterPause => some (w.add env afterPause)
  | .save afterPause call =>
    w.access env intensity call .save (.save afterPause) (.set afterPause)
  | .set afterPause =>
    some (w.goto env (if env.throws then .finished else if afterPause then .test else .loop))
  | .test => some (w.goto env (if w.isOutdated env then .again else .run))
  | .run =>
    some
      { shared := env.shared
        worker :=
          { w with
            pc := if env.throws then .finished else .check
            drawn := Function.update w.drawn w.job.index none }
        events := [.batch (w.batch intensity)] }
  | .check =>
    some (if w.isOutdated env then w.goto env .test else w.nextRound env intensity)
  | .next call => w.access env intensity call .nextRound .next .test
  | .again => some (w.goto env (if env.isReady then .consume false else .loop))
  | .finished => none

end VeloxHash.OclWorker
