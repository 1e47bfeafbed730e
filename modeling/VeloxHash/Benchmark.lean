import VeloxHash.CpuWorker

/-! The CPU workers of a benchmark with `BenchState`, cut at every access to what they share.
The job is the benchmark's all the time, so that a hash depends on its nonce alone. -/

namespace VeloxHash.Benchmark

open TransitionSystem CpuWorker

/-- `word` is bytes 24 to 31 of the hash for a nonce. RandomX hashes one lane at a time, and no
worker starts on GhostRider with other than eight. -/
structure Setup where
  threads : Nat
  lanes : Nat
  randomX : Bool
  size : UInt32
  word : UInt32 → UInt64
  one_lt_threads : 1 < threads
  lanes_pos : 0 < lanes
  lanes_randomX : randomX = true → lanes = 1
  size_ne : size ≠ 0

/-- `Nonce::next` is called for single nonces of four bytes. -/
def args : Nonce.Args := ⟨0, reserveCount 1, 0xFFFFFFFF⟩

inductive Pc
  | running
  | pausedTest
  | sleeping
  | sleepingTest
  | woken
  | consume (resume : Resume)
  | add (resume : Resume)
  | save (lane : Nat) (call : Nonce.Pc) (resume : Resume)
  | iterate
  | nextRound (lane : Nat) (call : Nonce.Pc)
  | addResult (lane : Nat)
  | leave
  | done
  | finished
  | returned
  deriving DecidableEq

/-- `nonces` are those in the blobs of the lanes, `current` is `current_job_nonces`, and `begun`
the nonce of the hash that `tempHash` stands for. -/
structure Worker where
  pc : Pc := .running
  saved : Bool := false
  sequence : UInt64 := 0
  nonces : List UInt32
  current : List UInt32 := []
  first : Bool := true
  begun : UInt32 := 0
  hash : List UInt64 := []

/-- The static members of `Nonce` and `BenchState`; `reported` is the call of `async->send()`.
The ghost `counted` lists the nonces whose words were added. -/
structure Shared where
  nonce : Nonce.Shared := {}
  data : UInt64 := 0
  remaining : UInt32 := 0
  started : Bool := false
  reported : Bool := false
  counted : List UInt32 := []

structure State (x : Setup) where
  shared : Shared := {}
  workers : Fin x.threads → Worker

namespace Shared

/-- `BenchState::add`. -/
def add (g : Shared) (nonce : UInt32) (value : UInt64) : Shared :=
  { g with data := g.data ^^^ value, counted := nonce :: g.counted }

/-- `BenchState::done`. -/
def done (g : Shared) : Shared :=
  { g with remaining := g.remaining - 1, reported := g.reported || g.remaining - 1 == 0 }

/-- `BenchState::start`. -/
def start (x : Setup) (g : Shared) : Shared :=
  { g with started := true, remaining := UInt32.ofNat x.threads }

/-- The nonces that were fetched so far. -/
def counter (g : Shared) : Nat := (g.nonce.nonces 0).toNat

end Shared

namespace Worker

variable (x : Setup) (w : Worker)

def resume : Resume → Worker
  | .inner => { w with pc := .iterate, first := true }
  | .outer => { w with pc := .running }

/-- The write of a `Nonce::next` that returns true. -/
def store (lane : Nat) (counter : UInt64) : Worker :=
  let words := Nonce.write (Nonce.effectiveMask args.mask) counter ⟨w.nonces.getD lane 0, 0⟩
  { w with nonces := w.nonces.set lane words.lo }

/-- The loop of `save`, which ignores what `Nonce::next` returns. -/
def saveLane (lane : Nat) (resume : Resume) (result : Option UInt64) : Worker :=
  let w := match result with
    | some counter => w.store lane counter
    | none => w
  if lane + 1 < x.lanes then { w with pc := .save (lane + 1) .enter resume } else w.resume resume

/-- The inner loop from the reading of the nonces to `nextRound`. -/
def hashAll : Worker :=
  if x.randomX then
    { w with
      pc := .nextRound 0 .enter
      current := w.nonces
      first := false
      begun := if w.first then w.nonces.headD 0 else w.begun }
  else
    { w with pc := .nextRound 0 .enter, current := w.nonces, hash := w.nonces.map x.word }

/-- From a `nextRound` that returns true to the loop over the hashes. -/
def hashNext : Worker :=
  if x.randomX then
    { w with pc := .addResult 0, hash := [x.word w.begun], begun := w.nonces.headD 0 }
  else
    { w with pc := .addResult 0 }

/-- The loop of `nextRound`. -/
def roundLane (lane : Nat) : Option UInt64 → Worker
  | none => { w with pc := .leave }
  | some counter =>
    let w := w.store lane counter
    if lane + 1 < x.lanes then { w with pc := .nextRound (lane + 1) .enter } else w.hashNext x

/-- A job of other memory, as the default one, ends the inner loop as an outdated one does. -/
def iterate (g : Shared) : Worker :=
  if g.nonce.isOutdated .cpu w.sequence || !w.saved then { w with pc := .leave }
  else if x.size ≤ w.nonces.headD 0 then { w with pc := .done }
  else w.hashAll x

/-- The body of the loop over the hashes. -/
def addResult (g : Shared) (lane : Nat) : Shared × Worker :=
  let nonce := w.current.getD lane 0
  (if nonce < x.size then g.add nonce (w.hash.getD lane 0) else g,
    { w with pc := if lane + 1 < x.lanes then .addResult (lane + 1) else .iterate })

def step (g : Shared) : Option (Shared × Worker) :=
  let stopped := g.nonce.sequence .cpu == 0
  let goto (pc : Pc) := some (g, { w with pc })
  match w.pc with
  | .running => goto (if stopped then .returned else .pausedTest)
  | .pausedTest => if g.nonce.paused then goto .sleeping else some (g, w.resume .inner)
  | .sleeping => goto (if g.nonce.paused then .sleepingTest else .woken)
  | .sleepingTest => goto (if stopped then .woken else .sleeping)
  | .woken => goto (if stopped then .returned else .consume .inner)
  | .consume resume => if stopped then some (g, w.resume resume) else goto (.add resume)
  | .add resume =>
    let w := { w with sequence := g.nonce.sequence .cpu }
    some (g, if w.saved then w.resume resume
      else { w with saved := true, pc := .save 0 .enter resume })
  | .save lane call resume =>
    (call.step args g.nonce).map fun (nonce, call') =>
      ({ g with nonce }, match call' with
        | .done result => w.saveLane x lane resume result
        | _ => { w with pc := .save lane call' resume })
  | .iterate => some (g, w.iterate x g)
  | .nextRound lane call =>
    (call.step args g.nonce).map fun (nonce, call') =>
      ({ g with nonce }, match call' with
        | .done result => w.roundLane x lane result
        | _ => { w with pc := .nextRound lane call' })
  | .addResult lane => some (w.addResult x g lane)
  | .leave => goto (if g.nonce.paused then .running else .consume .outer)
  | .done => some (g.done, { w with pc := .finished })
  | .finished | .returned => none

end Worker

/-- What the main thread does meanwhile: `BenchState::start` once the threads are created, and
the writes of `Nonce` that stop nothing for good or everything. -/
inductive Event (x : Setup)
  | worker (i : Fin x.threads)
  | start
  | pause (paused : Bool)
  | touch
  | stop

variable {x : Setup}

def step (s : State x) : Event x → Option (State x)
  | .worker i => ((s.workers i).step x s.shared).map fun (shared, w) =>
    ⟨shared, Function.update s.workers i w⟩
  | .start => if s.shared.started then none else some { s with shared := s.shared.start x }
  | .pause paused =>
    some { s with shared := { s.shared with nonce := s.shared.nonce.pause paused } }
  | .touch => some { s with shared := { s.shared with nonce := s.shared.nonce.touch } }
  | .stop => some { s with shared := { s.shared with nonce := s.shared.nonce.stop } }

/-- The workers before their first access. -/
def init (x : Setup) : State x where
  workers := fun _ => { nonces := List.replicate x.lanes 0 }

end VeloxHash.Benchmark
