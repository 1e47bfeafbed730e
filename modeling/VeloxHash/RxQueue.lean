import VeloxHash.Algorithm
import VeloxHash.TransitionSystem

/-! `RxQueue`: requests for a dataset, and the background thread that serves them. A step
is a critical section of `m_mutex`, or what a thread does while it does not hold it. The
ghost lists hold the seeds of all requests and of all completed inits, newest first. -/

namespace VeloxHash

structure RxSeed where
  algorithm : Algorithm := .invalid
  data : List UInt8 := []
  deriving DecidableEq, Repr

inductive RxConfig.Mode
  | auto
  | fast
  | light
  deriving DecidableEq, Repr

structure RxQueueItem where
  hugePages : Bool
  oneGbPages : Bool
  priority : Int
  mode : RxConfig.Mode
  seed : RxSeed
  nodeset : List UInt32
  threads : UInt32
  deriving DecidableEq, Repr

/-- `IRxStorage` as the queue uses it; an `Outcome` is what the system decides in one init. -/
structure IRxStorage (Storage Dataset Outcome : Type*) where
  create : List UInt32 → Storage
  isAllocated : Storage → Bool
  dataset : Storage → RxSeed → UInt32 → Option Dataset
  init : Storage → RxQueueItem → Outcome → Storage

namespace RxQueue

open TransitionSystem

variable {Storage Dataset Outcome : Type*}

inductive State
  | idle
  | pending
  | shutdown
  deriving DecidableEq, Repr

/-- Where the background thread stands in `backgroundInit`. -/
inductive Background
  | test
  | lock
  | wait
  | woken
  | init (item : RxQueueItem)
  | publish (item : RxQueueItem)
  | exit
  deriving DecidableEq, Repr

structure Queue (Storage : Type*) where
  storage : Option Storage := none
  seed : RxSeed := {}
  state : State := .idle
  queue : List RxQueueItem := []
  background : Background := .test
  async : Bool := false
  unnotified : Nat := 0
  enqueued : List RxSeed := []
  completed : List RxSeed := []

inductive Event (Outcome : Type*)
  | enqueue (item : RxQueueItem)
  | shutdown
  | notify
  | spurious
  | background (outcome : Outcome)
  | onReady

namespace Queue

def isReady (q : Queue Storage) (ops : IRxStorage Storage Dataset Outcome) (seed : RxSeed) :
    Bool :=
  match q.storage with
  | none => false
  | some storage => ops.isAllocated storage && q.state == .idle && q.seed == seed

def dataset (q : Queue Storage) (ops : IRxStorage Storage Dataset Outcome) (seed : RxSeed)
    (nodeId : UInt32) : Option Dataset :=
  if q.isReady ops seed then q.storage.bind fun storage => ops.dataset storage seed nodeId
  else none

/-- `enqueue` up to `lock.unlock()`; its `notify_one` is a step of its own. -/
def enqueue (q : Queue Storage) (ops : IRxStorage Storage Dataset Outcome)
    (item : RxQueueItem) : Queue Storage :=
  let storage := some (q.storage.getD (ops.create item.nodeset))
  let enqueued := item.seed :: q.enqueued
  if q.state = .pending ∧ q.seed = item.seed then
    { q with storage, enqueued }
  else
    { q with
      storage, enqueued
      queue := q.queue ++ [item]
      seed := item.seed
      state := .pending
      unnotified := q.unnotified + 1 }

def shutdown (q : Queue Storage) : Queue Storage :=
  { q with state := .shutdown, unnotified := q.unnotified + 1 }

/-- `m_cv.notify_one()`. -/
def notify (q : Queue Storage) : Queue Storage :=
  { q with
    unnotified := q.unnotified - 1
    background := if q.background = .wait then .woken else q.background }

/-- From the test for `STATE_PENDING` to `lock.unlock()`. -/
def take (q : Queue Storage) : Option (Queue Storage) :=
  if q.state = .pending then
    q.queue.getLast?.map fun item => { q with queue := [], background := .init item }
  else
    some { q with background := .test }

/-- The critical section after `m_storage->init(...)`. -/
def publish (q : Queue Storage) (item : RxQueueItem) : Queue Storage :=
  if q.state = .shutdown ∨ q.queue ≠ [] then
    { q with background := .test }
  else
    { q with seed := item.seed, state := .idle, async := true, background := .test }

def complete (q : Queue Storage) (item : RxQueueItem) (storage : Storage) : Queue Storage :=
  { q with
    storage := some storage
    completed := item.seed :: q.completed
    background := .publish item }

/-- One step of `backgroundInit`. `none`: the thread is blocked, has returned, or would
read the back of an empty queue or call a storage that is not there. -/
def backgroundInit (q : Queue Storage) (ops : IRxStorage Storage Dataset Outcome)
    (outcome : Outcome) : Option (Queue Storage) :=
  match q.background with
  | .test => some { q with background := if q.state = .shutdown then .exit else .lock }
  | .lock | .woken => if q.state = .idle then some { q with background := .wait } else q.take
  | .wait | .exit => none
  | .init item => q.storage.map fun storage => q.complete item (ops.init storage item outcome)
  | .publish item => some (q.publish item)

/-- The item whose init has begun and is not yet published or dropped. -/
def inFlight (q : Queue Storage) : Option RxQueueItem :=
  match q.background with
  | .init item | .publish item => some item
  | _ => none

def initInProgress (q : Queue Storage) : Prop := ∃ item, q.background = .init item

end Queue

/-- No request is made of a queue under destruction. -/
def step (ops : IRxStorage Storage Dataset Outcome) (q : Queue Storage) :
    Event Outcome → Option (Queue Storage)
  | .enqueue item => if q.state = .shutdown then none else some (q.enqueue ops item)
  | .shutdown => some q.shutdown
  | .notify => if q.unnotified = 0 then none else some q.notify
  | .spurious => if q.background = .wait then some { q with background := .woken } else none
  | .background outcome => q.backgroundInit ops outcome
  | .onReady => if q.async then some { q with async := false } else none

end RxQueue

end VeloxHash
