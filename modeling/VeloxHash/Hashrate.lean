import Mathlib.Data.List.TakeWhile
import Mathlib.Data.UInt
import VeloxHash.RingBuffer

/-! The rates that `Hashrate` reads off the ring of each thread. -/

namespace VeloxHash.Hashrate

structure Sample where
  count : UInt64
  time : UInt64
  deriving DecidableEq

def kBucketSize : Nat := 2 <<< 11

/-- `m_counts`, `m_timestamps` and `m_top` of one thread. -/
abbrev Thread := RingBuffer Sample (kBucketSize - 1)

def create (threads : Nat) : List Thread := List.replicate (threads + 1) (.empty _ ⟨0, 0⟩)

def addData (threads : List Thread) (index : Nat) (sample : Sample) : List Thread :=
  threads.modify index (·.push sample)

/-- The walk back stops at the first sample before the limit. -/
def scan (thread : Thread) (limit : UInt64) : Bool × Sample :=
  match thread.walk (fun s => s.time < limit) (thread.top - 1) (thread.top - 1) with
  | none => (false, ⟨0, 0⟩)
  | some (s, passed) => (s.time ≠ 0, passed.getD ⟨0, 0⟩)

def run (threads : Nat) (calls : List (Nat × Sample)) : List Thread :=
  calls.foldl (fun threads call => addData threads call.1 call.2) (create threads)

/-- What has been added to one thread. -/
def history (index : Nat) (calls : List (Nat × Sample)) : List Sample :=
  calls.filterMap fun call => if call.1 = index then some call.2 else none

/-- The samples that are still in the ring. -/
def stored (history : List Sample) : List Sample := history.drop (history.length - kBucketSize)

def inside (limit : UInt64) (samples : List Sample) : List Sample :=
  samples.filter fun s => limit ≤ s.time

section Window

variable {limit : UInt64} {newestFirst : List Sample} {zeros : Nat}

end Window

end VeloxHash.Hashrate
