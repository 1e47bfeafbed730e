import Mathlib.Data.UInt
import VeloxHash.TopList

/-! The totals and the list of the best results in `NetworkState`. -/

namespace VeloxHash

/-- What `NetworkState::add` reads of a result. -/
structure PoolResult where
  diff : UInt64
  actualDiff : UInt64
  elapsed : UInt64

structure NetworkState where
  active : Bool := false
  topDiff : List UInt64 := List.replicate 10 0
  latency : List UInt16 := []
  accepted : UInt64 := 0
  connectionTime : UInt64 := 0
  diff : UInt64 := 0
  failures : UInt64 := 0
  hashes : UInt64 := 0
  rejected : UInt64 := 0
  length_topDiff : topDiff.length = 10 := by rfl

namespace NetworkState

open TopList

instance : Std.Total fun a b : UInt64 => b ≤ a := ⟨fun a b => UInt64.le_total b a⟩

instance : IsTrans UInt64 fun a b => b ≤ a := ⟨fun _ _ _ hab hbc => UInt64.le_trans hbc hab⟩

instance : Std.Antisymm fun a b : UInt64 => b ≤ a :=
  ⟨fun _ _ hab hba => UInt64.le_antisymm hba hab⟩

theorem topDiff_ne_nil (s : NetworkState) : s.topDiff ≠ [] :=
  List.length_pos_iff.mp (by rw [s.length_topDiff]; decide)

/-- `m_topDiff`: the last of the array is replaced, then `std::sort(rbegin, rend)`. -/
def record (s : NetworkState) (actualDiff : UInt64) : List UInt64 :=
  if actualDiff > s.topDiff.getLast s.topDiff_ne_nil then
    (s.topDiff.dropLast ++ [actualDiff]).insertionSort fun a b => b ≤ a
  else s.topDiff

theorem record_eq (s : NetworkState) (actualDiff : UInt64) :
    s.record actualDiff = offer (fun a b => b ≤ a) s.topDiff s.topDiff_ne_nil actualDiff := by
  rw [record, offer]
  by_cases h : actualDiff ≤ s.topDiff.getLast s.topDiff_ne_nil
  · rw [if_pos h, if_neg (UInt64.not_lt.mpr h)]
  · rw [if_neg h, if_pos (UInt64.not_le.mp h)]

def clamp (elapsed : UInt64) : UInt16 := if elapsed > 0xFFFF then 0xFFFF else elapsed.toUInt16

def add (s : NetworkState) (result : PoolResult) (error : Option String) : NetworkState :=
  match error with
  | some _ => { s with rejected := s.rejected + 1 }
  | none =>
    { s with
      accepted := s.accepted + 1
      hashes := s.hashes + result.diff
      topDiff := s.record result.actualDiff
      latency := s.latency ++ [clamp result.elapsed]
      length_topDiff := by rw [record_eq, length_offer, s.length_topDiff] }

def stop (s : NetworkState) : NetworkState :=
  { s with active := false, diff := 0, failures := s.failures + 1, latency := [] }

/-- What the strategy reports. -/
inductive Event
  | active (now : UInt64)
  | job (diff : UInt64)
  | pause (strategyActive : Bool)
  | result (result : PoolResult) (error : Option String)

def step (s : NetworkState) : Event → NetworkState
  | .active now => { s with active := true, connectionTime := now }
  | .job diff => { s with diff := diff }
  | .pause strategyActive => if !strategyActive then s.stop else s
  | .result result error => s.add result error

def run (events : List Event) : NetworkState := events.foldl step {}

/-- The accepted results of a run, in order. -/
def acceptedResults (events : List Event) : List PoolResult :=
  events.filterMap fun
    | .result result none => some result
    | _ => none

def rejectedResults (events : List Event) : List PoolResult :=
  events.filterMap fun
    | .result result (some _) => some result
    | _ => none

def results (events : List Event) : List PoolResult :=
  events.filterMap fun
    | .result result _ => some result
    | _ => none

def sumDiff (results : List PoolResult) : Nat := (results.map fun r => r.diff.toNat).sum

/-- What the state says of the results so far. -/
structure Counts (good bad : List PoolResult) (s : NetworkState) : Prop where
  topDiff : s.topDiff =
    top (fun a b => b ≤ a) 10 (good.map PoolResult.actualDiff ++ List.replicate 10 0)
  accepted : s.accepted = .ofNat good.length
  rejected : s.rejected = .ofNat bad.length
  hashes : s.hashes = .ofNat (sumDiff good)

theorem counts_init : Counts [] [] {} where
  topDiff := by decide
  accepted := rfl
  rejected := rfl
  hashes := rfl

variable {good bad : List PoolResult} {s : NetworkState}

theorem Counts.accept (h : Counts good bad s) (result : PoolResult) :
    Counts (good ++ [result]) bad (s.add result none) where
  topDiff := by
    have hlength : 10 ≤ (good.map PoolResult.actualDiff ++ List.replicate 10 0).length := by simp
    have hmoved : (result.actualDiff ::
          (good.map PoolResult.actualDiff ++ List.replicate 10 0)).Perm
        ((good ++ [result]).map PoolResult.actualDiff ++ List.replicate 10 0) := by
      rw [List.map_append, List.append_assoc]
      exact List.perm_middle.symm
    have hne := s.topDiff_ne_nil
    have hoffer := s.record_eq result.actualDiff
    have htop := h.topDiff
    simp only [add]
    rw [hoffer, ← top_perm _ hmoved]
    simp only [htop] at hne ⊢
    exact offer_top _ hlength hne _
  accepted := by
    rw [List.length_append, UInt64.ofNat_add, ← h.accepted]
    rfl
  rejected := h.rejected
  hashes := by
    rw [sumDiff, List.map_append, List.sum_append, UInt64.ofNat_add, ← sumDiff, ← h.hashes]
    simp only [List.map_cons, List.map_nil, List.sum_singleton, UInt64.ofNat_toNat]
    rfl

theorem Counts.reject (h : Counts good bad s) (result : PoolResult) (error : String) :
    Counts good (bad ++ [result]) (s.add result (some error)) where
  topDiff := h.topDiff
  accepted := h.accepted
  rejected := by
    rw [List.length_append, UInt64.ofNat_add, ← h.rejected]
    rfl
  hashes := h.hashes

/-- The other reports of the strategy leave the totals alone. -/
theorem Counts.step (h : Counts good bad s) (e : Event) :
    Counts (good ++ acceptedResults [e]) (bad ++ rejectedResults [e]) (s.step e) := by
  cases e with
  | result result error =>
    cases error with
    | none => simpa [acceptedResults, rejectedResults, NetworkState.step] using h.accept result
    | some error =>
      simpa [acceptedResults, rejectedResults, NetworkState.step] using h.reject result error
  | active now => simpa [acceptedResults, rejectedResults] using ⟨h.1, h.2, h.3, h.4⟩
  | job diff => simpa [acceptedResults, rejectedResults] using ⟨h.1, h.2, h.3, h.4⟩
  | pause strategyActive =>
    simp only [acceptedResults, rejectedResults, List.filterMap_cons_none, List.filterMap_nil,
      List.append_nil, NetworkState.step]
    split
    · exact ⟨h.1, h.2, h.3, h.4⟩
    · exact h

theorem length_results (events : List Event) :
    (acceptedResults events).length + (rejectedResults events).length = (results events).length := by
  induction events with
  | nil => rfl
  | cons e events ih =>
    simp only [acceptedResults, rejectedResults, results, List.filterMap_cons] at ih ⊢
    cases e with
    | result result error =>
      cases error with
      | none =>
        simp only [List.length_cons]
        omega
      | some error =>
        simp only [List.length_cons]
        omega
    | _ => exact ih

/-- The ten best accepted results, padded with zeros, and the totals, after every run. -/
theorem run_counts (events : List Event) :
    Counts (acceptedResults events) (rejectedResults events) (run events) ∧
      (acceptedResults events).length + (rejectedResults events).length =
        (results events).length := by
  refine ⟨?_, length_results events⟩
  induction events using List.reverseRecOn with
  | nil => exact counts_init
  | append_singleton events e ih =>
    have h := ih.step e
    rw [acceptedResults, rejectedResults, List.filterMap_append, List.filterMap_append,
      run, List.foldl_append]
    exact h

end NetworkState

end VeloxHash
