import VeloxHash.Job
import VeloxHash.TransitionSystem

/-! The main thread of the `Miner` where it decides about jobs: `setJob`, `pause`,
`setEnabled`, `onDatasetReady` and `handleJobChange`, cut at their accesses to the static
members of `Nonce` and to the job that the workers read. What the dataset and the battery
say comes with the events. -/

namespace VeloxHash.JobChange

open Nonce

/-- Where the main thread stands in one of its functions. -/
inductive Pc
  | idle
  | interrupt (job : Job) (donate : Bool)
  | publish (job : Job) (donate : Bool)
  | change
  | reset
  | backends
  | touch
  | unpause
  | silence
  deriving DecidableEq

structure Miner where
  pc : Pc := .idle
  algorithm : Algorithm := .invalid
  active : Bool := false
  enabled : Bool := true
  reset : Bool := true
  job : Job := {}
  userJobId : String := ""

inductive Event
  | setJob (job : Job) (donate isReady : Bool)
  | pause
  | setEnabled (enabled onBattery : Bool)
  | datasetReady (isReady : Bool)
  | stop
  | proceed (ready : Bool)
  | backend (stop : Bool) (backend : Backend)
  deriving DecidableEq

namespace Miner

/-- `setJob` up to its critical section. -/
def setJob (m : Miner) (g : Shared) (job : Job) (donate isReady : Bool) : Miner × Shared :=
  if job.algorithm.isRandomX && !isReady then
    if m.algorithm ≠ job.algorithm then ({ m with pc := .publish job donate }, g.stop)
    else ({ m with pc := .interrupt job donate }, g.pause true)
  else
    ({ m with pc := .publish job donate }, g)

/-- The critical section of `setJob`, with the result of `initRX`. -/
def publish (m : Miner) (job : Job) (donate initRX : Bool) : Miner :=
  let index : Fin 2 := if donate then 1 else 0
  let ready := !job.algorithm.isRandomX || initRX
  let reset := !(m.job.index == 1 && index == 0 && m.userJobId == job.id)
  { m with
    pc := if ready then .change else .idle
    algorithm := job.algorithm
    active := true
    reset := (if m.job.isEqualBlob job then false else reset) || !ready
    job := job.setIndex index
    userJobId := if index = 0 then job.id else m.userJobId }

def setEnabled (m : Miner) (g : Shared) (enabled onBattery : Bool) : Miner × Shared :=
  if m.enabled = enabled then (m, g)
  else if onBattery && enabled then (m, g)
  else if !m.active then ({ m with enabled }, g)
  else ({ m with enabled, pc := .silence }, g.pause !enabled)

/-- The next access of the function the main thread is in. -/
def proceed (m : Miner) (g : Shared) (ready : Bool) : Option (Miner × Shared) :=
  match m.pc with
  | .idle => none
  | .interrupt job donate => some ({ m with pc := .publish job donate }, g.touch)
  | .publish job donate => some (m.publish job donate ready, g)
  | .change => some ({ m with pc := .reset }, if m.enabled then g else g.pause true)
  | .reset => some ({ m with pc := .backends }, if m.reset then g.reset m.job.index else g)
  | .backends => some ({ m with pc := .touch }, g)
  | .touch => some ({ m with pc := .unpause }, g.touch)
  | .unpause =>
    some ({ m with pc := .idle }, if m.active && m.enabled then g.pause false else g)
  | .silence => some ({ m with pc := .idle }, g.touch)

/-- The backends stop and start their workers, at `setJob` as well as on their own. -/
def step (m : Miner) (g : Shared) : Event → Option (Miner × Shared)
  | .setJob job donate isReady =>
    if m.pc = .idle then some (m.setJob g job donate isReady) else none
  | .pause =>
    if m.pc = .idle then some ({ m with active := false, pc := .silence }, g.pause true) else none
  | .setEnabled enabled onBattery =>
    if m.pc = .idle then some (m.setEnabled g enabled onBattery) else none
  | .datasetReady isReady =>
    if m.pc = .idle then some (if isReady then { m with pc := .change } else m, g) else none
  | .stop => if m.pc = .idle then some (m, g.stop) else none
  | .proceed ready => m.proceed g ready
  | .backend stop backend =>
    some (m, if stop then g.stopBackend backend else g.touchBackend backend)

end Miner

/-- The counter that a step sets to zero. -/
def Miner.resets (m : Miner) : Event → Option (Fin 2)
  | .proceed _ => if m.pc = .reset ∧ m.reset = true then some m.job.index else none
  | _ => none

/-- The job on its way to the workers. -/
def Pc.job : Pc → Option Job
  | .interrupt job _ => some job
  | .publish job _ => some job
  | _ => none

variable {m m' : Miner} {g g' : Shared} {e : Event}

/-- The counters change by resets only. -/
theorem step_nonces (h : m.step g e = some (m', g')) :
    g'.nonces = match m.resets e with
      | some index => (g.reset index).nonces
      | none => g.nonces := by
  cases e with
  | proceed ready =>
    simp only [Miner.step, Miner.proceed] at h
    simp only [Miner.resets]
    cases hpc : m.pc <;> simp only [hpc] at h
    case idle => cases h
    case reset =>
      cases h
      cases hreset : m.reset <;> rfl
    case change =>
      cases h
      cases m.enabled <;> rfl
    case unpause =>
      cases h
      cases m.active <;> cases m.enabled <;> rfl
    all_goals
      cases h
      rfl
  | setJob job donate isReady =>
    obtain ⟨-, h⟩ := Option.ite_none_right_eq_some.mp h
    simp only [Miner.setJob] at h
    split_ifs at h <;> cases h <;> rfl
  | setEnabled enabled onBattery =>
    obtain ⟨-, h⟩ := Option.ite_none_right_eq_some.mp h
    simp only [Miner.setEnabled] at h
    split_ifs at h <;> cases h <;> rfl
  | backend stop backend => cases stop <;> cases h <;> rfl
  | pause | datasetReady | stop =>
    obtain ⟨-, h⟩ := Option.ite_none_right_eq_some.mp h
    cases h
    rfl

/-- Where the job of the miner comes from, and the one on its way to it. -/
theorem step_job (h : m.step g e = some (m', g')) :
    (m'.job = m.job ∨ ∃ job index, m.pc.job = some job ∧ m'.job = job.setIndex index) ∧
      ∀ job, m'.pc.job = some job →
        m.pc.job = some job ∨ ∃ donate isReady, e = .setJob job donate isReady := by
  cases e with
  | proceed ready =>
    simp only [Miner.step, Miner.proceed] at h
    cases hpc : m.pc <;> simp only [hpc] at h
    case idle => cases h
    case publish job donate =>
      cases h
      refine ⟨.inr ⟨job, _, rfl, rfl⟩, fun job' hjob' => ?_⟩
      simp only [Miner.publish] at hjob'
      split at hjob' <;> cases hjob'
    case interrupt job donate =>
      cases h
      exact ⟨.inl rfl, fun _ hjob' => .inl hjob'⟩
    all_goals
      cases h
      exact ⟨.inl rfl, fun _ hjob' => absurd hjob' (Option.some_ne_none _).symm⟩
  | setJob job donate isReady =>
    obtain ⟨-, h⟩ := Option.ite_none_right_eq_some.mp h
    simp only [Miner.setJob] at h
    split_ifs at h <;> cases h <;>
      exact ⟨.inl rfl, fun _ hjob' => .inr ⟨donate, isReady, by cases hjob'; rfl⟩⟩
  | setEnabled enabled onBattery =>
    obtain ⟨-, h⟩ := Option.ite_none_right_eq_some.mp h
    simp only [Miner.setEnabled] at h
    split_ifs at h <;> cases h
    case neg => exact ⟨.inl rfl, fun _ hjob' => absurd hjob' (Option.some_ne_none _).symm⟩
    all_goals exact ⟨.inl rfl, fun _ hjob' => .inl hjob'⟩
  | backend stop backend =>
    cases h
    exact ⟨.inl rfl, fun _ hjob' => .inl hjob'⟩
  | pause =>
    obtain ⟨-, h⟩ := Option.ite_none_right_eq_some.mp h
    cases h
    exact ⟨.inl rfl, fun _ hjob' => absurd hjob' (Option.some_ne_none _).symm⟩
  | datasetReady isReady =>
    obtain ⟨-, h⟩ := Option.ite_none_right_eq_some.mp h
    cases isReady <;> cases h
    · exact ⟨.inl rfl, fun _ hjob' => .inl hjob'⟩
    · exact ⟨.inl rfl, fun _ hjob' => absurd hjob' (Option.some_ne_none _).symm⟩
  | stop =>
    obtain ⟨-, h⟩ := Option.ite_none_right_eq_some.mp h
    cases h
    exact ⟨.inl rfl, fun _ hjob' => .inl hjob'⟩

end VeloxHash.JobChange
