import VeloxHash.TransitionSystem
import Mathlib.Tactic

/-! `FailoverStrategy` over any number of pools. A handler returns the strategy it leaves
and, in order, what it told its clients and its listener; the history of a run holds these
together with the calls the strategy received. -/

namespace VeloxHash.FailoverStrategy

open TransitionSystem

inductive Command
  | connect
  | disconnect
  | submit
  deriving DecidableEq, Repr

/-- `m_active` is `none` for -1. -/
structure Strategy where
  pools : Nat
  retries : Int
  active : Option Nat := none
  index : Nat := 0
  deriving DecidableEq, Repr

inductive Event
  | connect
  | loginSuccess (client : Nat)
  | close (client : Nat) (failures : Int)
  | jobReceived (client : Nat)
  | submit
  | resume
  | stop
  deriving DecidableEq, Repr

inductive Observation
  | received (e : Event)
  | command (client : Nat) (c : Command)
  | onActive (client : Nat)
  | onPause
  | onJob (client : Nat)
  deriving DecidableEq, Repr

namespace Strategy

def isActive (s : Strategy) : Bool := s.active.isSome

def connect (s : Strategy) : Strategy × List Observation := (s, [.command s.index .connect])

def submit (s : Strategy) : Strategy × List Observation :=
  match s.active with
  | none => (s, [])
  | some i => (s, [.command i .submit])

def resume (s : Strategy) : Strategy × List Observation :=
  match s.active with
  | none => (s, [])
  | some i => (s, [.onJob i])

def stop (s : Strategy) : Strategy × List Observation :=
  ({ s with index := 0, active := none },
    (List.range s.pools).map (.command · .disconnect) ++ [.onPause])

/-- The part of `onClose` after `m_active` is cleared. -/
def advance (s : Strategy) (client : Nat) (failures : Int) : Strategy × List Observation :=
  if s.index = 0 ∧ failures < s.retries then (s, [])
  else if s.index = client ∧ 1 < s.pools - s.index then
    ({ s with index := s.index + 1 }, [.command (s.index + 1) .connect])
  else (s, [])

def onClose (s : Strategy) (client : Nat) (failures : Int) : Strategy × List Observation :=
  if failures = -1 then (s, [])
  else if s.active = some client then
    let next := advance { s with active := none } client failures
    (next.1, .onPause :: next.2)
  else s.advance client failures

def onJobReceived (s : Strategy) (client : Nat) : Strategy × List Observation :=
  (s, if s.active = some client then [.onJob client] else [])

/-- The backups that a login leaves without a use. -/
def spare (s : Strategy) (active : Nat) : List Nat :=
  (List.range s.pools).filter fun i => i ≠ 0 ∧ i ≠ active

def onLoginSuccess (s : Strategy) (client : Nat) : Strategy × List Observation :=
  let active := if client = 0 then client else s.active.getD client
  let commands := (s.spare active).map (.command · .disconnect)
  if s.active = some active then (s, commands)
  else ({ s with index := active, active := some active }, commands ++ [.onActive client])

def handle (s : Strategy) : Event → Strategy × List Observation
  | .connect => s.connect
  | .loginSuccess client => s.onLoginSuccess client
  | .close client failures => s.onClose client failures
  | .jobReceived client => s.onJobReceived client
  | .submit => s.submit
  | .resume => s.resume
  | .stop => s.stop

end Strategy

/-- The client an event comes from is one of the pools. -/
def Event.from? : Event → Option Nat
  | .loginSuccess client | .close client _ | .jobReceived client => some client
  | _ => none

/-- A strategy with its history, the latest observation first. -/
structure State where
  strategy : Strategy
  history : List Observation := []

def step (s : State) (e : Event) : Option State :=
  if e.from?.all (· < s.strategy.pools) then
    let next := s.strategy.handle e
    some ⟨next.1, next.2.reverse ++ .received e :: s.history⟩
  else none

/-- The client announced last, if not stopped since nor closed with a failure count that
`counts`. -/
def announced (counts : Int → Bool) : List Observation → Option Nat
  | [] => none
  | .onActive client :: _ => some client
  | .received (.close client failures) :: past =>
    if counts failures ∧ announced counts past = some client then none
    else announced counts past
  | .received .stop :: _ => none
  | _ :: past => announced counts past

/-- Every job handed on comes from the client announced at that moment. -/
def JobsAnnounced (counts : Int → Bool) (history : List Observation) : Prop :=
  ∀ newer client past, history = newer ++ .onJob client :: past →
    announced counts past = some client

/-- A close with -1 answers a `disconnect` of the client's owner. -/
def unasked (failures : Int) : Bool := failures ≠ -1

/-- The last connect or disconnect given to a client. -/
def lastCommand (client : Nat) (history : List Observation) : Option Command :=
  history.findSome? fun
    | .command i c => if i = client ∧ c ≠ .submit then some c else none
    | _ => none

section Announced

variable {counts : Int → Bool} {history : List Observation}

/-- What tells nothing about the announced client. -/
def Observation.silent : Observation → Bool
  | .onActive _ | .received (.close _ _) | .received .stop => false
  | _ => true

theorem announced_silent {o : Observation} (h : o.silent = true) :
    announced counts (o :: history) = announced counts history := by
  cases o with
  | received e => cases e <;> first | rfl | cases h
  | onActive => cases h
  | _ => rfl

theorem announced_append {new : List Observation} (h : ∀ o ∈ new, o.silent = true) :
    announced counts (new ++ history) = announced counts history := by
  induction new with
  | nil => rfl
  | cons o new ih =>
    rw [List.cons_append, announced_silent (h o (List.mem_cons_self ..)),
      ih fun o ho => h o (List.mem_cons_of_mem _ ho)]

theorem jobs_nil : JobsAnnounced counts [] := by
  intro newer client past h
  simp at h

theorem jobs_cons {o : Observation} (h : JobsAnnounced counts history)
    (ho : ∀ client, o = .onJob client → announced counts history = some client) :
    JobsAnnounced counts (o :: history) := by
  intro newer client past heq
  cases newer with
  | nil =>
    obtain ⟨rfl, rfl⟩ := List.cons.inj heq
    exact ho client rfl
  | cons first newer => exact h newer client past (List.cons.inj heq).2

theorem jobs_append {new : List Observation} (h : JobsAnnounced counts history)
    (hnew : ∀ client, .onJob client ∉ new) : JobsAnnounced counts (new ++ history) := by
  induction new with
  | nil => exact h
  | cons o new ih =>
    refine jobs_cons (ih fun client hmem => hnew client (List.mem_cons_of_mem _ hmem)) ?_
    rintro client rfl
    exact absurd (List.mem_cons_self ..) (hnew client)

end Announced

/-- What every event preserves. -/
structure Inv (s : State) : Prop where
  index : s.strategy.index < s.strategy.pools
  active : ∀ i, s.strategy.active = some i → s.strategy.index = i
  announced : announced unasked s.history = s.strategy.active
  jobs : JobsAnnounced unasked s.history

section Step

variable {s t : State} {e : Event} {client : Nat} {failures : Int}

/-- A handler that leaves `m_active`, hands on no job and announces nothing. -/
theorem Inv.quiet (h : Inv s) (next : Strategy) (new : List Observation)
    (hpools : next.pools = s.strategy.pools) (hactive : next.active = s.strategy.active)
    (hindex : next.index < s.strategy.pools)
    (hkept : ∀ i, s.strategy.active = some i → next.index = i)
    (hsilent : ∀ o ∈ new, o.silent = true) (hjobs : ∀ i, .onJob i ∉ new) :
    Inv ⟨next, new ++ s.history⟩ where
  index := hpools ▸ hindex
  active i hi := hkept i (hactive ▸ hi)
  announced := (announced_append hsilent).trans (h.announced.trans hactive.symm)
  jobs := jobs_append h.jobs hjobs

theorem advance_cases (s : Strategy) (client : Nat) (failures : Int) :
    s.advance client failures = (s, []) ∨
      s.index = client ∧ s.index + 1 < s.pools ∧ s.advance client failures =
        ({ s with index := s.index + 1 }, [.command (s.index + 1) .connect]) := by
  unfold Strategy.advance
  split_ifs with hretry hnext
  · exact .inl rfl
  · exact .inr ⟨hnext.1, by omega, rfl⟩
  · exact .inl rfl

/-- Moving on to the next pool: no pool is active, or another than the one that closed. -/
theorem inv_advance (h : Inv s) (client : Nat) (failures : Int)
    (hactive : s.strategy.active ≠ some client) :
    Inv ⟨(s.strategy.advance client failures).1,
      (s.strategy.advance client failures).2.reverse ++ s.history⟩ := by
  rcases advance_cases s.strategy client failures with hsame | ⟨hindex, hlt, hnext⟩
  · rw [hsame]
    exact h
  · rw [hnext]
    have hnone (i : Nat) (hi : s.strategy.active = some i) : False :=
      hactive (by rw [hi, ← h.active i hi, hindex])
    exact h.quiet _ _ rfl rfl hlt (fun i hi => (hnone i hi).elim)
      (by simp [Observation.silent]) (by simp)

theorem inv_received (h : Inv s) (he : (Observation.received e).silent = true) :
    Inv ⟨s.strategy, .received e :: s.history⟩ where
  index := h.index
  active := h.active
  announced := (announced_silent he).trans h.announced
  jobs := jobs_cons h.jobs nofun

theorem inv_onClose (h : Inv s) :
    Inv ⟨(s.strategy.onClose client failures).1, (s.strategy.onClose client failures).2.reverse ++
      .received (.close client failures) :: s.history⟩ := by
  have hjobs : JobsAnnounced unasked (.received (.close client failures) :: s.history) :=
    jobs_cons h.jobs nofun
  unfold Strategy.onClose
  by_cases hf : failures = -1
  · rw [if_pos hf]
    exact ⟨h.index, h.active, by simp [FailoverStrategy.announced, unasked, hf, h.announced], hjobs⟩
  rw [if_neg hf]
  by_cases hclient : s.strategy.active = some client
  · rw [if_pos hclient]
    have hclosed : Inv ⟨{ s.strategy with active := none },
        .onPause :: .received (.close client failures) :: s.history⟩ := by
      refine ⟨h.index, nofun, ?_, jobs_cons hjobs nofun⟩
      simp [FailoverStrategy.announced, unasked, hf, h.announced, hclient]
    simpa using inv_advance hclosed client failures nofun
  · rw [if_neg hclient]
    have hother : Inv ⟨s.strategy, .received (.close client failures) :: s.history⟩ := by
      refine ⟨h.index, h.active, ?_, hjobs⟩
      simp [FailoverStrategy.announced, h.announced, hclient]
    exact inv_advance hother client failures hclient

theorem onLoginSuccess_cases (s : Strategy) (client : Nat) :
    ∃ active, (client = 0 → active = 0) ∧
      (s.active = some active ∧ s.onLoginSuccess client =
          (s, (s.spare active).map (.command · .disconnect)) ∨
        active = client ∧ s.onLoginSuccess client =
          ({ s with index := client, active := some client },
            (s.spare client).map (.command · .disconnect) ++ [.onActive client])) := by
  refine ⟨if client = 0 then client else s.active.getD client, fun h => by simp [h], ?_⟩
  unfold Strategy.onLoginSuccess
  dsimp only
  split_ifs with h0 hsame hsame
  · exact .inl ⟨hsame, rfl⟩
  · exact .inr ⟨rfl, rfl⟩
  · exact .inl ⟨hsame, rfl⟩
  · have hgetD : s.active.getD client = client := by
      cases hactive : s.active with
      | none => rfl
      | some i => simp [hactive] at hsame
    rw [hgetD]
    exact .inr ⟨rfl, rfl⟩

theorem inv_onLoginSuccess (h : Inv s) (hclient : client < s.strategy.pools) :
    Inv ⟨(s.strategy.onLoginSuccess client).1, (s.strategy.onLoginSuccess client).2.reverse ++
      .received (.loginSuccess client) :: s.history⟩ := by
  have hlogin := inv_received (e := .loginSuccess client) h rfl
  obtain ⟨active, -, ⟨-, hcase⟩ | ⟨-, hcase⟩⟩ := onLoginSuccess_cases s.strategy client
  · rw [hcase]
    exact hlogin.quiet _ _ rfl rfl h.index h.active (by simp [Observation.silent]) (by simp)
  · rw [hcase]
    refine ⟨hclient, fun i hi => Option.some.inj hi, by simp [FailoverStrategy.announced], ?_⟩
    exact jobs_append hlogin.jobs (by simp)

theorem inv_stop (h : Inv s) :
    Inv ⟨s.strategy.stop.1, s.strategy.stop.2.reverse ++ .received .stop :: s.history⟩ := by
  refine ⟨Nat.zero_lt_of_lt h.index, nofun, ?_, ?_⟩
  · rw [announced_append (by simp [Strategy.stop, Observation.silent])]
    rfl
  · exact jobs_append (jobs_cons h.jobs nofun) (by simp [Strategy.stop])

/-- A job of the active client is handed on. -/
theorem inv_onJob (h : Inv s) (hactive : s.strategy.active = some client) :
    Inv ⟨s.strategy, .onJob client :: s.history⟩ where
  index := h.index
  active := h.active
  announced := h.announced
  jobs := jobs_cons h.jobs (by rintro _ ⟨⟩; exact h.announced.trans hactive)

theorem inv_step (h : Inv s) (hstep : step s e = some t) : Inv t := by
  obtain ⟨hfrom, ht⟩ := Option.ite_none_right_eq_some.mp hstep
  obtain rfl := Option.some.inj ht
  cases e with
  | connect =>
    have hevent := inv_received (e := .connect) h rfl
    exact hevent.quiet _ _ rfl rfl h.index h.active (by simp [Strategy.handle,
      Strategy.connect, Observation.silent]) (by simp [Strategy.handle, Strategy.connect])
  | loginSuccess client => exact inv_onLoginSuccess h (by simpa [Event.from?] using hfrom)
  | close client failures => exact inv_onClose h
  | jobReceived client =>
    have hevent := inv_received (e := .jobReceived client) h rfl
    by_cases hactive : s.strategy.active = some client
    · simpa [Strategy.handle, Strategy.onJobReceived, hactive] using inv_onJob hevent hactive
    · simpa [Strategy.handle, Strategy.onJobReceived, hactive] using hevent
  | submit =>
    have hevent := inv_received (e := .submit) h rfl
    cases hactive : s.strategy.active with
    | none => simpa [Strategy.handle, Strategy.submit, hactive] using hevent
    | some i =>
      have hsent := hevent.quiet s.strategy [.command i .submit] rfl rfl h.index h.active
        (by simp [Observation.silent]) (by simp)
      simpa [Strategy.handle, Strategy.submit, hactive] using hsent
  | resume =>
    have hevent := inv_received (e := .resume) h rfl
    cases hactive : s.strategy.active with
    | none => simpa [Strategy.handle, Strategy.resume, hactive] using hevent
    | some i => simpa [Strategy.handle, Strategy.resume, hactive] using inv_onJob hevent hactive
  | stop => exact inv_stop h

theorem lastCommand_login {s : Strategy} {active client : Nat} (history tail : List Observation)
    (hi : client < s.pools) (h0 : client ≠ 0) (hne : client ≠ active)
    (htail : ∀ o ∈ tail, ∃ i, o = .onActive i) :
    lastCommand client (((s.spare active).map (Observation.command · .disconnect) ++
      tail).reverse ++ history) = some .disconnect := by
  have hmem : client ∈ s.spare active := by simp [Strategy.spare, hi, h0, hne]
  have hskip : tail.reverse.findSome? (fun
      | .command i c => if i = client ∧ c ≠ .submit then some c else none
      | _ => none) = none := by
    rw [List.findSome?_eq_none_iff]
    intro o ho
    obtain ⟨i, rfl⟩ := htail o (List.mem_reverse.mp ho)
    rfl
  rw [lastCommand, List.reverse_append, List.append_assoc, List.findSome?_append, hskip,
    Option.none_or, List.findSome?_append]
  generalize s.spare active = spare at hmem
  have hfound : (spare.map (Observation.command · .disconnect)).reverse.findSome? (fun
      | .command i c => if i = client ∧ c ≠ .submit then some c else none
      | _ => none) = some .disconnect := by
    rw [← List.map_reverse]
    have hrev := List.mem_reverse.mpr hmem
    generalize spare.reverse = reversed at hrev
    induction reversed with
    | nil => cases hrev
    | cons i rest ih =>
      by_cases hic : i = client
      · simp [hic]
      · have hrest : client ∈ rest := by
          rcases List.mem_cons.mp hrev with h | h
          · exact absurd h.symm hic
          · exact h
        simpa [hic] using ih hrest
  rw [hfound]
  rfl

/-- Right after a login the strategy is on the client that counts, and every other backup
was disconnected last. -/
theorem login_settles (hstep : step s (.loginSuccess client) = some t) :
    (client = 0 → t.strategy.active = some 0) ∧
      ∀ i, i ≠ 0 → i < t.strategy.pools → t.strategy.active ≠ some i →
        lastCommand i t.history = some .disconnect := by
  obtain ⟨-, ht⟩ := Option.ite_none_right_eq_some.mp hstep
  obtain rfl := Option.some.inj ht
  simp only [Strategy.handle]
  obtain ⟨active, hzero, ⟨hactive, hcase⟩ | ⟨rfl, hcase⟩⟩ := onLoginSuccess_cases s.strategy client
  · rw [hcase]
    refine ⟨fun h => by rw [hactive, hzero h], fun i h0 hi hne => ?_⟩
    have hia : i ≠ active := fun h => hne (h ▸ hactive)
    simpa using lastCommand_login (.received (.loginSuccess client) :: s.history) [] hi h0 hia
      nofun
  · rw [hcase]
    refine ⟨fun h => by rw [h], fun i h0 hi hne => ?_⟩
    have hia : i ≠ active := fun h => hne (by rw [h])
    exact lastCommand_login _ _ hi h0 hia (by simp)

end Step

/-- A close with -1 of the active client is ignored, and its next job is handed on. -/
theorem closed_client_job : ¬ ∀ (pools : Nat) (retries : Int) (events : List Event) (s : State),
    2 ≤ pools → exec step ⟨{ pools, retries }, []⟩ events = some s →
    JobsAnnounced (fun _ => true) s.history := by
  intro h
  have hrun := h 2 0 [.loginSuccess 1, .close 1 (-1), .jobReceived 1] _ (le_refl 2) rfl
  exact absurd (hrun [] 1 _ rfl) (by decide)

theorem handle_pools (s : Strategy) (e : Event) : (s.handle e).1.pools = s.pools := by
  cases e with
  | loginSuccess client =>
    obtain ⟨active, -, ⟨-, hcase⟩ | ⟨-, hcase⟩⟩ := onLoginSuccess_cases s client <;>
      simp only [Strategy.handle, hcase]
  | close client failures =>
    simp only [Strategy.handle, Strategy.onClose, Strategy.advance]
    split_ifs <;> rfl
  | submit =>
    simp only [Strategy.handle, Strategy.submit]
    split <;> rfl
  | resume =>
    simp only [Strategy.handle, Strategy.resume]
    split <;> rfl
  | _ => rfl

theorem step_pools {s t : State} {e : Event} (h : step s e = some t) :
    t.strategy.pools = s.strategy.pools := by
  obtain ⟨-, ht⟩ := Option.ite_none_right_eq_some.mp h
  obtain rfl := Option.some.inj ht
  exact handle_pools s.strategy e

theorem inv_exec {pools : Nat} {retries : Int} (hpools : 0 < pools) {events : List Event}
    {s : State} (hrun : exec step ⟨{ pools, retries }, []⟩ events = some s) :
    Inv s ∧ s.strategy.pools = pools :=
  (run_of_exec hrun).invariant (I := fun s => Inv s ∧ s.strategy.pools = pools)
    (fun _ _ _ _ h hstep => ⟨inv_step h.1 hstep, (step_pools hstep).trans h.2⟩)
    ⟨⟨hpools, nofun, rfl, jobs_nil⟩, rfl⟩

/-- The strategy over every order of events. -/
theorem failover_invariant {pools : Nat} {retries : Int} (hpools : 2 ≤ pools)
    {events : List Event} {s : State}
    (hrun : exec step ⟨{ pools, retries }, []⟩ events = some s) :
    (s.strategy.index < pools ∧ (∀ i, s.strategy.active = some i → s.strategy.index = i) ∧
      JobsAnnounced unasked s.history) ∧
    ∀ client t, step s (.loginSuccess client) = some t →
      (client = 0 → t.strategy.active = some 0) ∧
      ∀ i, 1 ≤ i → i < pools → t.strategy.active ≠ some i →
        lastCommand i t.history = some .disconnect := by
  obtain ⟨hinv, hcount⟩ := inv_exec (by omega) hrun
  refine ⟨⟨hcount ▸ hinv.index, hinv.active, hinv.jobs⟩, fun client t hstep => ?_⟩
  obtain ⟨hzero, hspare⟩ := login_settles hstep
  refine ⟨hzero, fun i h1 hi hne => hspare i (by omega) ?_ hne⟩
  rw [step_pools hstep, hcount]
  exact hi

/-- A backup takes over, the primary comes back, and the backup is let go. -/
theorem failover_invariant_run :
    (exec step ⟨{ pools := 2, retries := 0 }, []⟩
      [.connect, .close 0 1, .loginSuccess 1, .jobReceived 1]).map
      (fun s => (s.strategy.active, s.strategy.index)) = some (some 1, 1) ∧
    ∃ s t : State, step s (.loginSuccess 0) = some t ∧ t.strategy.active = some 0 ∧
      lastCommand 1 t.history = some .disconnect := by
  have hrun : (exec step ⟨{ pools := 2, retries := 0 }, []⟩
      [.connect, .close 0 1, .loginSuccess 1, .jobReceived 1]).map
      (fun s => (s.strategy.active, s.strategy.index)) = some (some 1, 1) := by decide
  obtain ⟨s, hexec, -⟩ := Option.map_eq_some_iff.mp hrun
  have hpools := (inv_exec (by decide) hexec).2
  obtain ⟨t, hstep⟩ : ∃ t, step s (.loginSuccess 0) = some t := by
    simp [step, Event.from?, hpools]
  obtain ⟨hzero, hspare⟩ := (failover_invariant (le_refl 2) hexec).2 0 t hstep
  have hactive := hzero rfl
  exact ⟨hrun, s, t, hstep, hactive, hspare 1 (le_refl 1) (by decide) (by simp [hactive])⟩

end VeloxHash.FailoverStrategy

namespace VeloxHash

open FailoverStrategy (Event Observation Command)

/-- It speaks to its client and listener in the words of `FailoverStrategy`. -/
structure SinglePoolStrategy where
  active : Bool := false
  deriving DecidableEq, Repr

namespace SinglePoolStrategy

def onClose (s : SinglePoolStrategy) : SinglePoolStrategy × List Observation :=
  if s.active then ({ active := false }, [.onPause]) else (s, [])

def handle (s : SinglePoolStrategy) : Event → SinglePoolStrategy × List Observation
  | .connect => (s, [.command 0 .connect])
  | .loginSuccess client => ({ active := true }, [.onActive client])
  | .close _ _ => s.onClose
  | .jobReceived client => (s, [.onJob client])
  | .submit => (s, [.command 0 .submit])
  | .resume => (s, if s.active then [.onJob 0] else [])
  | .stop => (s, [.command 0 .disconnect])

end SinglePoolStrategy

/-- `Pools::createStrategy`. -/
inductive PoolStrategy
  | single (s : SinglePoolStrategy)
  | failover (s : FailoverStrategy.Strategy)
  deriving DecidableEq, Repr

namespace PoolStrategy

def pools : PoolStrategy → Nat
  | single _ => 1
  | failover s => s.pools

def handle : PoolStrategy → Event → PoolStrategy × List Observation
  | single s, e => (single (s.handle e).1, (s.handle e).2)
  | failover s, e => (failover (s.handle e).1, (s.handle e).2)

/-- The strategy's listener hears `onActive`. -/
def announces (s : PoolStrategy) (e : Event) : Bool :=
  (s.handle e).2.any fun
    | .onActive _ => true
    | _ => false

end PoolStrategy

end VeloxHash
