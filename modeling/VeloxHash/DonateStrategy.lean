import VeloxHash.FailoverStrategy
import Mathlib.Data.List.Chain

/-! `DonateStrategy` with its timer, over a pool strategy and, when there is one, the proxy
client. Time is in milliseconds and the timer is punctual: time does not pass it before it
fires. The history holds every state entered, with the time and the timer started then. -/

namespace VeloxHash.DonateStrategy

open TransitionSystem

inductive State
  | new
  | idle
  | connect
  | active
  | wait
  deriving DecidableEq, Repr

structure Entry where
  state : State
  time : Nat
  timer : Nat := 0
  deriving DecidableEq, Repr

structure Donate where
  donateTime : Nat
  strategy : PoolStrategy
  state : State := .new
  proxy : Bool := false
  timer : Option Nat := none
  now : Nat := 0
  timestamp : Nat := 0
  clock : Nat := 0
  history : List Entry := []
  deriving DecidableEq, Repr

/-- A tick may draw the length of an idle period, and a connect finds out whether the
user's pool serves as a proxy. -/
inductive Event
  | advance (ms : Nat)
  | timer (proxy : Bool)
  | tick (idle : Nat)
  | pool (e : FailoverStrategy.Event)
  | proxyLogin
  | proxyClose (failures : Int) (auto : Bool)
  deriving DecidableEq, Repr

namespace Donate

def isActive (d : Donate) : Bool := d.state == .active

/-- `Network::onJob` drops a job of the user's strategy. -/
def suppresses (d : Donate) : Bool := d.isActive

/-- The part of `setState` all states share. -/
def enter (d : Donate) (state : State) (timer : Option Nat) : Donate :=
  { d with
    state
    timer := timer.elim d.timer fun ms => some (d.clock + ms)
    history := ⟨state, d.clock, timer.getD 0⟩ :: d.history }

/-- `m_strategy->stop()`; its `onPause` is ignored. -/
def stopStrategy (d : Donate) : Donate := { d with strategy := (d.strategy.handle .stop).1 }

def connectStrategy (d : Donate) : Donate :=
  { d with strategy := (d.strategy.handle .connect).1 }

/-- `setState`. The asserts on the new state are off in a release build. -/
def setState (d : Donate) (state : State) (idle : Nat) (proxy : Bool) : Donate :=
  if d.state = state then d
  else
    match state with
    | .new => d.enter .new none
    | .idle =>
      if d.state = .new then d.enter .idle (some idle)
      else if d.state = .connect then d.enter .idle (some 20000)
      else { (d.enter .idle (some idle)).stopStrategy with proxy := false }
    | .connect =>
      let next := { d.enter .connect none with proxy }
      if proxy then next else next.connectStrategy
    | .active => d.enter .active (some d.donateTime)
    | .wait => { d.enter .wait none with timestamp := d.now + 3000 }

/-- `onActive` of the pool strategy and `onLoginSuccess` of the proxy. -/
def onActive (d : Donate) : Donate := if d.isActive then d else d.setState .active 0 false

def onTimer (d : Donate) (proxy : Bool) : Donate :=
  setState { d with timer := none } (if d.isActive then .wait else .connect) 0 proxy

def tick (d : Donate) (idle : Nat) : Donate :=
  let d := { d with now := d.clock }
  if d.state = .wait ∧ d.timestamp < d.now then d.setState .idle idle false else d

/-- A call from a client of the pool strategy. -/
def onPool (d : Donate) (e : FailoverStrategy.Event) : Donate :=
  let next := { d with strategy := (d.strategy.handle e).1 }
  if d.strategy.announces e then next.onActive else next

def onClose (d : Donate) (failures : Int) (auto : Bool) : Donate :=
  if failures = 2 ∧ auto then { d with proxy := false }.connectStrategy else d

end Donate

def step (d : Donate) : Event → Option Donate
  | .advance ms =>
    if d.timer.all (d.clock + ms ≤ ·) then some { d with clock := d.clock + ms } else none
  | .timer proxy => if d.timer.any (· ≤ d.clock) then some (d.onTimer proxy) else none
  | .tick idle => some (d.tick idle)
  | .pool e => if e.from?.all (· < d.strategy.pools) then some (d.onPool e) else none
  | .proxyLogin => if d.proxy then some d.onActive else none
  | .proxyClose failures auto => if d.proxy then some (d.onClose failures auto) else none

/-- The constructor. -/
def start (donateTime : Nat) (strategy : PoolStrategy) (idle : Nat) : Donate :=
  Donate.setState { donateTime, strategy } .idle idle false

/-- `newer` may be entered right after `older`. -/
def Follows (donateTime : Nat) (newer older : Entry) : Prop :=
  match newer.state with
  | .new => False
  | .idle => older.state = .wait
  | .connect => older.state = .idle ∧ newer.time = older.time + older.timer
  | .active => older.state = .connect
  | .wait => older.state = .active ∧ newer.time = older.time + donateTime

/-- The donation starts from `connect` only; a period ends with its timer, and the timer of
an idle period runs out before the next one. -/
structure Windowed (d : Donate) : Prop where
  chain : d.history.IsChain (Follows d.donateTime)
  current : d.history.head?.map Entry.state = some d.state
  bounded : ∀ entry, d.history.head? = some entry → d.suppresses = true →
    d.clock ≤ entry.time + d.donateTime

/-- A login is reported while the strategy connects, or is active. -/
def LoginExpected (d : Donate) : Event → Prop
  | .pool e => d.strategy.announces e = true → d.state = .connect ∨ d.state = .active
  | .proxyLogin => d.state = .connect ∨ d.state = .active
  | _ => True

instance (d : Donate) (e : Event) : Decidable (LoginExpected d e) := by
  cases e <;> unfold LoginExpected <;> infer_instance

/-- What every expected step preserves: the last entry is the current state, and the timer
is the one started then. -/
structure Inv (d : Donate) : Prop where
  chain : d.history.IsChain (Follows d.donateTime)
  head : ∃ entry past, d.history = entry :: past ∧ entry.state = d.state
  timer : ∀ due, d.timer = some due → d.clock ≤ due ∧
    ∀ entry, d.history.head? = some entry → due = entry.time + entry.timer ∧
      (d.state = .idle ∨ d.state = .active)
  active : d.state = .active → d.timer.isSome = true ∧
    ∀ entry, d.history.head? = some entry → entry.timer = d.donateTime
  fresh : d.state ≠ .new

section Step

variable {d t : Donate} {e : Event}

/-- A step that leaves the state, the timer and the time. -/
theorem Inv.frame (h : Inv d) (hdonate : t.donateTime = d.donateTime)
    (hhistory : t.history = d.history) (hstate : t.state = d.state) (htimer : t.timer = d.timer)
    (hclock : t.clock = d.clock) : Inv t := by
  refine ⟨?_, ?_, ?_, ?_, ?_⟩
  · rw [hhistory, hdonate]; exact h.chain
  · rw [hhistory, hstate]; exact h.head
  · rw [htimer, hhistory, hstate, hclock]; exact h.timer
  · rw [hstate, htimer, hhistory, hdonate]; exact h.active
  · rw [hstate]; exact h.fresh

/-- Entering a state that may follow the last one, with its timer or with none left over. -/
theorem inv_enter (h : Inv d) (state : State) (timer : Option Nat)
    (hfollows : ∀ entry, d.history.head? = some entry →
      Follows d.donateTime ⟨state, d.clock, timer.getD 0⟩ entry)
    (htimer : timer = none → d.timer = none)
    (hkind : timer.isSome = true → state = .idle ∨ state = .active)
    (hactive : state = .active → timer = some d.donateTime) (hfresh : state ≠ .new) :
    Inv (d.enter state timer) := by
  obtain ⟨entry, past, hpast, -⟩ := h.head
  refine ⟨?_, ⟨_, _, rfl, rfl⟩, fun due hdue => ?_, fun hs => ?_, hfresh⟩
  · have hchain := h.chain
    simp only [Donate.enter, hpast] at hchain ⊢
    exact List.isChain_cons_cons.mpr ⟨hfollows entry (by rw [hpast]; rfl), hchain⟩
  · cases timer with
    | none => simp [Donate.enter, htimer rfl] at hdue
    | some ms =>
      obtain rfl : d.clock + ms = due := by simpa [Donate.enter] using hdue
      refine ⟨Nat.le_add_right _ _, fun entry hentry => ?_⟩
      obtain rfl : (⟨state, d.clock, ms⟩ : Entry) = entry := by
        simpa [Donate.enter] using hentry
      exact ⟨rfl, hkind rfl⟩
  · rw [hactive hs]
    refine ⟨rfl, fun entry hentry => ?_⟩
    obtain rfl : (⟨state, d.clock, d.donateTime⟩ : Entry) = entry := by
      simpa [Donate.enter, hactive hs] using hentry
    rfl

theorem Inv.head_state (h : Inv d) {entry : Entry} (hentry : d.history.head? = some entry) :
    entry.state = d.state := by
  obtain ⟨first, past, hpast, hstate⟩ := h.head
  rw [hpast] at hentry
  obtain rfl := Option.some.inj hentry
  exact hstate

theorem inv_onActive (h : Inv d) (hlogin : d.state = .connect ∨ d.state = .active) :
    Inv d.onActive := by
  unfold Donate.onActive Donate.isActive
  rcases hlogin with hstate | hstate
  · rw [if_neg (by simp [hstate]), Donate.setState, if_neg (by simp [hstate])]
    exact inv_enter h _ _ (fun entry hentry => (h.head_state hentry).trans hstate) nofun
      (fun _ => .inr rfl) (fun _ => rfl) nofun
  · rw [if_pos (by simp [hstate])]
    exact h

theorem inv_onTimer (h : Inv d) (proxy : Bool) (hdue : d.timer.any (· ≤ d.clock) = true) :
    Inv (d.onTimer proxy) := by
  obtain ⟨due, htimer, hle⟩ : ∃ due, d.timer = some due ∧ due ≤ d.clock := by
    cases htimer : d.timer with
    | none => simp [htimer] at hdue
    | some due => exact ⟨due, rfl, by simpa [htimer] using hdue⟩
  obtain ⟨hclock, hstarted⟩ := h.timer due htimer
  have hnow : d.clock = due := by omega
  obtain ⟨entry, past, hpast, hentry⟩ := h.head
  obtain ⟨hsum, hkind⟩ := hstarted entry (by rw [hpast]; rfl)
  -- without its timer the strategy still has the entry it is in
  have hhead {first : Entry} (hfirst : d.history.head? = some first) : first = entry := by
    rw [hpast] at hfirst
    exact (Option.some.inj hfirst).symm
  rcases hkind with hstate | hstate
  · have hfired : Inv { d with timer := none } :=
      ⟨h.chain, h.head, nofun, fun hs => by simp [hstate] at hs, h.fresh⟩
    have hconnect := inv_enter hfired .connect none
      (fun first hfirst => by
        obtain rfl := hhead hfirst
        exact ⟨hentry.trans hstate, by simpa using hnow.trans hsum⟩)
      (fun _ => rfl) nofun nofun nofun
    simp only [Donate.onTimer, Donate.isActive, hstate, Donate.setState]
    cases proxy with
    | true => exact hconnect.frame rfl rfl rfl rfl rfl
    | false => exact hconnect.frame rfl rfl rfl rfl rfl
  · have hlen := (h.active hstate).2 entry (by rw [hpast]; rfl)
    have hwait : Inv (Donate.enter { d with timer := none } .wait none) := by
      refine ⟨?_, ⟨_, _, rfl, rfl⟩, nofun, nofun, nofun⟩
      have hchain := h.chain
      simp only [Donate.enter, hpast] at hchain ⊢
      refine List.isChain_cons_cons.mpr ⟨⟨hentry.trans hstate, ?_⟩, hchain⟩
      rw [hnow, hsum, hlen]
    simp only [Donate.onTimer, Donate.isActive, hstate, Donate.setState]
    exact hwait.frame rfl rfl rfl rfl rfl

theorem inv_tick (h : Inv d) (idle : Nat) : Inv (d.tick idle) := by
  have hnow : Inv { d with now := d.clock } := h.frame rfl rfl rfl rfl rfl
  unfold Donate.tick
  dsimp only
  split
  case isFalse => exact hnow
  case isTrue hwait =>
    have hstate : d.state = .wait := hwait.1
    have hidle := inv_enter hnow .idle (some idle)
      (fun entry hentry => (hnow.head_state hentry).trans hstate) nofun (fun _ => .inl rfl)
      nofun nofun
    simp only [Donate.setState, hstate]
    exact hidle.frame rfl rfl rfl rfl rfl

theorem inv_step (h : Inv d) (hok : LoginExpected d e) (hstep : step d e = some t) : Inv t := by
  cases e with
  | advance ms =>
    obtain ⟨hall, ht⟩ := Option.ite_none_right_eq_some.mp hstep
    obtain rfl := Option.some.inj ht
    refine ⟨h.chain, h.head, fun due hdue => ⟨?_, (h.timer due hdue).2⟩, h.active, h.fresh⟩
    have hdue : d.timer = some due := hdue
    simpa [hdue] using hall
  | timer proxy =>
    obtain ⟨hdue, ht⟩ := Option.ite_none_right_eq_some.mp hstep
    exact Option.some.inj ht ▸ inv_onTimer h proxy hdue
  | tick idle => exact Option.some.inj hstep ▸ inv_tick h idle
  | pool event =>
    obtain ⟨-, ht⟩ := Option.ite_none_right_eq_some.mp hstep
    obtain rfl := Option.some.inj ht
    have hnext : Inv { d with strategy := (d.strategy.handle event).1 } :=
      h.frame rfl rfl rfl rfl rfl
    unfold Donate.onPool
    dsimp only
    split
    case isTrue hannounces => exact inv_onActive hnext (hok hannounces)
    case isFalse => exact hnext
  | proxyLogin =>
    obtain ⟨-, ht⟩ := Option.ite_none_right_eq_some.mp hstep
    exact Option.some.inj ht ▸ inv_onActive h hok
  | proxyClose failures auto =>
    obtain ⟨-, ht⟩ := Option.ite_none_right_eq_some.mp hstep
    obtain rfl := Option.some.inj ht
    unfold Donate.onClose
    split
    case isTrue => exact h.frame rfl rfl rfl rfl rfl
    case isFalse => exact h

end Step

theorem Inv.windowed {d : Donate} (h : Inv d) : Windowed d := by
  obtain ⟨entry, past, hpast, hentry⟩ := h.head
  refine ⟨h.chain, by rw [hpast, ← hentry]; rfl, fun first hfirst hactive => ?_⟩
  have hstate : d.state = .active := by simpa [Donate.suppresses, Donate.isActive] using hactive
  obtain ⟨hsome, hlen⟩ := h.active hstate
  obtain ⟨due, hdue⟩ := Option.isSome_iff_exists.mp hsome
  obtain ⟨hle, hstarted⟩ := h.timer due hdue
  have := (hstarted first hfirst).1
  have := hlen first hfirst
  omega

theorem inv_start (donateTime : Nat) (strategy : PoolStrategy) (idle : Nat) :
    Inv (start donateTime strategy idle) := by
  refine ⟨List.isChain_singleton _, ⟨_, _, rfl, rfl⟩, ?_, nofun, nofun⟩
  rintro due ⟨⟩
  refine ⟨Nat.le_add_right _ _, ?_⟩
  rintro entry ⟨⟩
  exact ⟨rfl, .inl rfl⟩

/-- The primary pool logs in again during the three seconds of `wait`. -/
theorem donation_extended : ¬ ∀ (donateTime : Nat) (strategy : PoolStrategy) (idle : Nat)
    (events : List Event) (d : Donate), exec step (start donateTime strategy idle) events = some d →
    Windowed d := by
  intro h
  have hrun := h 60000 (.failover { pools := 2, retries := 2 }) 10
    [.advance 10, .timer false, .pool (.loginSuccess 1), .advance 60000, .timer false,
      .pool (.loginSuccess 0)] _ rfl
  exact absurd (List.isChain_cons_cons.mp hrun.chain).1 nofun

/-- In every run in which logins come while the strategy connects or is active, a donation
starts from `connect` only, lasts until its timer, and is followed by an idle period. -/
theorem donation_window {donateTime idle : Nat} {strategy : PoolStrategy} {events : List Event}
    {d : Donate} (hrun : Run step LoginExpected (start donateTime strategy idle) events d) :
    Windowed d :=
  (hrun.invariant (fun _ _ _ hok h hstep => inv_step h hok hstep)
    (inv_start donateTime strategy idle)).windowed

/-- Two donations through a single pool. -/
theorem donation_window_run :
    (exec (guarded (fun d e => decide (LoginExpected d e)) step) (start 60000 (.single {}) 10)
      [.advance 10, .timer false, .pool (.loginSuccess 0), .advance 60000, .timer false,
        .advance 3001, .tick 100, .advance 100, .timer false, .pool (.loginSuccess 0)]).map
      (fun d => d.history.map Entry.state) =
      some [.active, .connect, .idle, .wait, .active, .connect, .idle] ∧
    ∃ d : Donate, d.history.map Entry.state =
      [.active, .connect, .idle, .wait, .active, .connect, .idle] ∧ Windowed d := by
  have hrun : (exec (guarded (fun d e => decide (LoginExpected d e)) step)
      (start 60000 (.single {}) 10)
      [.advance 10, .timer false, .pool (.loginSuccess 0), .advance 60000, .timer false,
        .advance 3001, .tick 100, .advance 100, .timer false, .pool (.loginSuccess 0)]).map
      (fun d => d.history.map Entry.state) =
      some [.active, .connect, .idle, .wait, .active, .connect, .idle] := by decide
  obtain ⟨d, hexec, hd⟩ := Option.map_eq_some_iff.mp hrun
  exact ⟨hrun, d, hd, donation_window (run_of_guarded (fun _ _ => of_decide_eq_true) hexec)⟩

end VeloxHash.DonateStrategy
