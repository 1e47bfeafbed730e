import VeloxHash.Nonce
import VeloxHash.TransitionSystem

/-! Manual and automatic pausing of the `Miner`: `setEnabled` with its callers. The
nonce counters and the backends are not part of it. `userPaused` is a ghost, set by a
pause command and cleared by a resume command. -/

namespace VeloxHash.MinerPause

open Nonce TransitionSystem

/-- The automatic reasons to pause; each has an option, a latch and a reading. -/
inductive Reason
  | battery
  | active
  deriving DecidableEq, Repr

/-- `isPauseOnBattery()` and `isPauseOnActive()` of the configuration. -/
structure Options where
  pauseOnBattery : Bool
  pauseOnActive : Bool
  deriving DecidableEq, Repr

def Options.on (o : Options) : Reason → Bool
  | .battery => o.pauseOnBattery
  | .active => o.pauseOnActive

structure Miner where
  options : Options
  enabled : Bool := true
  active : Bool := false
  batteryPower : Bool := false
  userActive : Bool := false
  autoPause : Int := 0
  nonce : Shared := {}
  userPaused : Bool := false

/-- What the platform reports to `onTimer`, and whether a backend asks to stop. -/
structure Reading where
  onBattery : Bool
  userActive : Bool
  stop : Bool := false
  deriving DecidableEq, Repr

def Reading.report (r : Reading) : Reason → Bool
  | .battery => r.onBattery
  | .active => r.userActive

inductive Event
  | command (c : Char)
  | timer (r : Reading)
  | config (options : Options)
  | setJob (ready : Bool)
  | datasetReady
  | pause
  deriving DecidableEq, Repr

namespace Miner

def setEnabled (m : Miner) (enabled : Bool) : Miner :=
  if m.enabled = enabled then m
  else if m.options.pauseOnBattery && m.batteryPower && enabled then m
  else if !m.active then { m with enabled }
  else { m with enabled, nonce := (m.nonce.pause !enabled).touch }

def latch (m : Miner) : Reason → Bool
  | .battery => m.batteryPower
  | .active => m.userActive

def setLatch (m : Miner) (b : Bool) : Reason → Miner
  | .battery => { m with batteryPower := b }
  | .active => { m with userActive := b }

/-- The lambda `autoPause`. -/
def toggle (m : Miner) (reason : Reason) (pause : Bool) : Miner :=
  if m.latch reason = pause then m
  else
    let autoPause := m.autoPause + if pause then 1 else -1
    setEnabled { m.setLatch pause reason with autoPause } (autoPause = 0)

def check (m : Miner) (r : Reading) (reason : Reason) : Miner :=
  if m.options.on reason then m.toggle reason (r.report reason) else m

def onTimer (m : Miner) (r : Reading) : Miner :=
  let m := (m.check r .battery).check r .active
  if r.stop then { m with nonce := m.nonce.stop } else m

def execCommand (m : Miner) (c : Char) : Miner :=
  if c = 'p' ∨ c = 'P' then setEnabled { m with userPaused := true } false
  else if c = 'r' ∨ c = 'R' then setEnabled { m with userPaused := false } true
  else m

def handleJobChange (m : Miner) : Miner :=
  let paused := if m.enabled then m.nonce else m.nonce.pause true
  let touched := paused.touch
  { m with nonce := if m.active && m.enabled then touched.pause false else touched }

end Miner

def step (m : Miner) : Event → Option Miner
  | .command c => some (m.execCommand c)
  | .timer r => some (m.onTimer r)
  | .config options => some { m with options }
  | .setJob ready =>
    some (if ready then Miner.handleJobChange { m with active := true } else { m with active := true })
  | .datasetReady => some m.handleJobChange
  | .pause => some { m with active := false, nonce := (m.nonce.pause true).touch }

/-- The automatic reasons that are set, whatever the options say. -/
def reasons (m : Miner) : Int := m.batteryPower.toNat + m.userActive.toNat

/-- The automatic reasons that are set and whose option is on. -/
def enabledReasons (m : Miner) : Int :=
  (m.batteryPower && m.options.pauseOnBattery).toNat +
    (m.userActive && m.options.pauseOnActive).toNat

/-- A user's pause holds, and the counter counts the reasons. -/
def Sticky (m : Miner) : Prop :=
  (m.userPaused = true → m.enabled = false) ∧ m.autoPause = enabledReasons m

/-- The reading clears a reason and leaves none. -/
def clears (m : Miner) (r : Reading) (reason : Reason) : Prop :=
  (m.options.on reason ∧ m.latch reason ∧ !r.report reason) ∧ m.autoPause = 1

def clearsLast (m : Miner) (r : Reading) : Prop :=
  clears m r .battery ∨ clears (m.check r .battery) r .active

/-- No timer clears the last automatic reason while the user has paused, and no option is
turned off while its reason is set. -/
def Allowed (m : Miner) : Event → Prop
  | .timer r => m.userPaused = true → ¬ clearsLast m r
  | .config options =>
    (m.batteryPower = true → options.pauseOnBattery = true) ∧
      (m.userActive = true → options.pauseOnActive = true)
  | _ => True

instance (m : Miner) (r : Reading) (reason : Reason) : Decidable (clears m r reason) := by
  unfold clears; infer_instance

instance (m : Miner) (r : Reading) : Decidable (clearsLast m r) := by
  unfold clearsLast; infer_instance

instance (m : Miner) (e : Event) : Decidable (Allowed m e) := by
  cases e <;> unfold Allowed <;> infer_instance

section SetEnabled

variable {m : Miner} {b : Bool}

@[simp] theorem setEnabled_options : (m.setEnabled b).options = m.options := by
  unfold Miner.setEnabled; split_ifs <;> rfl

@[simp] theorem setEnabled_batteryPower : (m.setEnabled b).batteryPower = m.batteryPower := by
  unfold Miner.setEnabled; split_ifs <;> rfl

@[simp] theorem setEnabled_userActive : (m.setEnabled b).userActive = m.userActive := by
  unfold Miner.setEnabled; split_ifs <;> rfl

@[simp] theorem setEnabled_autoPause : (m.setEnabled b).autoPause = m.autoPause := by
  unfold Miner.setEnabled; split_ifs <;> rfl

@[simp] theorem setEnabled_userPaused : (m.setEnabled b).userPaused = m.userPaused := by
  unfold Miner.setEnabled; split_ifs <;> rfl

/-- Nothing stands in the way of disabling. -/
@[simp] theorem setEnabled_false : (m.setEnabled false).enabled = false := by
  unfold Miner.setEnabled
  split_ifs with h1 h2 <;> simp_all

end SetEnabled

/-- What every step preserves: the counter counts the latches, a latch is set only while
its option is on, and a user's pause holds. -/
structure Inv (m : Miner) : Prop where
  counter : m.autoPause = reasons m
  latch : ∀ reason, m.latch reason = true → m.options.on reason = true
  paused : m.userPaused = true → m.enabled = false

variable {m : Miner}

theorem inv_start (options : Options) : Inv { options } := ⟨rfl, fun reason => by cases reason <;> nofun, nofun⟩

theorem Inv.sticky (h : Inv m) : Sticky m := by
  refine ⟨h.paused, h.counter.trans ?_⟩
  have hb := h.latch .battery
  have ha := h.latch .active
  simp only [Miner.latch, Options.on] at hb ha
  cases hbattery : m.batteryPower <;> cases hactive : m.userActive <;>
    simp_all [reasons, enabledReasons]

/-- The invariant reads the options, the latches and the counter. -/
theorem Inv.frame {n : Miner} (h : Inv m) (hcounter : n.autoPause = m.autoPause)
    (hbattery : n.batteryPower = m.batteryPower) (hactive : n.userActive = m.userActive)
    (hoptions : n.options = m.options) (hpaused : n.userPaused = true → n.enabled = false) :
    Inv n := by
  refine ⟨?_, fun reason => ?_, hpaused⟩
  · rw [hcounter, reasons, hbattery, hactive]
    exact h.counter
  · have hlatch := h.latch reason
    cases reason <;> simp_all [Miner.latch]

@[simp] theorem latch_setEnabled (b : Bool) (reason : Reason) :
    (m.setEnabled b).latch reason = m.latch reason := by
  cases reason <;> simp [Miner.latch]

theorem reasons_setLatch {reason : Reason} {b : Bool} (h : m.latch reason ≠ b) :
    reasons (m.setLatch b reason) = reasons m + if b then 1 else -1 := by
  cases reason <;> cases b <;> simp_all [Miner.latch, Miner.setLatch, reasons]
  omega

theorem reasons_nonneg (m : Miner) : 0 ≤ reasons m := by
  unfold reasons; omega

@[simp] theorem setLatch_options (b : Bool) (reason : Reason) :
    (m.setLatch b reason).options = m.options := by cases reason <;> rfl

@[simp] theorem setLatch_userPaused (b : Bool) (reason : Reason) :
    (m.setLatch b reason).userPaused = m.userPaused := by cases reason <;> rfl

theorem setLatch_latch (b : Bool) (reason other : Reason) :
    (m.setLatch b reason).latch other = if other = reason then b else m.latch other := by
  cases reason <;> cases other <;> rfl

/-- Only clearing the last reason leaves the counter at zero. -/
theorem counter_ne_zero (h : Inv m) {reason : Reason} {b : Bool} (hne : m.latch reason ≠ b)
    (hclear : ¬ (b = false ∧ m.autoPause = 1)) :
    m.autoPause + (if b then 1 else -1) ≠ 0 := by
  have hnonneg := reasons_nonneg m
  rw [← h.counter] at hnonneg
  cases b with
  | true =>
    simp only [if_true]
    omega
  | false =>
    have hone : m.autoPause ≠ 1 := fun hone => hclear ⟨rfl, hone⟩
    simp only [Bool.false_eq_true, if_false]
    omega

/-- One of the two checks of `onTimer`. -/
theorem inv_check (h : Inv m) (r : Reading) (reason : Reason)
    (hclear : m.userPaused = true → ¬ clears m r reason) : Inv (m.check r reason) := by
  unfold Miner.check Miner.toggle
  split
  case isFalse => exact h
  case isTrue hoption =>
    split
    case isTrue => exact h
    case isFalse hne =>
      dsimp only
      constructor
      · have hset := reasons_setLatch hne
        rw [← h.counter] at hset
        simpa [reasons] using hset.symm
      · intro other hother
        rw [latch_setEnabled] at hother
        have hother : (m.setLatch (r.report reason) reason).latch other = true := hother
        rw [setLatch_latch] at hother
        simp only [setEnabled_options, setLatch_options]
        split_ifs at hother with heq
        · exact heq ▸ hoption
        · exact h.latch other hother
      · intro hpaused
        have hup : m.userPaused = true := by simpa using hpaused
        have hnot : ¬ (r.report reason = false ∧ m.autoPause = 1) := by
          rintro ⟨hclearing, hone⟩
          rw [hclearing] at hne
          exact hclear hup ⟨⟨hoption, Bool.of_not_eq_false hne, by simp [hclearing]⟩, hone⟩
        rw [decide_eq_false (counter_ne_zero h hne hnot), setEnabled_false]

theorem check_userPaused (r : Reading) (reason : Reason) :
    (m.check r reason).userPaused = m.userPaused := by
  unfold Miner.check Miner.toggle
  split_ifs <;> simp

theorem inv_onTimer (h : Inv m) (r : Reading)
    (hclear : m.userPaused = true → ¬ clearsLast m r) : Inv (m.onTimer r) := by
  have hbattery := inv_check h r .battery fun hp hc => hclear hp (.inl hc)
  have hactive := inv_check hbattery r .active fun hp hc =>
    hclear (by rwa [check_userPaused] at hp) (.inr hc)
  unfold Miner.onTimer
  cases r.stop with
  | false => exact hactive
  | true => exact hactive.frame rfl rfl rfl rfl hactive.paused

theorem inv_setEnabled (h : Inv m) (b : Bool) (hb : m.userPaused = true → b = false) :
    Inv (m.setEnabled b) := by
  refine h.frame (by simp) (by simp) (by simp) (by simp) fun hp => ?_
  rw [hb (by simpa using hp)]
  exact setEnabled_false

theorem inv_execCommand (h : Inv m) (c : Char) : Inv (m.execCommand c) := by
  unfold Miner.execCommand
  split
  case isTrue => exact h.frame (by simp) (by simp) (by simp) (by simp) fun _ => setEnabled_false
  case isFalse =>
    split
    case isTrue =>
      have hresumed : Inv { m with userPaused := false } := h.frame rfl rfl rfl rfl (by simp)
      exact inv_setEnabled hresumed true (by simp)
    case isFalse => exact h

theorem inv_step {t : Miner} {e : Event} (h : Inv m) (hok : Allowed m e)
    (hstep : step m e = some t) : Inv t := by
  cases e with
  | command c => exact Option.some.inj hstep ▸ inv_execCommand h c
  | timer r => exact Option.some.inj hstep ▸ inv_onTimer h r hok
  | config options =>
    obtain rfl := Option.some.inj hstep
    refine ⟨h.counter, fun reason => ?_, h.paused⟩
    cases reason with
    | battery => exact hok.1
    | active => exact hok.2
  | setJob ready =>
    obtain rfl := Option.some.inj hstep
    cases ready <;> exact h.frame rfl rfl rfl rfl h.paused
  | datasetReady =>
    obtain rfl := Option.some.inj hstep
    exact h.frame rfl rfl rfl rfl h.paused
  | pause =>
    obtain rfl := Option.some.inj hstep
    exact h.frame rfl rfl rfl rfl h.paused

/-- A pause command while on battery, then AC power again: the miner resumes by itself. -/
theorem manual_pause_lost : ¬ ∀ (options : Options) (events : List Event) (m : Miner),
    exec step { options } events = some m → Sticky m := by
  intro h
  have hrun := h ⟨true, false⟩ [.command 'p', .timer ⟨true, false, false⟩,
    .timer ⟨false, false, false⟩] _ rfl
  exact absurd (hrun.1 rfl) (by decide)

/-- In every run of allowed steps a user's pause holds until a resume command, and the
counter equals the number of reasons set whose option is on. -/
theorem manual_pause_sticky {options : Options} {events : List Event} {m : Miner}
    (hrun : Run step Allowed { options } events m) : Sticky m :=
  (hrun.invariant (fun _ _ _ hok h hstep => inv_step h hok hstep) (inv_start options)).sticky

/-- Both reasons come and go before the user resumes. -/
theorem manual_pause_sticky_run :
    (exec (guarded (fun m e => decide (Allowed m e)) step) { options := ⟨true, true⟩ }
      [.timer ⟨true, true, false⟩, .timer ⟨false, true, false⟩, .command 'p',
        .timer ⟨true, true, false⟩, .timer ⟨true, false, false⟩]).map
      (fun m => (m.autoPause, m.enabled)) = some (1, false) ∧
    ∃ m : Miner, m.autoPause = 1 ∧ Sticky m := by
  have hrun : (exec (guarded (fun m e => decide (Allowed m e)) step) { options := ⟨true, true⟩ }
      [.timer ⟨true, true, false⟩, .timer ⟨false, true, false⟩, .command 'p',
        .timer ⟨true, true, false⟩, .timer ⟨true, false, false⟩]).map
      (fun m => (m.autoPause, m.enabled)) = some (1, false) := by decide
  obtain ⟨m, hexec, hm⟩ := Option.map_eq_some_iff.mp hrun
  have hsticky := manual_pause_sticky (run_of_guarded (fun _ _ => of_decide_eq_true) hexec)
  exact ⟨hrun, m, congrArg Prod.fst hm, hsticky⟩

end VeloxHash.MinerPause
