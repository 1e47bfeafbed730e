import VeloxHash.TransitionSystem
import Mathlib.Tactic

/-! `AutoClient`: a client that speaks the protocol of `Client` or that of
`EthStratumClient`, by the form of its login reply. The ghost `login` is the form of the
last login reply taken on the current connection, `announced` the jobs announced since. -/

namespace VeloxHash.AutoClient

open TransitionSystem

inductive Mode
  | defaultMode
  | ethMode
  deriving DecidableEq, Repr

/-- What the clients compare of two jobs and copy into a result. -/
structure Job where
  id : String
  clientId : Option String
  blob : List UInt8
  diff : UInt64
  deriving DecidableEq, Repr

def Job.isValid (j : Job) : Bool := j.blob ≠ [] ∧ j.diff ≠ 0

/-- A login reply with a `job` member, or one without. `accepts` is what the checks of
`parseJob` make of the job, `algorithm` that `algo` is of the KawPow or GhostRider family,
`nonce` that `extra_nonce` parses. -/
inductive LoginReply
  | withJob (id : Option String) (accepts : Bool) (job : Job)
  | withAlgo (id : Option String) (algorithm nonce : Bool)
  deriving DecidableEq, Repr

def LoginReply.form : LoginReply → Mode
  | .withJob .. => .defaultMode
  | .withAlgo .. => .ethMode

inductive Call
  | loginSuccess
  | jobReceived (job : Job)
  | request (method : String) (jobId : String)
  deriving DecidableEq, Repr

structure Client where
  mode : Mode := .defaultMode
  connected : Bool := false
  rpcId : Option String := none
  authorized : Bool := false
  job : Option Job := none
  jobs : Nat := 0
  calls : List Call := []
  login : Option Mode := none
  announced : List Job := []
  deriving DecidableEq, Repr

/-- `job` and `miningNotify` are notifications; `parses` says that `mining.notify` passes
its checks, `enabled` what `onVerifyAlgorithm` answers. -/
inductive Event
  | connected
  | close
  | onClose
  | loginReply (reply : LoginReply)
  | job (accepts : Bool) (job : Job)
  | miningNotify (parses enabled : Bool) (job : Job)
  | submit (result : Job) (written : Bool)
  deriving DecidableEq, Repr

namespace Client

def emit (c : Client) (call : Call) : Client := { c with calls := call :: c.calls }

def close (c : Client) : Client := { c with connected := false }

/-- `onJobReceived` with `m_job`. -/
def announce (c : Client) : Client :=
  match c.job with
  | none => c
  | some job => emit { c with announced := job :: c.announced } (.jobReceived job)

/-- The job a line announces bears the client's rpc id. -/
def received (c : Client) (job : Job) : Job := { job with clientId := c.rpcId }

/-- `parseJob`. -/
def parseJob (c : Client) (accepts : Bool) (job : Job) : Client × Bool :=
  if !accepts then (c, false)
  else
    let kept := c.job.map c.received
    if kept ≠ some (c.received job) then
      ({ c with job := some (c.received job), jobs := c.jobs + 1 }, true)
    else if c.jobs = 0 then ({ c with job := kept }, false)
    else (close { c with job := kept }, false)

/-- `Client::parseLogin` for a reply with a job, else the rest of `AutoClient::parseLogin`. -/
def parseLogin (c : Client) : LoginReply → Client × Bool
  | .withJob id accepts job =>
    let c := { c with rpcId := id }
    if id.isNone then (c, false)
    else
      let next := c.parseJob accepts job
      ({ next.1 with jobs := 0 }, next.2)
  | .withAlgo id algorithm nonce =>
    let c := { c with rpcId := id }
    if id.isNone ∨ !algorithm ∨ !nonce then (c, false) else ({ c with mode := .ethMode }, true)

/-- `parseResponse` for the reply to the login. -/
def onLoginReply (c : Client) (reply : LoginReply) : Client :=
  let next := c.parseLogin reply
  if next.2 then
    let c := emit { next.1 with login := some reply.form, announced := [] } .loginSuccess
    if c.job.any Job.isValid then c.announce else c
  else close { next.1 with login := none, announced := [] }

/-- `Client::parseNotification` of a job. -/
def clientNotification (c : Client) (accepts : Bool) (job : Job) : Client :=
  let next := c.parseJob accepts job
  if next.2 then next.1.announce else next.1.close

/-- `EthStratumClient::parseNotification` of `mining.notify`. -/
def ethNotification (c : Client) (parses enabled : Bool) (job : Job) : Client :=
  if !parses then c
  else if !enabled then c.close
  else if c.job ≠ some job then
    let c := { c with job := some job }
    let c := if c.authorized then c else { c with authorized := true }.emit .loginSuccess
    c.announce
  else c.close

/-- `Client::submit`. -/
def clientSubmit (c : Client) (result : Job) (written : Bool) : Client :=
  if result.clientId ≠ c.rpcId ∨ c.rpcId.isNone ∨ !c.connected then c
  else if result.diff = 0 then c.close
  else if written then c.emit (.request "submit" result.id)
  else c

/-- `EthStratumClient::submit`. -/
def ethSubmit (c : Client) (result : Job) (written : Bool) : Client :=
  if !c.connected ∨ !c.authorized then c
  else if result.diff = 0 then c.close
  else if written then c.emit (.request "mining.submit" result.id)
  else c

def submit (c : Client) (result : Job) (written : Bool) : Client :=
  match c.mode with
  | .defaultMode => c.clientSubmit result written
  | .ethMode => c.ethSubmit result written

/-- `EthStratumClient::onClose`. -/
def onClose (c : Client) : Client :=
  { c with connected := false, authorized := false, login := none, announced := [] }

end Client

/-- A notification of the other protocol is ignored. -/
def step (c : Client) : Event → Option Client
  | .connected => some { c with connected := true }
  | .close => some c.close
  | .onClose => some c.onClose
  | .loginReply reply => some (c.onLoginReply reply)
  | .job accepts job =>
    some (if c.mode = .defaultMode then c.clientNotification accepts job else c)
  | .miningNotify parses enabled job =>
    some (if c.mode = .ethMode then c.ethNotification parses enabled job else c)
  | .submit result written => some (c.submit result written)

/-- The client follows its last login reply. -/
structure Follows (c : Client) : Prop where
  mode : ∀ form, c.login = some form → c.mode = form
  job : c.login = some .defaultMode → ∀ job t, c.job.map c.received ≠ some (c.received job) →
    step c (.job true job) = some t →
    t.job = some (c.received job) ∧ t.calls = .jobReceived (c.received job) :: c.calls
  submit : c.login = some .ethMode → c.connected = true → ∀ job ∈ c.announced, job.diff ≠ 0 →
    ∀ t, step c (.submit job true) = some t → t.calls = .request "mining.submit" job.id :: c.calls

/-- A reply with a job comes before any of the other form; one without a job comes while
the client has no valid job, or is authorized. -/
def Expected (c : Client) : Event → Prop
  | .loginReply (.withJob _ _ _) => c.mode = .defaultMode
  | .loginReply (.withAlgo _ _ _) => c.job.any Job.isValid = true → c.authorized = true
  | _ => True

instance (c : Client) (e : Event) : Decidable (Expected c e) := by
  unfold Expected
  split <;> infer_instance

/-- What every expected step preserves. -/
structure Inv (c : Client) : Prop where
  mode : ∀ form, c.login = some form → c.mode = form
  authorized : c.login = some .ethMode → c.announced ≠ [] → c.authorized = true

section Step

variable {c t : Client} {e : Event}

theorem inv_announce (h : Inv c) (hauthorized : c.login = some .ethMode → c.authorized = true) :
    Inv c.announce := by
  unfold Client.announce
  split
  · exact h
  · exact ⟨h.mode, fun hlogin _ => hauthorized hlogin⟩

/-- `parseJob` leaves all but the job, its count and the connection. -/
theorem parseJob_frame (accepts : Bool) (job : Job) :
    (c.parseJob accepts job).1.mode = c.mode ∧ (c.parseJob accepts job).1.login = c.login ∧
      (c.parseJob accepts job).1.announced = c.announced ∧
      (c.parseJob accepts job).1.authorized = c.authorized := by
  unfold Client.parseJob
  dsimp only
  split_ifs <;> exact ⟨rfl, rfl, rfl, rfl⟩

theorem inv_clientNotification (h : Inv c) (hmode : c.mode = .defaultMode) (accepts : Bool)
    (job : Job) : Inv (c.clientNotification accepts job) := by
  obtain ⟨hm, hl, ha, hz⟩ := parseJob_frame (c := c) accepts job
  have hparsed : Inv (c.parseJob accepts job).1 :=
    ⟨by rw [hl, hm]; exact h.mode, by rw [hl, ha, hz]; exact h.authorized⟩
  unfold Client.clientNotification
  dsimp only
  split_ifs
  · refine inv_announce hparsed fun hlogin => ?_
    rw [hl] at hlogin
    cases hmode.symm.trans (h.mode _ hlogin)
  · exact ⟨hparsed.mode, hparsed.authorized⟩

theorem inv_ethNotification (h : Inv c) (parses enabled : Bool) (job : Job) :
    Inv (c.ethNotification parses enabled job) := by
  unfold Client.ethNotification
  dsimp only
  split
  case isTrue => exact h
  case isFalse =>
    split
    case isTrue => exact ⟨h.mode, h.authorized⟩
    case isFalse =>
      split
      case isFalse => exact ⟨h.mode, h.authorized⟩
      case isTrue =>
        split
        case isTrue hauthorized => exact inv_announce ⟨h.mode, h.authorized⟩ fun _ => hauthorized
        case isFalse => exact inv_announce ⟨h.mode, fun _ _ => rfl⟩ fun _ => rfl

theorem parseLogin_mode (reply : LoginReply) (hmode : reply.form = .defaultMode →
    c.mode = .defaultMode) (hok : (c.parseLogin reply).2 = true) :
    (c.parseLogin reply).1.mode = reply.form := by
  cases reply with
  | withJob id accepts job =>
    unfold Client.parseLogin at hok ⊢
    dsimp only at hok ⊢
    split_ifs at hok ⊢
    exact (parseJob_frame accepts job).1.trans (hmode rfl)
  | withAlgo id algorithm nonce =>
    unfold Client.parseLogin at hok ⊢
    dsimp only at hok ⊢
    split_ifs at hok ⊢
    rfl

/-- A reply without a job leaves job and authorization as they are. -/
theorem parseLogin_withAlgo (id : Option String) (algorithm nonce : Bool) :
    (c.parseLogin (.withAlgo id algorithm nonce)).1.job = c.job ∧
      (c.parseLogin (.withAlgo id algorithm nonce)).1.authorized = c.authorized := by
  unfold Client.parseLogin
  dsimp only
  split_ifs <;> exact ⟨rfl, rfl⟩

theorem inv_onLoginReply (reply : LoginReply) (hok : Expected c (.loginReply reply)) :
    Inv (c.onLoginReply reply) := by
  unfold Client.onLoginReply
  dsimp only
  split
  case isFalse => exact ⟨nofun, nofun⟩
  case isTrue hparsed =>
    have hmode : (c.parseLogin reply).1.mode = reply.form := by
      refine parseLogin_mode reply (fun hform => ?_) hparsed
      cases reply with
      | withJob => exact hok
      | withAlgo => cases hform
    have hlogin : Inv (Client.emit { (c.parseLogin reply).1 with
        login := some reply.form, announced := [] } .loginSuccess) :=
      ⟨fun form hform => hmode.trans (Option.some.inj hform), fun _ hne => absurd rfl hne⟩
    split
    case isFalse => exact hlogin
    case isTrue hvalid =>
      refine inv_announce hlogin fun heth => ?_
      cases reply with
      | withJob => cases heth
      | withAlgo id algorithm nonce =>
        obtain ⟨hjob, hauthorized⟩ := parseLogin_withAlgo (c := c) id algorithm nonce
        have hvalid : (c.parseLogin (.withAlgo id algorithm nonce)).1.job.any Job.isValid = true :=
          hvalid
        rw [hjob] at hvalid
        exact hauthorized.trans (hok hvalid)

theorem inv_submit (h : Inv c) (result : Job) (written : Bool) : Inv (c.submit result written) := by
  unfold Client.submit Client.clientSubmit Client.ethSubmit
  split <;> split_ifs <;> first | exact h | exact ⟨h.mode, h.authorized⟩

theorem inv_step (h : Inv c) (hok : Expected c e) (hstep : step c e = some t) : Inv t := by
  cases e with
  | connected =>
    obtain rfl := Option.some.inj hstep
    exact ⟨h.mode, h.authorized⟩
  | close =>
    obtain rfl := Option.some.inj hstep
    exact ⟨h.mode, h.authorized⟩
  | onClose =>
    obtain rfl := Option.some.inj hstep
    exact ⟨nofun, nofun⟩
  | loginReply reply => exact Option.some.inj hstep ▸ inv_onLoginReply reply hok
  | job accepts job =>
    obtain rfl := Option.some.inj hstep
    split
    case isTrue hmode => exact inv_clientNotification h hmode accepts job
    case isFalse => exact h
  | miningNotify parses enabled job =>
    obtain rfl := Option.some.inj hstep
    split
    case isTrue => exact inv_ethNotification h parses enabled job
    case isFalse => exact h
  | submit result written => exact Option.some.inj hstep ▸ inv_submit h result written

theorem Inv.follows (h : Inv c) : Follows c where
  mode := h.mode
  job hlogin job t hnew hstep := by
    obtain rfl := Option.some.inj hstep
    rw [if_pos (h.mode _ hlogin)]
    simp [Client.clientNotification, Client.parseJob, hnew, Client.announce,
      Client.emit]
  submit hlogin hconnected job hjob hdiff t hstep := by
    obtain rfl := Option.some.inj hstep
    have hauthorized := h.authorized hlogin (List.ne_nil_of_mem hjob)
    simp [Client.submit, h.mode _ hlogin, Client.ethSubmit, hconnected, hauthorized, hdiff,
      Client.emit]

end Step

/-- After a reply of the ETH form, a reply with a job on the next connection leaves the
client deaf to job notifications. -/
theorem mode_survives : ¬ ∀ (events : List Event) (c : Client),
    exec step {} events = some c → Follows c := by
  intro h
  have hrun := h [.connected, .loginReply (.withAlgo (some "a") true true), .onClose, .connected,
    .loginReply (.withJob (some "b") true ⟨"1", none, [1], 1000⟩)] _ rfl
  exact absurd (hrun.mode .defaultMode rfl) (by decide)

/-- In every run of expected login replies the client follows the last one. -/
theorem login_followed {events : List Event} {c : Client}
    (hrun : Run step Expected {} events c) : Follows c :=
  (hrun.invariant (I := Inv) (fun _ _ _ hok h hstep => inv_step h hok hstep)
    ⟨nofun, nofun⟩).follows

/-- A job of a `mining.notify` is announced and its result submitted. -/
theorem login_followed_run :
    (exec (guarded (fun c e => decide (Expected c e)) step) {}
      [.connected, .loginReply (.withAlgo (some "a") true true),
        .miningNotify true true ⟨"1", none, [1], 1000⟩]).map
      (fun c => (c.login, c.connected, c.announced)) =
      some (some .ethMode, true, [⟨"1", none, [1], 1000⟩]) ∧
    ∃ c t : Client, step c (.submit ⟨"1", none, [1], 1000⟩ true) = some t ∧
      t.calls = .request "mining.submit" "1" :: c.calls := by
  have hrun : (exec (guarded (fun c e => decide (Expected c e)) step) {}
      [.connected, .loginReply (.withAlgo (some "a") true true),
        .miningNotify true true ⟨"1", none, [1], 1000⟩]).map
      (fun c => (c.login, c.connected, c.announced)) =
      some (some .ethMode, true, [⟨"1", none, [1], 1000⟩]) := by decide
  obtain ⟨c, hexec, hc⟩ := Option.map_eq_some_iff.mp hrun
  obtain ⟨hlogin, hconnected, hannounced⟩ : c.login = some .ethMode ∧ c.connected = true ∧
      c.announced = [⟨"1", none, [1], 1000⟩] := by simpa using hc
  have hfollows := login_followed (run_of_guarded (fun _ _ => of_decide_eq_true) hexec)
  exact ⟨hrun, c, _, rfl, hfollows.submit hlogin hconnected ⟨"1", none, [1], 1000⟩
    (by simp [hannounced]) (by decide) _ rfl⟩

end VeloxHash.AutoClient
