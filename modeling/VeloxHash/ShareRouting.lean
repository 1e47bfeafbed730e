import VeloxHash.FailoverStrategy

/-! `Network` without donation: the clients of its pool strategy, the jobs handed to the
miner, and the results that come back after any delay. A connection is a session; the
ghosts of a job say which client announced it, in which session, and in which epoch of the
network. An epoch ends with a connection opening or closing, a login, or a stop. -/

namespace VeloxHash.ShareRouting

open TransitionSystem

inductive Kind
  | stratum
  | eth
  deriving DecidableEq, Repr

/-- A job with its `m_clientId`; a job of an `EthStratumClient` has none. -/
structure Job where
  id : Nat
  clientId : Option Nat
  client : Nat
  session : Nat
  epoch : Nat
  deriving DecidableEq, Repr

structure Client where
  kind : Kind
  connected : Bool := false
  rpcId : Option Nat := none
  authorized : Bool := false
  job : Option Job := none
  session : Nat := 0
  loggedIn : Bool := false
  deriving DecidableEq, Repr

/-- A share message with the session of the client that sent it. -/
structure Share where
  client : Nat
  session : Nat
  job : Job
  deriving DecidableEq, Repr

structure Network where
  strategy : PoolStrategy
  clients : Nat → Client
  mined : List Job := []
  sent : List Share := []
  epoch : Nat := 0
  used : List Nat := []

/-- `closed` is the close callback of a socket, `reconnect` a failed lookup or a
`client.reconnect`; `loginReply` and `authorized` are the answers to the two login requests, `duplicate` is
a notification of the job the client has. -/
inductive Event
  | connect
  | resume
  | stop
  | opened (i : Nat)
  | closing (i : Nat)
  | closed (i : Nat) (failures : Int)
  | reconnect (i : Nat) (failures : Int)
  | loginReply (i : Nat) (rpcId : Option Nat) (accepts : Bool) (job : Nat)
  | authorized (i : Nat)
  | job (i : Nat) (id : Nat)
  | duplicate (i : Nat)
  | result (job : Job) (diff : UInt64) (written : Bool)
  deriving DecidableEq, Repr

namespace Client

def close (c : Client) : Client := { c with connected := false }

/-- A connection is made. -/
def onConnect (c : Client) : Client :=
  { c with connected := true, session := c.session + 1, loggedIn := false }

/-- The guards of `submit`, up to the one on `result.diff`. -/
def refuses (c : Client) (result : Job) : Bool :=
  match c.kind with
  | .stratum => result.clientId != c.rpcId || c.rpcId.isNone || !c.connected
  | .eth => !c.connected || !c.authorized

end Client

namespace Network

def setClient (n : Network) (i : Nat) (c : Client) : Network :=
  { n with clients := Function.update n.clients i c }

/-- What the network does on a word of its strategy; `connect` and `disconnect` leave
`ConnectedState`. -/
def observe (n : Network) : FailoverStrategy.Observation → Network
  | .command i .connect | .command i .disconnect => n.setClient i (n.clients i).close
  | .onJob i => { n with mined := (n.clients i).job.toList ++ n.mined }
  | _ => n

def tell (n : Network) (e : FailoverStrategy.Event) : Network :=
  let next := n.strategy.handle e
  next.2.foldl observe { n with strategy := next.1 }

def nextEpoch (n : Network) : Network := { n with epoch := n.epoch + 1 }

/-- The job a line of client `i` announces. -/
def announce (n : Network) (i : Nat) (clientId : Option Nat) (id : Nat) : Job where
  id := id
  clientId := clientId
  client := i
  session := (n.clients i).session
  epoch := n.epoch

def setJob (n : Network) (i : Nat) (clientId : Option Nat) (id : Nat) : Network :=
  n.setClient i { n.clients i with job := some (n.announce i clientId id) }

/-- `setRpcId` in a login reply; the id counts as used from then on. -/
def setRpcId (n : Network) (i : Nat) (rpcId : Option Nat) : Network :=
  { n.setClient i { n.clients i with rpcId, loggedIn := true } with
    used := rpcId.toList ++ n.used }

def setAuthorized (n : Network) (i : Nat) : Network :=
  n.setClient i { n.clients i with authorized := true }

/-- `parseLogin` and what follows it in `parseResponse`. -/
def loginReply (n : Network) (i : Nat) (rpcId : Option Nat) (accepts : Bool) (job : Nat) :
    Network :=
  let n := n.nextEpoch.setRpcId i rpcId
  if rpcId.isNone ∨ !accepts then n.setClient i (n.clients i).close
  else ((n.setJob i rpcId job).tell (.loginSuccess i)).tell (.jobReceived i)

/-- `onAuthorizeResponse`. -/
def onAuthorizeResponse (n : Network) (i : Nat) : Network :=
  if (n.clients i).authorized then n
  else (n.nextEpoch.setAuthorized i).tell (.loginSuccess i)

/-- A notification of a job that is new to the client. -/
def onNotify (n : Network) (i id : Nat) : Network :=
  match (n.clients i).kind with
  | .stratum => (n.setJob i (n.clients i).rpcId id).tell (.jobReceived i)
  | .eth =>
    if (n.clients i).authorized then (n.setJob i none id).tell (.jobReceived i)
    else
      ((((n.nextEpoch).setJob i none id).setAuthorized i).tell (.loginSuccess i)).tell
        (.jobReceived i)

/-- A notification of the job the client has: a stratum client takes over its rpc id into
the job it keeps. -/
def onDuplicate (n : Network) (i : Nat) : Network :=
  let kept := match (n.clients i).kind, (n.clients i).job with
    | .stratum, some job => n.setJob i (n.clients i).rpcId job.id
    | _, _ => n
  kept.setClient i (kept.clients i).close

/-- The client a result would go to. -/
def target (s : PoolStrategy) : Option Nat :=
  match (s.handle .submit).2 with
  | [.command i .submit] => some i
  | _ => none

/-- `onJobResult`. -/
def onJobResult (n : Network) (result : Job) (diff : UInt64) (written : Bool) : Network :=
  match target n.strategy with
  | none => n
  | some i =>
    if (n.clients i).refuses result then n
    else if diff = 0 then n.setClient i (n.clients i).close
    else if written then { n with sent := ⟨i, (n.clients i).session, result⟩ :: n.sent }
    else n

end Network

/-- Rpc ids of logins are distinct; only jobs the miner had can be solved. -/
def enabled (n : Network) : Event → Bool
  | .opened i | .closing i | .closed i _ | .reconnect i _ | .job i _ | .duplicate i => i < n.strategy.pools
  | .loginReply i rpcId _ _ => i < n.strategy.pools && rpcId.all (· ∉ n.used)
  | .authorized i => i < n.strategy.pools && (n.clients i).kind == .eth
  | .result job _ _ => job ∈ n.mined
  | _ => true

def handle (n : Network) : Event → Network
  | .connect => n.tell .connect
  | .resume => n.tell .resume
  | .stop => n.nextEpoch.tell .stop
  | .opened i => n.nextEpoch.setClient i (n.clients i).onConnect
  | .closing i => n.setClient i (n.clients i).close
  | .closed i failures =>
    (n.nextEpoch.setClient i { (n.clients i).close with authorized := false }).tell
      (.close i failures)
  | .reconnect i failures =>
    (n.nextEpoch.setClient i (n.clients i).close).tell (.close i failures)
  | .loginReply i rpcId accepts job => n.loginReply i rpcId accepts job
  | .authorized i => n.onAuthorizeResponse i
  | .job i id => n.onNotify i id
  | .duplicate i => n.onDuplicate i
  | .result job diff written => n.onJobResult job diff written

def step (n : Network) (e : Event) : Option Network :=
  if enabled n e then some (handle n e) else none

/-- A share is for a job that its client announced in the session it is sent in. -/
def Share.Own (share : Share) : Prop :=
  share.job.client = share.client ∧ share.job.session = share.session

/-- A result with the rpc id of a stratum client does not reach it between a connection and
its login reply; a result reaches an `EthStratumClient` in the epoch its job was announced. -/
def Timely (n : Network) : Event → Prop
  | .result job _ _ =>
    ∀ i, Network.target n.strategy = some i →
      match (n.clients i).kind with
      | .stratum => (n.clients i).connected = true → (n.clients i).rpcId = job.clientId →
          (n.clients i).loggedIn = true
      | .eth => (n.clients i).connected = true → (n.clients i).authorized = true →
          job.epoch = n.epoch
  | _ => True

instance (n : Network) (e : Event) : Decidable (Timely n e) :=
  match e with
  | .result job _ _ =>
    match htarget : Network.target n.strategy with
    | none => isTrue fun i hi => by simp [htarget] at hi
    | some k =>
      match hkind : (n.clients k).kind with
      | .stratum =>
        decidable_of_iff ((n.clients k).connected = true → (n.clients k).rpcId = job.clientId →
            (n.clients k).loggedIn = true)
          ⟨fun h i hi => by obtain rfl := Option.some.inj (htarget.symm.trans hi); simpa [hkind] using h,
            fun h => by simpa [hkind] using h k htarget⟩
      | .eth =>
        decidable_of_iff ((n.clients k).connected = true → (n.clients k).authorized = true →
            job.epoch = n.epoch)
          ⟨fun h i hi => by obtain rfl := Option.some.inj (htarget.symm.trans hi); simpa [hkind] using h,
            fun h => by simpa [hkind] using h k htarget⟩
  | .connect | .resume | .stop | .opened _ | .closing _ | .closed _ _ | .reconnect _ _
  | .loginReply _ _ _ _ | .authorized _ | .job _ _ | .duplicate _ => isTrue trivial

/-- A job the miner or a client has. -/
def Known (n : Network) (job : Job) : Prop := job ∈ n.mined ∨ ∃ i, (n.clients i).job = some job

/-- What every timely step preserves: an rpc id belongs to one client and, after its login
reply, to one session; in the epoch of its announcement a job is with the client that
results go to. -/
structure Inv (n : Network) : Prop where
  used : ∀ job, Known n job → ∀ id, job.clientId = some id → id ∈ n.used
  rpc : ∀ i id, (n.clients i).rpcId = some id → id ∈ n.used
  unique : ∀ i k id, (n.clients i).rpcId = some id → (n.clients k).rpcId = some id → i = k
  login : ∀ i id, (n.clients i).loggedIn = true → (n.clients i).rpcId = some id →
    ∀ job, Known n job → job.clientId = some id →
      job.client = i ∧ job.session = (n.clients i).session
  epoch : ∀ job, Known n job → job.epoch ≤ n.epoch
  own : ∀ i job, (n.clients i).job = some job →
    job.client = i ∧ (job.epoch = n.epoch → job.session = (n.clients i).session)
  mined : ∀ job ∈ n.mined, job.epoch = n.epoch →
    Network.target n.strategy = some job.client ∧ job.session = (n.clients job.client).session
  sent : ∀ share ∈ n.sent, share.Own

section Step

variable {n t : Network} {i : Nat}

/-- Everything the invariant reads of the clients but their sessions' jobs is kept. -/
theorem Inv.frame (h : Inv n) (hused : t.used = n.used) (hepoch : t.epoch = n.epoch)
    (hmined : t.mined = n.mined) (hsent : t.sent = n.sent)
    (hstrategy : Network.target t.strategy = Network.target n.strategy)
    (hclients : ∀ k, (t.clients k).rpcId = (n.clients k).rpcId ∧
      (t.clients k).loggedIn = (n.clients k).loggedIn ∧ (t.clients k).job = (n.clients k).job ∧
      (t.clients k).session = (n.clients k).session) : Inv t := by
  have hknown (job : Job) (hjob : Known t job) : Known n job := by
    rcases hjob with hjob | ⟨k, hk⟩
    · exact .inl (hmined ▸ hjob)
    · exact .inr ⟨k, (hclients k).2.2.1 ▸ hk⟩
  constructor
  · intro job hjob id hid
    rw [hused]
    exact h.used job (hknown job hjob) id hid
  · intro k id hid
    rw [hused]
    exact h.rpc k id ((hclients k).1 ▸ hid)
  · intro k l id hk hl
    exact h.unique k l id ((hclients k).1 ▸ hk) ((hclients l).1 ▸ hl)
  · intro k id hlog hid job hjob hclient
    rw [(hclients k).2.2.2]
    exact h.login k id ((hclients k).2.1 ▸ hlog) ((hclients k).1 ▸ hid) job (hknown job hjob) hclient
  · intro job hjob
    rw [hepoch]
    exact h.epoch job (hknown job hjob)
  · intro k job hjob
    rw [hepoch, (hclients k).2.2.2]
    exact h.own k job ((hclients k).2.2.1 ▸ hjob)
  · intro job hjob hnow
    rw [hstrategy, (hclients job.client).2.2.2]
    exact h.mined job (hmined ▸ hjob) (hepoch ▸ hnow)
  · rw [hsent]
    exact h.sent

theorem setClient_frame {β : Type} (f : Client → β) {c : Client} (hc : f c = f (n.clients i))
    (k : Nat) : f ((n.setClient i c).clients k) = f (n.clients k) := by
  by_cases hk : k = i
  · subst hk
    simpa [Network.setClient] using hc
  · simp [Network.setClient, hk]

/-- A change of a client's connection and authorisation. -/
theorem inv_setClient (h : Inv n) {c : Client} (hrpc : c.rpcId = (n.clients i).rpcId)
    (hlogged : c.loggedIn = (n.clients i).loggedIn) (hjob : c.job = (n.clients i).job)
    (hsession : c.session = (n.clients i).session) : Inv (n.setClient i c) :=
  h.frame rfl rfl rfl rfl rfl fun k => ⟨setClient_frame Client.rpcId hrpc k,
    setClient_frame Client.loggedIn hlogged k, setClient_frame Client.job hjob k,
    setClient_frame Client.session hsession k⟩

theorem inv_close (h : Inv n) (i : Nat) : Inv (n.setClient i (n.clients i).close) :=
  inv_setClient h rfl rfl rfl rfl

/-- A new epoch: no job is of it yet. -/
theorem inv_nextEpoch (h : Inv n) : Inv n.nextEpoch where
  used := h.used
  rpc := h.rpc
  unique := h.unique
  login := h.login
  epoch job hjob := (h.epoch job hjob).trans (Nat.le_succ _)
  own k job hjob := by
    refine ⟨(h.own k job hjob).1, fun hnow => ?_⟩
    have hle := h.epoch job (.inr ⟨k, hjob⟩)
    have hnow : job.epoch = n.epoch + 1 := hnow
    omega
  mined job hjob hnow := by
    have hle := h.epoch job (.inl hjob)
    have hnow : job.epoch = n.epoch + 1 := hnow
    omega
  sent := h.sent

/-- No job of the current epoch is being mined. -/
def Stale (n : Network) : Prop := ∀ job ∈ n.mined, job.epoch ≠ n.epoch

theorem stale_nextEpoch (h : Inv n) : Stale n.nextEpoch := by
  intro job hjob hnow
  have hle := h.epoch job (.inl hjob)
  have hnow : job.epoch = n.epoch + 1 := hnow
  omega

theorem inv_observe (h : Inv n) {o : FailoverStrategy.Observation}
    (hjob : ∀ k, o = .onJob k → Network.target n.strategy = some k) :
    Inv (n.observe o) ∧ (n.observe o).strategy = n.strategy := by
  cases o with
  | command k c => cases c <;> first | exact ⟨inv_close h k, rfl⟩ | exact ⟨h, rfl⟩
  | onJob k =>
    refine ⟨?_, rfl⟩
    cases hk : (n.clients k).job with
    | none => simpa [Network.observe, hk] using h
    | some job =>
      have hknown (other : Job) (ho : Known (n.observe (.onJob k)) other) : Known n other := by
        rcases ho with ho | ho
        · rcases List.mem_append.mp ho with hnew | hold
          · exact .inr ⟨k, by simpa using hnew⟩
          · exact .inl hold
        · exact .inr ho
      refine ⟨fun other ho => h.used other (hknown other ho), h.rpc, h.unique,
        fun l id hl hid other ho => h.login l id hl hid other (hknown other ho),
        fun other ho => h.epoch other (hknown other ho), h.own, fun other ho hnow => ?_, h.sent⟩
      rcases List.mem_append.mp ho with hnew | hold
      · obtain ⟨hclient, hsession⟩ := h.own k other (by simpa using hnew)
        rw [hclient]
        exact ⟨hjob k rfl, hsession hnow⟩
      · exact h.mined other hold hnow
  | _ => exact ⟨h, rfl⟩

theorem inv_foldl_observe {observations : List FailoverStrategy.Observation} (h : Inv n)
    (hjob : ∀ k, .onJob k ∈ observations → Network.target n.strategy = some k) :
    Inv (observations.foldl Network.observe n) := by
  induction observations generalizing n with
  | nil => exact h
  | cons o rest ih =>
    obtain ⟨hnext, hsame⟩ := inv_observe h (o := o) fun k ho => hjob k (by simp [ho])
    refine ih hnext fun k hk => ?_
    rw [hsame]
    exact hjob k (List.mem_cons_of_mem _ hk)

/-- The strategy may send results elsewhere only when no job of the epoch is mined. -/
theorem inv_tell (h : Inv n) {e : FailoverStrategy.Event}
    (htarget : Network.target (n.strategy.handle e).1 = Network.target n.strategy ∨ Stale n)
    (hjob : ∀ k, .onJob k ∈ (n.strategy.handle e).2 →
      Network.target (n.strategy.handle e).1 = some k) : Inv (n.tell e) := by
  have hmoved : Inv { n with strategy := (n.strategy.handle e).1 } := by
    refine ⟨h.used, h.rpc, h.unique, h.login, h.epoch, h.own, fun job hmem hnow => ?_, h.sent⟩
    rcases htarget with htarget | hstale
    · simp only [htarget]
      exact h.mined job hmem hnow
    · exact absurd hnow (hstale job hmem)
  exact inv_foldl_observe hmoved hjob

theorem target_failover (s : FailoverStrategy.Strategy) :
    Network.target (.failover s) = s.active := by
  cases hactive : s.active <;>
    simp [Network.target, PoolStrategy.handle, FailoverStrategy.Strategy.handle,
      FailoverStrategy.Strategy.submit, hactive]

/-- A login, a close and a stop hand on no job. -/
theorem no_job (s : PoolStrategy) {e : FailoverStrategy.Event} (k : Nat)
    (he : e = .loginSuccess i ∨ (∃ failures, e = .close i failures) ∨ e = .stop ∨ e = .connect) :
    .onJob k ∉ (s.handle e).2 := by
  cases s with
  | single s =>
    rcases he with rfl | ⟨failures, rfl⟩ | rfl | rfl <;>
      simp only [PoolStrategy.handle, SinglePoolStrategy.handle, SinglePoolStrategy.onClose] <;>
      try split_ifs
    all_goals simp
  | failover s =>
    rcases he with rfl | ⟨failures, rfl⟩ | rfl | rfl
    · obtain ⟨active, -, ⟨-, hcase⟩ | ⟨-, hcase⟩⟩ := FailoverStrategy.onLoginSuccess_cases s i <;>
        simp [PoolStrategy.handle, FailoverStrategy.Strategy.handle, hcase]
    · simp only [PoolStrategy.handle, FailoverStrategy.Strategy.handle,
        FailoverStrategy.Strategy.onClose, FailoverStrategy.Strategy.advance]
      split_ifs <;> simp
    · simp [PoolStrategy.handle, FailoverStrategy.Strategy.handle, FailoverStrategy.Strategy.stop]
    · simp [PoolStrategy.handle, FailoverStrategy.Strategy.handle,
        FailoverStrategy.Strategy.connect]

/-- A job that is handed on comes from the client results go to. -/
theorem job_target (s : PoolStrategy) {e : FailoverStrategy.Event} {k : Nat}
    (he : e = .resume ∨ e = .jobReceived i ∧ i < s.pools) :
    Network.target (s.handle e).1 = Network.target s ∧
      (.onJob k ∈ (s.handle e).2 → Network.target (s.handle e).1 = some k) := by
  cases s with
  | single s =>
    refine ⟨rfl, fun hjob => ?_⟩
    rw [show Network.target ((PoolStrategy.single s).handle e).1 = some 0 from rfl]
    rcases he with rfl | ⟨rfl, hi⟩
    · simp only [PoolStrategy.handle, SinglePoolStrategy.handle] at hjob
      split_ifs at hjob
      · simpa [eq_comm] using hjob
      · cases hjob
    · obtain rfl : k = i := by simpa [PoolStrategy.handle, SinglePoolStrategy.handle] using hjob
      have hi : k < 1 := hi
      obtain rfl : k = 0 := by omega
      rfl
  | failover s =>
    rcases he with rfl | ⟨rfl, -⟩
    · cases hactive : s.active with
      | none =>
        simp [PoolStrategy.handle, FailoverStrategy.Strategy.handle,
          FailoverStrategy.Strategy.resume, hactive]
      | some a =>
        simp [PoolStrategy.handle, FailoverStrategy.Strategy.handle,
          FailoverStrategy.Strategy.resume, hactive, target_failover, eq_comm]
    · refine ⟨rfl, fun hjob => ?_⟩
      simp only [PoolStrategy.handle, FailoverStrategy.Strategy.handle,
        FailoverStrategy.Strategy.onJobReceived] at hjob ⊢
      split_ifs at hjob with hactive
      · obtain rfl : k = i := by simpa using hjob
        rw [target_failover, hactive]
      · cases hjob

theorem inv_tell_job (h : Inv n) {e : FailoverStrategy.Event}
    (he : e = .resume ∨ e = .jobReceived i ∧ i < n.strategy.pools) : Inv (n.tell e) :=
  inv_tell h (.inl (job_target (k := 0) n.strategy he).1) fun _ => (job_target n.strategy he).2

theorem inv_tell_stale (h : Inv n) (hstale : Stale n) {e : FailoverStrategy.Event}
    (he : e = .loginSuccess i ∨ (∃ failures, e = .close i failures) ∨ e = .stop ∨ e = .connect) :
    Inv (n.tell e) :=
  inv_tell h (.inr hstale) fun k hk => absurd hk (no_job n.strategy k he)

theorem observe_strategy (o : FailoverStrategy.Observation) :
    (n.observe o).strategy = n.strategy := by
  cases o with
  | command k c => cases c <;> rfl
  | _ => rfl

theorem tell_pools (e : FailoverStrategy.Event) :
    (n.tell e).strategy.pools = n.strategy.pools := by
  have hfold (observations : List FailoverStrategy.Observation) (m : Network) :
      (observations.foldl Network.observe m).strategy = m.strategy := by
    induction observations generalizing m with
    | nil => rfl
    | cons o rest ih => rw [List.foldl_cons, ih, observe_strategy]
  rw [Network.tell, hfold]
  cases n.strategy with
  | single s => rfl
  | failover s => exact FailoverStrategy.handle_pools s e

/-- A line with a job for a client: the job bears the client's rpc id, or none. -/
theorem inv_setJob (h : Inv n) {clientId : Option Nat} {id : Nat}
    (hclient : ∀ rpcId, clientId = some rpcId → (n.clients i).rpcId = some rpcId) :
    Inv (n.setJob i clientId id) := by
  have hrpc := setClient_frame (n := n) (i := i) Client.rpcId
    (c := { n.clients i with job := some (n.announce i clientId id) }) rfl
  have hlogged := setClient_frame (n := n) (i := i) Client.loggedIn
    (c := { n.clients i with job := some (n.announce i clientId id) }) rfl
  have hsession := setClient_frame (n := n) (i := i) Client.session
    (c := { n.clients i with job := some (n.announce i clientId id) }) rfl
  have hjob (k : Nat) (job : Job) (hk : ((n.setJob i clientId id).clients k).job = some job) :
      (n.clients k).job = some job ∨ k = i ∧ job = n.announce i clientId id := by
    by_cases hki : k = i
    · subst hki
      refine .inr ⟨rfl, ?_⟩
      simpa [Network.setJob, Network.setClient, eq_comm] using hk
    · refine .inl ?_
      simpa [Network.setJob, Network.setClient, hki] using hk
  have hknown (job : Job) (hk : Known (n.setJob i clientId id) job) :
      Known n job ∨ job = n.announce i clientId id := by
    rcases hk with hk | ⟨k, hk⟩
    · exact .inl (.inl hk)
    · exact (hjob k job hk).imp (fun hold => .inr ⟨k, hold⟩) And.right
  constructor
  · intro job hk rpcId hid
    rcases hknown job hk with hold | rfl
    · exact h.used job hold rpcId hid
    · exact h.rpc i rpcId (hclient rpcId hid)
  · exact fun k rpcId hid => h.rpc k rpcId (hrpc k ▸ hid)
  · exact fun k l rpcId hk hl => h.unique k l rpcId (hrpc k ▸ hk) (hrpc l ▸ hl)
  · intro k rpcId hlog hid job hk hcid
    have hid : (n.clients k).rpcId = some rpcId := hrpc k ▸ hid
    rw [show ((n.setJob i clientId id).clients k).session = (n.clients k).session from hsession k]
    rcases hknown job hk with hold | rfl
    · exact h.login k rpcId (hlogged k ▸ hlog) hid job hold hcid
    · obtain rfl := h.unique k i rpcId hid (hclient rpcId hcid)
      exact ⟨rfl, rfl⟩
  · intro job hk
    rcases hknown job hk with hold | rfl
    · exact h.epoch job hold
    · exact Nat.le_refl _
  · intro k job hk
    rw [show ((n.setJob i clientId id).clients k).session = (n.clients k).session from hsession k]
    rcases hjob k job hk with hold | ⟨rfl, rfl⟩
    · exact h.own k job hold
    · exact ⟨rfl, fun _ => rfl⟩
  · intro job hk hnow
    rw [show ((n.setJob i clientId id).clients job.client).session =
      (n.clients job.client).session from hsession job.client]
    exact h.mined job hk hnow
  · exact h.sent

/-- A login reply: no job bears the new id yet, and no other client. -/
theorem inv_setRpcId (h : Inv n) {rpcId : Option Nat}
    (hfresh : ∀ id, rpcId = some id → id ∉ n.used) : Inv (n.setRpcId i rpcId) := by
  have hsession := setClient_frame (n := n) (i := i) Client.session
    (c := { n.clients i with rpcId, loggedIn := true }) rfl
  have hjob := setClient_frame (n := n) (i := i) Client.job
    (c := { n.clients i with rpcId, loggedIn := true }) rfl
  have hknown (job : Job) (hk : Known (n.setRpcId i rpcId) job) : Known n job := by
    rcases hk with hk | ⟨k, hk⟩
    · exact .inl hk
    · exact .inr ⟨k, hjob k ▸ hk⟩
  have hrpc (k : Nat) (id : Nat) (hk : ((n.setRpcId i rpcId).clients k).rpcId = some id) :
      k = i ∧ rpcId = some id ∨ k ≠ i ∧ (n.clients k).rpcId = some id := by
    by_cases hki : k = i
    · subst hki
      exact .inl ⟨rfl, by simpa [Network.setRpcId, Network.setClient] using hk⟩
    · exact .inr ⟨hki, by simpa [Network.setRpcId, Network.setClient, hki] using hk⟩
  have hold {id : Nat} (hid : id ∈ n.used) : id ∈ (n.setRpcId i rpcId).used :=
    List.mem_append_right _ hid
  constructor
  · exact fun job hk id hid => hold (h.used job (hknown job hk) id hid)
  · intro k id hk
    rcases hrpc k id hk with ⟨-, hnew⟩ | ⟨-, hk⟩
    · exact List.mem_append_left _ (by simp [hnew])
    · exact hold (h.rpc k id hk)
  · intro k l id hk hl
    rcases hrpc k id hk with ⟨hki, hnew⟩ | ⟨-, hkold⟩ <;>
      rcases hrpc l id hl with ⟨hli, hnew'⟩ | ⟨-, hlold⟩
    · exact hki.trans hli.symm
    · exact absurd (h.rpc l id hlold) (hfresh id hnew)
    · exact absurd (h.rpc k id hkold) (hfresh id hnew')
    · exact h.unique k l id hkold hlold
  · intro k id hlog hk job hjob hcid
    rcases hrpc k id hk with ⟨rfl, hnew⟩ | ⟨hki, hk⟩
    · exact absurd (h.used job (hknown job hjob) id hcid) (hfresh id hnew)
    · rw [show ((n.setRpcId i rpcId).clients k).session = (n.clients k).session from hsession k]
      have hlog : (n.clients k).loggedIn = true := by
        simpa [Network.setRpcId, Network.setClient, hki] using hlog
      exact h.login k id hlog hk job (hknown job hjob) hcid
  · exact fun job hk => h.epoch job (hknown job hk)
  · intro k job hk
    rw [show ((n.setRpcId i rpcId).clients k).session = (n.clients k).session from hsession k]
    exact h.own k job (hjob k ▸ hk)
  · intro job hk hnow
    rw [show ((n.setRpcId i rpcId).clients job.client).session =
      (n.clients job.client).session from hsession job.client]
    exact h.mined job hk hnow
  · exact h.sent

/-- A connection opens: a new session, and nobody is logged in on it. -/
theorem inv_opened (h : Inv n) (i : Nat) :
    Inv (n.nextEpoch.setClient i (n.clients i).onConnect) := by
  have hnext := inv_nextEpoch h
  have hrpc := setClient_frame (n := n.nextEpoch) (i := i) Client.rpcId
    (c := (n.clients i).onConnect) rfl
  have hjob := setClient_frame (n := n.nextEpoch) (i := i) Client.job
    (c := (n.clients i).onConnect) rfl
  have hknown (job : Job) (hk : Known (n.nextEpoch.setClient i (n.clients i).onConnect) job) :
      Known n job := by
    rcases hk with hk | ⟨k, hk⟩
    · exact .inl hk
    · exact .inr ⟨k, hjob k ▸ hk⟩
  have hstale (job : Job) (hk : Known n job) : job.epoch ≠ n.epoch + 1 := by
    have hle := h.epoch job hk
    omega
  constructor
  · exact fun job hk => hnext.used job (hknown job hk)
  · exact fun k id hid => hnext.rpc k id (hrpc k ▸ hid)
  · exact fun k l id hk hl => hnext.unique k l id (hrpc k ▸ hk) (hrpc l ▸ hl)
  · intro k id hlog hid job hk hcid
    by_cases hki : k = i
    · subst hki
      simp [Network.setClient, Client.onConnect] at hlog
    · have hlog : (n.clients k).loggedIn = true := by
        simpa [Network.setClient, Network.nextEpoch, hki] using hlog
      have hlogin := h.login k id hlog (hrpc k ▸ hid) job (hknown job hk) hcid
      simpa [Network.setClient, Network.nextEpoch, hki] using hlogin
  · exact fun job hk => hnext.epoch job (hknown job hk)
  · intro k job hk
    have hold : (n.clients k).job = some job := hjob k ▸ hk
    exact ⟨(h.own k job hold).1, fun hnow => absurd hnow (hstale job (.inr ⟨k, hold⟩))⟩
  · exact fun job hk hnow => absurd hnow (hstale job (.inl hk))
  · exact h.sent

theorem inv_loginReply (h : Inv n) (hi : i < n.strategy.pools) {rpcId : Option Nat}
    (hfresh : ∀ id, rpcId = some id → id ∉ n.used) (accepts : Bool) (job : Nat) :
    Inv (n.loginReply i rpcId accepts job) := by
  have hlogin : Inv (n.nextEpoch.setRpcId i rpcId) := inv_setRpcId (inv_nextEpoch h) hfresh
  unfold Network.loginReply
  dsimp only
  split
  case isTrue => exact inv_close hlogin i
  case isFalse =>
    have hjob : Inv ((n.nextEpoch.setRpcId i rpcId).setJob i rpcId job) :=
      inv_setJob hlogin fun id hid => by simp [Network.setRpcId, Network.setClient, hid]
    have hstale : Stale ((n.nextEpoch.setRpcId i rpcId).setJob i rpcId job) := stale_nextEpoch h
    exact inv_tell_job (inv_tell_stale hjob hstale (.inl rfl))
      (.inr ⟨rfl, by rw [tell_pools]; exact hi⟩)

theorem inv_onAuthorizeResponse (h : Inv n) (i : Nat) : Inv (n.onAuthorizeResponse i) := by
  unfold Network.onAuthorizeResponse
  split
  case isTrue => exact h
  case isFalse =>
    have hauthorized : Inv (n.nextEpoch.setAuthorized i) :=
      inv_setClient (inv_nextEpoch h) rfl rfl rfl rfl
    exact inv_tell_stale hauthorized (stale_nextEpoch h) (.inl rfl)

theorem inv_onNotify (h : Inv n) (hi : i < n.strategy.pools) (id : Nat) :
    Inv (n.onNotify i id) := by
  unfold Network.onNotify
  split
  case h_1 => exact inv_tell_job (inv_setJob h fun _ hid => hid) (.inr ⟨rfl, hi⟩)
  case h_2 =>
    split
    case isTrue => exact inv_tell_job (inv_setJob h (by simp)) (.inr ⟨rfl, hi⟩)
    case isFalse =>
      have hjob : Inv (n.nextEpoch.setJob i none id) := inv_setJob (inv_nextEpoch h) (by simp)
      have hauthorized : Inv ((n.nextEpoch.setJob i none id).setAuthorized i) :=
        inv_setClient hjob rfl rfl rfl rfl
      exact inv_tell_job (inv_tell_stale hauthorized (stale_nextEpoch h) (.inl rfl))
        (.inr ⟨rfl, by rw [tell_pools]; exact hi⟩)

theorem inv_onDuplicate (h : Inv n) (i : Nat) : Inv (n.onDuplicate i) := by
  unfold Network.onDuplicate
  dsimp only
  split
  · exact inv_close (inv_setJob h fun _ hid => hid) i
  · exact inv_close h i

/-- A timely result is sent by the client its job came from, in the session it came in. -/
theorem inv_onJobResult (h : Inv n) {result : Job} (hmined : result ∈ n.mined) {diff : UInt64}
    {written : Bool} (htimely : Timely n (.result result diff written)) :
    Inv (n.onJobResult result diff written) := by
  unfold Network.onJobResult
  split
  case h_1 => exact h
  case h_2 k htarget =>
    split
    case isTrue => exact h
    case isFalse haccepts =>
      split
      case isTrue => exact inv_close h k
      case isFalse =>
        split
        case isFalse => exact h
        case isTrue =>
          have hown : Share.Own ⟨k, (n.clients k).session, result⟩ := by
            have hguard := htimely k htarget
            unfold Client.refuses at haccepts
            cases hkind : (n.clients k).kind with
            | stratum =>
              simp only [hkind, Bool.or_eq_true, bne_iff_ne, ne_eq, Option.isNone_iff_eq_none,
                Bool.not_eq_true', not_or, not_not, Bool.not_eq_false] at haccepts hguard
              obtain ⟨⟨hclient, hsome⟩, hconnected⟩ := haccepts
              obtain ⟨id, hid⟩ := Option.ne_none_iff_exists'.mp hsome
              exact h.login k id (hguard hconnected hclient.symm) hid result (.inl hmined)
                (hclient.trans hid)
            | eth =>
              simp only [hkind, Bool.or_eq_true, Bool.not_eq_true', not_or,
                Bool.not_eq_false] at haccepts hguard
              obtain ⟨htarget', hsession⟩ :=
                h.mined result hmined (hguard haccepts.1 haccepts.2)
              obtain rfl := Option.some.inj (htarget.symm.trans htarget')
              exact ⟨rfl, hsession⟩
          refine ⟨h.used, h.rpc, h.unique, h.login, h.epoch, h.own, h.mined, ?_⟩
          intro share hshare
          rcases List.mem_cons.mp hshare with rfl | hold
          · exact hown
          · exact h.sent share hold

theorem inv_step (h : Inv n) {e : Event} (htimely : Timely n e) (hstep : step n e = some t) :
    Inv t := by
  obtain ⟨henabled, ht⟩ := Option.ite_none_right_eq_some.mp hstep
  obtain rfl := Option.some.inj ht
  cases e with
  | connect =>
    refine inv_tell h (.inl ?_) fun k hk => absurd hk (no_job (i := 0) n.strategy k (by simp))
    cases n.strategy <;> rfl
  | resume => exact inv_tell_job (i := 0) h (.inl rfl)
  | stop => exact inv_tell_stale (i := 0) (inv_nextEpoch h) (stale_nextEpoch h) (by simp)
  | opened i => exact inv_opened h i
  | closing i => exact inv_close h i
  | closed i failures =>
    have hclosed : Inv (n.nextEpoch.setClient i { (n.clients i).close with authorized := false }) :=
      inv_setClient (inv_nextEpoch h) rfl rfl rfl rfl
    exact inv_tell_stale hclosed (stale_nextEpoch h) (.inr (.inl ⟨failures, rfl⟩))
  | reconnect i failures =>
    exact inv_tell_stale (inv_close (inv_nextEpoch h) i) (stale_nextEpoch h)
      (.inr (.inl ⟨failures, rfl⟩))
  | loginReply i rpcId accepts job =>
    obtain ⟨hi, hfresh⟩ := by simpa [enabled] using henabled
    exact inv_loginReply h hi (fun id hid => by simpa [hid] using hfresh) accepts job
  | authorized i => exact inv_onAuthorizeResponse h i
  | job i id => exact inv_onNotify h (by simpa [enabled] using henabled) id
  | duplicate i => exact inv_onDuplicate h i
  | result job diff written => exact inv_onJobResult h (by simpa [enabled] using henabled) htimely

end Step

/-- A network before its first connection. -/
def start (strategy : PoolStrategy) (kinds : Nat → Kind) : Network :=
  { strategy, clients := fun i => { kind := kinds i } }

theorem inv_start (strategy : PoolStrategy) (kinds : Nat → Kind) : Inv (start strategy kinds) := by
  have hnone (job : Job) : ¬ Known (start strategy kinds) job := by
    rintro (hjob | ⟨k, hk⟩)
    · cases hjob
    · cases hk
  exact ⟨fun job hjob => absurd hjob (hnone job), nofun, nofun, nofun,
    fun job hjob => absurd hjob (hnone job), nofun, nofun, nofun⟩

/-- The first pool closes, the second takes over, and a late result goes to it. -/
theorem share_of_other_pool : ¬ ∀ (strategy : PoolStrategy) (kinds : Nat → Kind)
    (events : List Event) (n : Network), exec step (start strategy kinds) events = some n →
    ∀ share ∈ n.sent, share.Own := by
  intro h
  have hrun : ((exec step (start (.failover { pools := 2, retries := 1 }) fun _ => .eth)
      [.connect, .opened 0, .authorized 0, .job 0 7, .closed 0 1, .opened 1, .authorized 1,
        .result ⟨7, none, 0, 1, 2⟩ 1000 true]).map Network.sent) =
      some [⟨1, 1, ⟨7, none, 0, 1, 2⟩⟩] := by decide
  obtain ⟨n, hexec, hsent⟩ := Option.map_eq_some_iff.mp hrun
  have hown := h _ _ _ n hexec ⟨1, 1, ⟨7, none, 0, 1, 2⟩⟩ (by simp [hsent])
  exact absurd hown.1 (by decide)

/-- In every run of timely results a share goes to the client that announced its job, in
the session of the announcement. -/
theorem shares_own_pool {strategy : PoolStrategy} {kinds : Nat → Kind} {events : List Event}
    {n : Network} (hrun : Run step Timely (start strategy kinds) events n) :
    ∀ share ∈ n.sent, share.Own :=
  (hrun.invariant (fun _ _ _ htimely h hstep => inv_step h htimely hstep)
    (inv_start strategy kinds)).sent

/-- A fail-over between a `Client` and an `EthStratumClient`; each gets its own share. -/
theorem shares_own_pool_run :
    (exec (guarded (fun n e => decide (Timely n e)) step)
      (start (.failover { pools := 2, retries := 1 }) fun i => if i = 0 then .stratum else .eth)
      [.connect, .opened 0, .loginReply 0 (some 5) true 7, .result ⟨7, some 5, 0, 1, 2⟩ 1000 true,
        .closed 0 1, .result ⟨7, some 5, 0, 1, 2⟩ 1000 true, .opened 1, .authorized 1, .job 1 8,
        .result ⟨8, none, 1, 1, 5⟩ 1000 true]).map Network.sent =
      some [⟨1, 1, ⟨8, none, 1, 1, 5⟩⟩, ⟨0, 1, ⟨7, some 5, 0, 1, 2⟩⟩] ∧
    ∃ n : Network, n.sent.length = 2 ∧ ∀ share ∈ n.sent, share.Own := by
  have hrun : (exec (guarded (fun n e => decide (Timely n e)) step)
      (start (.failover { pools := 2, retries := 1 }) fun i => if i = 0 then .stratum else .eth)
      [.connect, .opened 0, .loginReply 0 (some 5) true 7, .result ⟨7, some 5, 0, 1, 2⟩ 1000 true,
        .closed 0 1, .result ⟨7, some 5, 0, 1, 2⟩ 1000 true, .opened 1, .authorized 1, .job 1 8,
        .result ⟨8, none, 1, 1, 5⟩ 1000 true]).map Network.sent =
      some [⟨1, 1, ⟨8, none, 1, 1, 5⟩⟩, ⟨0, 1, ⟨7, some 5, 0, 1, 2⟩⟩] := by decide
  obtain ⟨n, hexec, hsent⟩ := Option.map_eq_some_iff.mp hrun
  exact ⟨hrun, n, by simp [hsent],
    shares_own_pool (run_of_guarded (fun _ _ => of_decide_eq_true) hexec)⟩

end VeloxHash.ShareRouting
