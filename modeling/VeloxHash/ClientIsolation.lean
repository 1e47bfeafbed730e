import VeloxHash.ClientDisconnect

/-! Isolation of the connections of a stratum `Client`. `m_socket` denotes the one socket there
is, and the lines that are parsed come from the connection the last login went to, if the
client is connected only when it has no socket. A `Session` is a client with the trace of its
logins and of the reads passed to `m_reader`. -/

namespace VeloxHash.ClientConnection

open ClientRequests (SendOutcome)
open TransitionSystem

inductive Entry
  | login (socket : Nat)
  | read (socket : Nat)
  deriving DecidableEq, Repr

structure Session where
  client : Client
  trace : List Entry := []

def logins (c : Client) : Nat := c.calls.countP fun entry => entry.1 = .login

/-- A login goes out on `m_socket`. -/
def traced (c t : Client) : Event → List Entry
  | .readLines k _ => [.read k]
  | _ => if logins c < logins t then t.socket.toList.map .login else []

/-- In a connected client a send of the login is written, or closes the connection. -/
def loginFails : Event → Bool
  | .connectDone _ _ outcome | .readHandshake _ _ outcome => outcome == .failed
  | _ => false

def Session.step (s : Session) (e : Event) : Option Session :=
  if loginFails e then none
  else (ClientConnection.step s.client e).map fun t => ⟨t, traced s.client t e ++ s.trace⟩

def lastLogin : List Entry → Option Nat
  | [] => none
  | .login k :: _ => some k
  | .read _ :: rest => lastLogin rest

/-- Each read comes from the socket of the login before it. -/
def Followed : List Entry → Prop
  | [] => True
  | .login _ :: rest => Followed rest
  | .read k :: rest => (∀ j, lastLogin rest = some j → j = k) ∧ Followed rest

/-- Not yet closed. -/
def Handle.live : Handle → Bool
  | .unused | .closed => false
  | _ => true

/-- There is one socket at most, `m_socket` denotes it, and what has been read since a login
comes from the socket of that login. -/
structure IsolatedSession (s : Session) : Prop where
  denoted : ∀ k, (s.client.handles k).live = true → s.client.socket = some k
  reads : Followed s.trace

/-- `connect()`, whether the owner or `tick` calls it, finds no socket. -/
def connectsAlone (s : Session) : Event → Bool
  | .connect => s.client.socket.isNone
  | .tick late _ _ =>
    !(s.client.state == .reconnecting && s.client.expire && late) || s.client.socket.isNone
  | _ => true

/-- The pool asks for a reconnect and does not close the connection. -/
theorem reconnect_leaves_socket : ¬ ∀ (pool : Pool) (events : List Event) (s : Session),
    exec Session.step ⟨{ pool }, []⟩ events = some s → IsolatedSession s := by
  intro h
  have hsession := h ⟨false, false, false⟩ [.connect, .resolved true true,
    .connectDone 0 true .sent, .readLines 0 [.reconnect], .parse, .tick true false .sent,
    .resolved true true] _ rfl
  exact absurd (hsession.denoted 0 rfl) (by decide)

section Logins

variable (c : Client)

theorem logins_emit {call : Call} (h : call ≠ .login) : logins (c.emit call) = logins c := by
  simp [logins, Client.emit, h]

theorem logins_setState (state : SocketState) : logins (c.setState state) = logins c :=
  congrArg (List.countP _) (setState_frame c state).2.1

theorem logins_close : logins c.close = logins c := by
  rcases close_cases c with h | ⟨k, -, h⟩
  · rw [h]
  · rw [h]
    obtain ⟨handle, hclose, -⟩ := uvClose_handles (c.setState .closing) k
    rw [hclose]
    exact logins_setState c .closing

theorem logins_reconnect : logins c.reconnect = logins c := by
  unfold Client.reconnect
  dsimp only
  split_ifs
  · exact logins_emit _ (by simp)
  · exact (logins_emit _ (by simp)).trans (logins_setState { c with keepAlive := false } .reconnecting)

theorem logins_onResolved (ok started : Bool) : logins (c.onResolved ok started) = logins c := by
  unfold Client.onResolved
  dsimp only
  split_ifs
  · exact logins_setState { c with lookup := false } .connecting
  · exact logins_reconnect { c with lookup := false }

end Logins

section Isolated

/-- `last` is the socket of the last login. A socket that is read has had its login, unless it
is in a handshake, during which the client stays connected. -/
structure Isolated (c : Client) (last : Option Nat) : Prop where
  denoted : ∀ k, (c.handles k).live = true → c.socket = some k
  fresh : ∀ k, c.opened ≤ k → c.handles k = .unused
  lookup : c.lookup = true → c.socket = none
  session : ∀ k, c.handles k = .reading →
    last = some k ∨ c.handshaking = true ∧ c.state = .connected
  tls : c.tls = some true → c.socks5 = false ∧ ∃ k, c.socket = some k ∧
    c.handles k ≠ .connecting ∧ (c.handles k = .reading → last = some k)
  unparsed : c.unparsed ≠ [] → ∀ k, c.handles k = .reading → last = some k

variable {c t : Client} {last : Option Nat}

/-- A change of timers, calls and lookups. -/
theorem Isolated.frame (h : Isolated c last) (hhandles : t.handles = c.handles)
    (hsocket : t.socket = c.socket) (hopened : t.opened = c.opened)
    (hlookup : t.lookup = true → c.lookup = true) (hpool : t.pool = c.pool)
    (hsocks5 : t.socks5 = c.socks5) (htls : t.tls = c.tls)
    (hunparsed : t.unparsed ≠ [] → c.unparsed ≠ [])
    (hstate : t.state = c.state ∨ ∀ k, c.handles k = .reading → last = some k) :
    Isolated t last := by
  refine ⟨?_, ?_, ?_, ?_, ?_, ?_⟩
  · rw [hhandles, hsocket]
    exact h.denoted
  · rw [hhandles, hopened]
    exact h.fresh
  · rw [hsocket]
    exact fun hl => h.lookup (hlookup hl)
  · rw [hhandles]
    intro k hk
    rcases hstate with hstate | hstate
    · simpa [Client.handshaking, Client.isTLS, hpool, hsocks5, htls, hstate] using h.session k hk
    · exact .inl (hstate k hk)
  · rw [htls, hsocks5, hsocket, hhandles]
    exact h.tls
  · rw [hhandles]
    exact fun hu => h.unparsed (hunparsed hu)

/-- The socket gets a handle that is not read. -/
theorem Isolated.setHandle (h : Isolated c last) {k : Nat} (hk : (c.handles k).live = true)
    (handle : Handle) (hreading : handle ≠ .reading) (hconnecting : handle ≠ .connecting) :
    Isolated (c.setHandle k handle) last := by
  have hsocket := h.denoted k hk
  have hread (j : Nat) (hj : Function.update c.handles k handle j = .reading) :
      c.handles j = .reading := by
    by_cases hjk : j = k
    · subst hjk
      exact absurd (by simpa using hj) hreading
    · simpa [hjk] using hj
  refine ⟨fun j hj => ?_, fun j hj => ?_, h.lookup, fun j hj => h.session j (hread j hj),
    fun ht => ?_, fun hu j hj => h.unparsed hu j (hread j hj)⟩
  · by_cases hjk : j = k
    · exact hjk ▸ hsocket
    · exact h.denoted j (by simpa [Client.setHandle, hjk] using hj)
  · have hjk : j ≠ k := by
      rintro rfl
      simp [h.fresh j hj, Handle.live] at hk
    simpa [Client.setHandle, hjk] using h.fresh j hj
  · obtain ⟨hsocks, i, hi, -, hlast⟩ := h.tls ht
    obtain rfl : k = i := Option.some.inj (hsocket.symm.trans hi)
    refine ⟨hsocks, k, hsocket, by simpa [Client.setHandle] using hconnecting, fun hr => ?_⟩
    exact absurd (by simpa [Client.setHandle] using hr) hreading

theorem uvClose_cases (c : Client) (k : Nat) :
    c.uvClose k = c ∧ c.handles k ≠ .reading ∨
      ∃ b, (c.handles k).live = true ∧ c.uvClose k = c.setHandle k (.closing b) := by
  unfold Client.uvClose
  cases h : c.handles k with
  | unused => exact .inl ⟨rfl, nofun⟩
  | closed => exact .inl ⟨rfl, nofun⟩
  | closing b => exact .inl ⟨rfl, nofun⟩
  | connecting => exact .inr ⟨true, rfl, rfl⟩
  | idle => exact .inr ⟨false, rfl, rfl⟩
  | connected => exact .inr ⟨false, rfl, rfl⟩
  | reading => exact .inr ⟨false, rfl, rfl⟩

theorem isolated_close (h : Isolated c last) : Isolated c.close last := by
  rcases close_cases c with hclose | ⟨k, hsocket, hclose⟩
  · rwa [hclose]
  rw [hclose, setState_closing]
  rcases uvClose_cases { c with state := .closing } k with ⟨hsame, hnot⟩ | ⟨b, hlive, hset⟩
  · rw [hsame]
    refine h.frame rfl rfl rfl id rfl rfl rfl id (.inr fun j hj => ?_)
    obtain rfl : k = j := Option.some.inj (hsocket.symm.trans (h.denoted j (by simp [hj, Handle.live])))
    exact absurd hj hnot
  · rw [hset]
    have hclosing := h.setHandle (k := k) hlive (.closing b) nofun nofun
    refine hclosing.frame rfl rfl rfl id rfl rfl rfl id (.inr fun j hj => ?_)
    by_cases hjk : j = k
    · simp [Client.setHandle, hjk] at hj
    · have hj : c.handles j = .reading := by simpa [Client.setHandle, hjk] using hj
      exact absurd (Option.some.inj ((h.denoted j (by simp [hj, Handle.live])).symm.trans hsocket)) hjk

theorem Isolated.setState (h : Isolated c last) (state : SocketState)
    (hread : ∀ k, c.handles k = .reading → last = some k) : Isolated (c.setState state) last := by
  unfold Client.setState
  split_ifs
  · exact h
  · exact h.frame rfl rfl rfl id rfl rfl rfl id (.inr hread)

theorem isolated_reconnect (h : Isolated c last)
    (hread : ∀ k, c.handles k = .reading → last = some k) : Isolated c.reconnect last := by
  have hquiet : Isolated { c with keepAlive := false } last :=
    h.frame rfl rfl rfl id rfl rfl rfl id (.inl rfl)
  unfold Client.reconnect
  dsimp only
  split_ifs
  · exact hquiet.frame rfl rfl rfl id rfl rfl rfl id (.inl rfl)
  · exact (hquiet.setState .reconnecting hread).frame rfl rfl rfl id rfl rfl rfl id (.inl rfl)

/-- A step that sends no login, or sends one on `m_socket`. -/
def Advances (c t : Client) (last : Option Nat) : Prop :=
  logins t = logins c ∧ Isolated t last ∨
    logins c < logins t ∧ ∃ k, t.socket = some k ∧ Isolated t (some k)

/-- The socket `k` has connected, and its login is still to be sent. -/
structure Opening (c : Client) (k : Nat) : Prop where
  denoted : ∀ j, (c.handles j).live = true → c.socket = some j
  fresh : ∀ j, c.opened ≤ j → c.handles j = .unused
  lookup : c.lookup = true → c.socket = none
  reading : c.handles k = .reading
  state : c.state = .connected
  unparsed : c.unparsed = []
  tls : c.tls = some true → c.socks5 = false

theorem Opening.socket {k : Nat} (h : Opening c k) : c.socket = some k :=
  h.denoted k (by rw [h.reading]; rfl)

theorem Opening.eq {k j : Nat} (h : Opening c k) (hj : c.handles j = .reading) : j = k :=
  Option.some.inj ((h.denoted j (by rw [hj]; rfl)).symm.trans h.socket)

theorem Opening.handshaking {k : Nat} (h : Opening c k) (hshake : c.handshaking = true)
    (htls : c.tls ≠ some true) : Isolated c last :=
  ⟨h.denoted, h.fresh, h.lookup, fun _ _ => .inr ⟨hshake, h.state⟩, fun ht => absurd ht htls,
    fun hu => absurd h.unparsed hu⟩

theorem Opening.loggedIn {k : Nat} (h : Opening c k) : Isolated c (some k) :=
  ⟨h.denoted, h.fresh, h.lookup, fun _ hj => .inl (congrArg some (h.eq hj).symm),
    fun ht => ⟨h.tls ht, k, h.socket, by simp [h.reading], fun _ => rfl⟩,
    fun hu => absurd h.unparsed hu⟩

theorem Opening.close {k : Nat} (h : Opening c k) : Isolated c.close last := by
  have hclose : c.close =
      { c with state := .closing, handles := Function.update c.handles k (.closing false) } := by
    simp [Client.close, h.socket, h.state, Client.setState, Client.uvClose, h.reading,
      Client.setHandle]
  have hread (j : Nat) : Function.update c.handles k (.closing false) j ≠ .reading := by
    by_cases hjk : j = k
    · simp [hjk]
    · simpa [hjk] using fun hj => hjk (h.eq hj)
  rw [hclose]
  refine ⟨fun j hj => ?_, fun j hj => ?_, h.lookup, fun j hj => absurd hj (hread j),
    fun ht => ⟨h.tls ht, k, h.socket, by simp, fun hj => absurd hj (hread k)⟩,
    fun _ j hj => absurd hj (hread j)⟩
  · by_cases hjk : j = k
    · exact hjk ▸ h.socket
    · exact h.denoted j (by simpa [hjk] using hj)
  · have hjk : j ≠ k := by
      rintro rfl
      exact absurd h.reading (by simp [h.fresh j hj])
    simpa [hjk] using h.fresh j hj

theorem Opening.login {k : Nat} (h : Opening c k) {outcome : SendOutcome}
    (hout : outcome ≠ .failed) : Advances c (c.login outcome) last := by
  have hwritable : c.writable = true := by simp [Client.writable, h.socket, h.reading]
  have hsend : c.send outcome = (c.close, false) ∨
      c.send outcome = ({ c with expire := true }, true) := by
    cases outcome with
    | sent => exact .inr (by simp [Client.send, h.state, hwritable])
    | broken => exact .inl (by simp [Client.send, h.state, hwritable])
    | tooLong => exact .inl (by simp [Client.send])
    | failed => exact absurd rfl hout
  unfold Client.login
  rcases hsend with hsend | hsend
  · rw [hsend]
    exact .inl ⟨logins_close c, h.close⟩
  · rw [hsend]
    refine .inr ⟨?_, k, h.socket, ?_⟩
    · simp [logins, Client.emit]
    · exact h.loggedIn.frame rfl rfl rfl id rfl rfl rfl id (.inl rfl)

theorem Opening.write {k : Nat} (h : Opening c k) (hshake : c.handshaking = true)
    (htls : c.tls ≠ some true) (outcome : SendOutcome) :
    Advances c (c.write outcome) last := by
  unfold Client.write
  split_ifs
  · exact .inl ⟨logins_close c, h.close⟩
  · exact .inl ⟨rfl, h.handshaking hshake htls⟩

theorem Opening.handshake {k : Nat} (h : Opening c k) (htls : c.tls ≠ some true)
    {outcome : SendOutcome} (hout : outcome ≠ .failed) (last : Option Nat) :
    Advances c (c.handshake outcome) last := by
  unfold Client.handshake
  split_ifs with hsocks hsecure
  · exact h.write (by simp [Client.handshaking, hsocks]) htls outcome
  · have hexpire : Opening { c with expire := true } k :=
      ⟨h.denoted, h.fresh, h.lookup, h.reading, h.state, h.unparsed, h.tls⟩
    refine hexpire.write ?_ htls outcome
    have hsecure : Client.isTLS { c with expire := true } = true := hsecure
    simp [Client.handshaking, hsecure, htls]
  · exact h.login hout

theorem not_live_of_none (h : Isolated c last) (hsocket : c.socket = none) (k : Nat) :
    (c.handles k).live = false := by
  by_contra hk
  simp [h.denoted k (by simpa using hk)] at hsocket

theorem not_reading_of_none (h : Isolated c last) (hsocket : c.socket = none) (k : Nat) :
    c.handles k ≠ .reading := by
  intro hk
  have := not_live_of_none h hsocket k
  simp [hk, Handle.live] at this

theorem tls_of_none (h : Isolated c last) (hsocket : c.socket = none) : c.tls ≠ some true := by
  intro ht
  obtain ⟨-, k, hk, -⟩ := h.tls ht
  simp [hk] at hsocket

theorem setState_fields (c : Client) (state : SocketState) :
    (c.setState state).opened = c.opened ∧ (c.setState state).lookup = c.lookup ∧
      (c.setState state).tls = c.tls ∧ (c.setState state).socks5 = c.socks5 ∧
      (c.setState state).unparsed = c.unparsed := by
  unfold Client.setState
  split_ifs <;> exact ⟨rfl, rfl, rfl, rfl, rfl⟩

theorem isolated_connectTo (h : Isolated c last) (hlookup : c.lookup = false)
    (hsocket : c.socket = none) (started : Bool) : Isolated (c.connectTo started) last := by
  obtain ⟨-, -, -, hhandles, -⟩ := setState_frame c .connecting
  obtain ⟨hopened, hlook, htls, -⟩ := setState_fields c .connecting
  have hnew (j : Nat) : (c.connectTo started).handles j =
      if j = c.opened then (if started then .connecting else .idle) else c.handles j := by
    simp [Client.connectTo, Client.setHandle, Function.update_apply, hhandles, hopened]
  have hread (j : Nat) : (c.connectTo started).handles j ≠ .reading := by
    rw [hnew]
    split_ifs
    · simp
    · simp
    · exact not_reading_of_none h hsocket j
  refine ⟨fun j hj => ?_, fun j hj => ?_, fun hl => ?_, fun j hj => absurd hj (hread j),
    fun ht => ?_, fun _ j hj => absurd hj (hread j)⟩
  · rw [hnew] at hj
    split_ifs at hj with hjk
    · exact congrArg some (hopened.trans hjk.symm)
    · exact congrArg some (hopened.trans hjk.symm)
    · simp [not_live_of_none h hsocket j] at hj
  · have hj : c.opened + 1 ≤ j := hopened ▸ hj
    rw [hnew, if_neg (by omega)]
    exact h.fresh j (by omega)
  · exact absurd (hlook.symm.trans hl) (by simp [hlookup])
  · exact absurd (htls.symm.trans ht) (tls_of_none h hsocket)

theorem isolated_connect (h : Isolated c last) (hsocket : c.socket = none) :
    Isolated c.connect last := by
  have hresolve {d : Client} (hd : Isolated d last) (hn : d.socket = none) :
      Isolated d.resolve last := by
    have hstate := hd.setState .hostLookup fun k hk =>
      absurd hk (not_reading_of_none hd hn k)
    obtain ⟨-, -, hs, -⟩ := setState_frame d .hostLookup
    exact ⟨hstate.denoted, hstate.fresh, fun _ => hs.trans hn, hstate.session, hstate.tls,
      hstate.unparsed⟩
  have hread (k : Nat) := not_reading_of_none h hsocket k
  unfold Client.connect
  split_ifs
  · refine hresolve ⟨h.denoted, h.fresh, h.lookup, fun k hk => absurd hk (hread k),
      fun (ht : c.tls = some true) => absurd ht (tls_of_none h hsocket), h.unparsed⟩ hsocket
  · exact hresolve ⟨h.denoted, h.fresh, h.lookup, fun k hk => absurd hk (hread k), nofun,
      h.unparsed⟩ hsocket
  · exact hresolve h hsocket

theorem isolated_onResolved (h : Isolated c last) (hlookup : c.lookup = true)
    (ok started : Bool) : Isolated (c.onResolved ok started) last := by
  have hsocket := h.lookup hlookup
  have hdone : Isolated { c with lookup := false } last :=
    h.frame rfl rfl rfl nofun rfl rfl rfl id (.inl rfl)
  unfold Client.onResolved
  dsimp only
  split_ifs
  · exact isolated_connectTo hdone rfl hsocket started
  · exact isolated_reconnect hdone fun k hk => absurd hk (not_reading_of_none h hsocket k)

/-- The socket that has connected is `m_socket`, which is read from now on. -/
theorem opening_of_connected (h : Isolated c last) {k : Nat} (hk : c.handles k = .connecting)
    (hunparsed : c.unparsed = []) :
    Opening (((c.setHandle k .connected).setState .connected).readStart k) k ∧
      (((c.setHandle k .connected).setState .connected).readStart k).tls ≠ some true := by
  obtain ⟨-, -, hsocket, hhandles, hstate⟩ := setState_frame (c.setHandle k .connected) .connected
  obtain ⟨hopened, hlookup, htls, -, hlines⟩ := setState_fields (c.setHandle k .connected) .connected
  have hlive := h.denoted k (by rw [hk]; rfl)
  have hnot : c.tls ≠ some true := fun ht => by
    obtain ⟨-, j, hj, hconnecting, -⟩ := h.tls ht
    obtain rfl : k = j := Option.some.inj (hlive.symm.trans hj)
    exact hconnecting hk
  rw [Client.readStart, if_pos (by rw [hhandles]; simp [Client.setHandle])]
  have hnew (j : Nat) (hj : j ≠ k) :
      (((c.setHandle k .connected).setState .connected).setHandle k .reading).handles j =
        c.handles j := by
    show Function.update ((c.setHandle k .connected).setState .connected).handles k .reading j = _
    rw [Function.update_of_ne hj, hhandles]
    exact Function.update_of_ne hj _ _
  refine ⟨⟨fun j hj => hsocket.trans ?_, fun j hj => ?_, fun hl => ?_, by simp [Client.setHandle],
    hstate, hlines.trans hunparsed, fun ht => absurd (htls.symm.trans ht) hnot⟩,
    fun ht => hnot (htls.symm.trans ht)⟩
  · by_cases hjk : j = k
    · exact hjk ▸ hlive
    · exact h.denoted j (hnew j hjk ▸ hj)
  · have hj : c.opened ≤ j := hopened ▸ hj
    have hjk : j ≠ k := fun heq => absurd hk (by rw [← heq, h.fresh j hj]; simp)
    exact (hnew j hjk).trans (h.fresh j hj)
  · exact hsocket.trans (h.lookup (hlookup.symm.trans hl))

theorem isolated_onConnect (h : Isolated c last) {k : Nat} {ok : Bool} {outcome : SendOutcome}
    (hhandle : c.handles k = .connecting ∨ c.handles k = .closing true ∧ ok = false)
    (hunparsed : c.unparsed = []) (hout : outcome ≠ .failed)
    (hstep : c.onConnect k ok outcome = some t) : Advances c t last := by
  have hlive : (c.handles k).live = true := by
    rcases hhandle with hk | ⟨hk, -⟩ <;> rw [hk] <;> rfl
  unfold Client.onConnect at hstep
  cases ok with
  | true =>
    have hk := hhandle.resolve_right fun hc => by simp at hc
    simp only [if_true] at hstep
    split_ifs at hstep with hconnected
    · obtain rfl := Option.some.inj hstep
      exact .inl ⟨rfl, h.setHandle hlive .connected nofun nofun⟩
    · obtain ⟨j, hj, rfl⟩ := Option.map_eq_some_iff.mp hstep
      obtain rfl : k = j := Option.some.inj ((h.denoted k hlive).symm.trans hj)
      obtain ⟨hopening, htls⟩ := opening_of_connected h hk hunparsed
      have hlogins : logins (((c.setHandle k .connected).setState .connected).readStart k) =
          logins c := by
        rw [Client.readStart]
        split_ifs
        · exact logins_setState (c.setHandle k .connected) .connected
        · exact logins_setState (c.setHandle k .connected) .connected
      have hshake := hopening.handshake htls hout last
      rwa [Advances, hlogins] at hshake
  | false =>
    have hset : Isolated (c.setHandle k
        (if c.handles k = .connecting then .idle else .closing false)) last :=
      h.setHandle hlive _ (by split_ifs <;> simp) (by split_ifs <;> simp)
    simp only [Bool.false_eq_true, if_false, Option.some.injEq] at hstep
    subst hstep
    generalize (if c.handles k = .connecting then Handle.idle else .closing false) = handle at *
    split_ifs
    · exact .inl ⟨logins_close _, isolated_close hset⟩
    · exact .inl ⟨rfl, hset⟩

/-- During a handshake the login has not been sent. -/
theorem opening_of_handshaking (h : Isolated c last) {k : Nat} (hk : c.handles k = .reading)
    (hstate : c.state = .connected) (hunparsed : c.unparsed = []) : Opening c k :=
  ⟨h.denoted, h.fresh, h.lookup, hk, hstate, hunparsed, fun ht => (h.tls ht).1⟩

theorem isolated_write (h : Isolated c last) (outcome : SendOutcome) :
    Isolated (c.write outcome) last ∧ logins (c.write outcome) = logins c := by
  unfold Client.write
  split_ifs
  · exact ⟨isolated_close h, logins_close c⟩
  · exact ⟨h, rfl⟩

theorem isolated_send (h : Isolated c last) (outcome : SendOutcome) :
    Isolated (c.send outcome).1 last ∧ logins (c.send outcome).1 = logins c ∧
      ((c.send outcome).2 = true → (c.send outcome).1.socket = c.socket) := by
  unfold Client.send
  split_ifs
  · exact ⟨isolated_close h, logins_close c, nofun⟩
  · exact ⟨h, rfl, nofun⟩
  · cases outcome with
    | sent => exact ⟨h.frame rfl rfl rfl id rfl rfl rfl id (.inl rfl), rfl, fun _ => rfl⟩
    | broken => exact ⟨isolated_close h, logins_close c, nofun⟩
    | failed => exact ⟨h, rfl, nofun⟩
    | tooLong => exact ⟨h, rfl, nofun⟩

/-- A second login on the socket of the last. -/
theorem isolated_login {k : Nat} (h : Isolated c (some k)) (hsocket : c.socket = some k)
    (outcome : SendOutcome) : Advances c (c.login outcome) (some k) := by
  obtain ⟨hsend, hlogins, hsame⟩ := isolated_send h outcome
  unfold Client.login
  dsimp only
  split_ifs with hsent
  · refine .inr ⟨?_, k, (hsame hsent).trans hsocket, ?_⟩
    · rw [← hlogins]
      simp [logins, Client.emit]
    · exact hsend.frame rfl rfl rfl id rfl rfl rfl id (.inl rfl)
  · exact .inl ⟨hlogins, hsend⟩

theorem isolated_handshake {k : Nat} (h : Isolated c (some k)) (hsocket : c.socket = some k)
    (outcome : SendOutcome) : Advances c (c.handshake outcome) (some k) := by
  have hexpire : Isolated { c with expire := true } (some k) :=
    h.frame rfl rfl rfl id rfl rfl rfl id (.inl rfl)
  unfold Client.handshake
  split_ifs
  · exact .inl (isolated_write h outcome).symm
  · exact .inl (isolated_write hexpire outcome).symm
  · exact isolated_login h hsocket outcome

/-- A change of the handshake's flags on a socket that has had its login. -/
theorem Isolated.flags {k : Nat} (h : Isolated c (some k)) (hk : c.handles k = .reading)
    (tls : Option Bool) : Isolated { c with socks5 := false, tls } (some k) := by
  have hsocket := h.denoted k (by rw [hk]; rfl)
  have heq (j : Nat) (hj : c.handles j = .reading) : some k = some j :=
    hsocket.symm.trans (h.denoted j (by rw [hj]; rfl))
  exact ⟨h.denoted, h.fresh, h.lookup, fun j hj => .inl (heq j hj),
    fun _ => ⟨rfl, k, hsocket, by simp [hk], fun _ => rfl⟩, fun _ j hj => heq j hj⟩

theorem isolated_readHandshake (h : Isolated c last) {k : Nat} (hk : c.handles k = .reading)
    (hunparsed : c.unparsed = []) (progress : Handshake) {outcome : SendOutcome}
    (hout : outcome ≠ .failed) : Advances c (c.readHandshake progress outcome) last := by
  have hsocket := h.denoted k (by rw [hk]; rfl)
  cases progress with
  | pending => exact .inl (isolated_write h outcome).symm
  | refused => exact .inl ⟨logins_close c, isolated_close h⟩
  | ready =>
    unfold Client.readHandshake
    dsimp only
    by_cases hsocks : c.socks5 = true
    · rw [if_pos hsocks]
      rcases h.session k hk with rfl | ⟨-, hstate⟩
      · exact isolated_handshake (h.flags hk _) hsocket outcome
      · have hopening := opening_of_handshaking h hk hstate hunparsed
        have hopen (tls : Option Bool) : Opening { c with socks5 := false, tls } k :=
          ⟨h.denoted, h.fresh, h.lookup, hk, hstate, hunparsed, fun _ => rfl⟩
        refine (hopen _).handshake (fun ht => ?_) hout last
        dsimp only at ht
        split_ifs at ht
        · cases ht
        · exact absurd (hopening.tls ht) (by simp [hsocks])
    · rw [if_neg hsocks]
      have hfalse : c.socks5 = false := by simpa using hsocks
      rcases h.session k hk with rfl | ⟨-, hstate⟩
      · have hflags := h.flags hk (some true)
        rw [← hfalse] at hflags
        exact isolated_login hflags hsocket outcome
      · have hopen : Opening { c with tls := some true } k :=
          ⟨h.denoted, h.fresh, h.lookup, hk, hstate, hunparsed, fun _ => hfalse⟩
        exact hopen.login hout

theorem isolated_parseLine (h : Isolated c last)
    (hread : ∀ k, c.handles k = .reading → last = some k) (line : Line) :
    Isolated (c.parseLine line) last ∧ logins (c.parseLine line) = logins c := by
  have htimeout : Isolated c.startTimeout last :=
    h.frame rfl rfl rfl id rfl rfl rfl id (.inl rfl)
  unfold Client.parseLine
  cases line with
  | reconnect => exact ⟨isolated_reconnect htimeout hread, logins_reconnect _⟩
  | login hasId keepAlive accepts =>
    have hextension : Isolated { c.startTimeout with extension := keepAlive } last :=
      htimeout.frame rfl rfl rfl id rfl rfl rfl id (.inl rfl)
    dsimp only
    split_ifs
    · exact ⟨isolated_close htimeout, logins_close _⟩
    · exact ⟨isolated_close hextension, logins_close _⟩
    · exact ⟨hextension.frame rfl rfl rfl id rfl rfl rfl id (.inl rfl),
        logins_emit { c.startTimeout with extension := keepAlive, failures := 0, announce := true }
          (by simp)⟩
  | job accepts =>
    dsimp only
    split_ifs
    · exact ⟨htimeout.frame rfl rfl rfl id rfl rfl rfl id (.inl rfl), logins_emit _ (by simp)⟩
    · exact ⟨isolated_close htimeout, logins_close _⟩
  | critical => exact ⟨isolated_close htimeout, logins_close _⟩
  | other => exact ⟨htimeout, rfl⟩

theorem isolated_parse (h : Isolated c last) (hstep : c.parse = some t) :
    Isolated t last ∧ logins t = logins c := by
  unfold Client.parse at hstep
  split_ifs at hstep
  · obtain rfl := Option.some.inj hstep
    exact ⟨h.frame rfl rfl rfl id rfl rfl rfl id (.inl rfl),
      logins_emit { c with announce := false } (by simp)⟩
  · cases hlines : c.unparsed with
    | nil => simp [hlines] at hstep
    | cons line rest =>
      simp only [hlines, Option.some.injEq] at hstep
      obtain rfl := hstep
      have hne : c.unparsed ≠ [] := by simp [hlines]
      have hrest : Isolated { c with unparsed := rest } last :=
        h.frame rfl rfl rfl id rfl rfl rfl (fun _ => hne) (.inl rfl)
      exact isolated_parseLine hrest (h.unparsed hne) line

theorem isolated_onClose (h : Isolated c last) {k : Nat} (hk : c.handles k = .closing false)
    (hstep : c.onClose k = some t) : Isolated t last ∧ logins t = logins c := by
  have hlive : (c.handles k).live = true := by rw [hk]; rfl
  unfold Client.onClose at hstep
  dsimp only at hstep
  split_ifs at hstep
  obtain rfl := Option.some.inj hstep
  have hset := h.setHandle hlive .closed (by simp) (by simp)
  have hnot (j : Nat) : ((c.setHandle k .closed).handles j).live = false := by
    by_cases hjk : j = k
    · simp [Client.setHandle, hjk, Handle.live]
    · by_contra hj
      have hj : (c.handles j).live = true := by simpa [Client.setHandle, hjk] using hj
      exact hjk (Option.some.inj ((h.denoted j hj).symm.trans (h.denoted k hlive)))
  have hread (j : Nat) : (c.setHandle k .closed).handles j ≠ .reading := by
    intro hj
    simpa [hj, Handle.live] using hnot j
  have hgone : Isolated { c.setHandle k .closed with socket := none, tls := none } last :=
    ⟨fun j hj => absurd hj (by simp [hnot j]), hset.fresh, fun _ => rfl,
      fun j hj => absurd hj (hread j), by simp, fun _ j hj => absurd hj (hread j)⟩
  have hstate := hgone.setState .unconnected fun j hj => absurd hj (hread j)
  obtain ⟨-, -, -, hhandles, -⟩ :=
    setState_frame { c.setHandle k .closed with socket := none, tls := none } .unconnected
  refine ⟨isolated_reconnect hstate fun j hj => absurd (hhandles ▸ hj) (hread j), ?_⟩
  exact (logins_reconnect _).trans (logins_setState _ _)

theorem logins_connect (c : Client) : logins c.connect = logins c := by
  have hresolve (d : Client) : logins d.resolve = logins d := logins_setState d .hostLookup
  unfold Client.connect
  split_ifs
  · exact hresolve { c with socks5 := true }
  · exact hresolve { c with tls := some false }
  · exact hresolve c

theorem isolated_tick (h : Isolated c last) (late due : Bool) (outcome : SendOutcome)
    (halone : c.state = .reconnecting → (c.expire && late) = true → c.socket = none) :
    Isolated (c.tick late due outcome) last ∧ logins (c.tick late due outcome) = logins c := by
  unfold Client.tick
  cases hstate : c.state with
  | connected =>
    dsimp only
    split_ifs
    · exact ⟨isolated_close h, logins_close c⟩
    · obtain ⟨hsend, hlogins, -⟩ := isolated_send h outcome
      exact ⟨hsend.frame rfl rfl rfl id rfl rfl rfl id (.inl rfl), hlogins⟩
    · exact ⟨h, rfl⟩
  | reconnecting =>
    dsimp only
    split_ifs with hlate
    · exact ⟨isolated_connect h (halone hstate hlate), logins_connect c⟩
    · exact ⟨h, rfl⟩
  | connecting =>
    dsimp only
    split_ifs
    · exact ⟨isolated_close h, logins_close c⟩
    · exact ⟨h, rfl⟩
  | unconnected => exact ⟨h, rfl⟩
  | hostLookup => exact ⟨h, rfl⟩
  | closing => exact ⟨h, rfl⟩

end Isolated

structure SessionInv (s : Session) : Prop where
  isolated : Isolated s.client (lastLogin s.trace)
  reads : Followed s.trace

theorem inv_advances {s : Session} {t : Client} (h : SessionInv s)
    (ht : Advances s.client t (lastLogin s.trace)) :
    SessionInv ⟨t, (if logins s.client < logins t then t.socket.toList.map .login else []) ++
      s.trace⟩ := by
  rcases ht with ⟨hsame, hnext⟩ | ⟨hmore, k, hsocket, hnext⟩
  · rw [if_neg (by omega)]
    exact ⟨hnext, h.reads⟩
  · rw [if_pos hmore, hsocket]
    exact ⟨hnext, h.reads⟩

theorem unparsed_of_idle {c : Client} (h : (!c.busy) = true) : c.unparsed = [] := by
  obtain ⟨-, hlines⟩ := Bool.or_eq_false_iff.mp (Bool.not_eq_true' _ ▸ h)
  simpa using hlines

theorem session_step {s s' : Session} {e : Event} (h : SessionInv s)
    (hok : connectsAlone s e = true) (hstep : s.step e = some s') : SessionInv s' := by
  obtain ⟨hfails, hstep⟩ := Option.ite_none_left_eq_some.mp hstep
  obtain ⟨t, ht, rfl⟩ := Option.map_eq_some_iff.mp hstep
  have hi := h.isolated
  cases e with
  | connect =>
    obtain rfl := Option.some.inj ht
    have hsocket : s.client.socket = none := by simpa [connectsAlone] using hok
    have hflag : Isolated { s.client with disconnected := false } (lastLogin s.trace) :=
      hi.frame rfl rfl rfl id rfl rfl rfl id (.inl rfl)
    exact inv_advances h (.inl ⟨logins_connect { s.client with disconnected := false },
      isolated_connect hflag hsocket⟩)
  | disconnect =>
    obtain rfl := Option.some.inj ht
    have hquiet : Isolated { s.client with keepAlive := false, expire := false, failures := -1 }
        (lastLogin s.trace) := hi.frame rfl rfl rfl id rfl rfl rfl id (.inl rfl)
    exact inv_advances h (.inl ⟨logins_close _,
      (isolated_close hquiet).frame rfl rfl rfl id rfl rfl rfl id (.inl rfl)⟩)
  | parse => exact inv_advances h (.inl (isolated_parse hi ht).symm)
  | resolved ok started =>
    obtain ⟨⟨-, hlookup⟩, ht⟩ := Option.ite_none_right_eq_some.mp ht
    obtain rfl := Option.some.inj ht
    exact inv_advances h (.inl ⟨logins_onResolved _ ok started,
      isolated_onResolved hi hlookup ok started⟩)
  | connectDone k ok outcome =>
    obtain ⟨⟨hbusy, hhandle⟩, ht⟩ := Option.ite_none_right_eq_some.mp ht
    exact inv_advances h (isolated_onConnect hi hhandle (unparsed_of_idle hbusy)
      (by simpa [loginFails] using hfails) ht)
  | readError k =>
    obtain ⟨⟨-, hk⟩, ht⟩ := Option.ite_none_right_eq_some.mp ht
    obtain rfl := Option.some.inj ht
    have hset := hi.setHandle (k := k) (by rw [hk]; rfl) .idle nofun nofun
    exact inv_advances h (.inl ⟨logins_close _, isolated_close hset⟩)
  | readHandshake k progress outcome =>
    obtain ⟨⟨hbusy, hk, -⟩, ht⟩ := Option.ite_none_right_eq_some.mp ht
    obtain rfl := Option.some.inj ht
    exact inv_advances h (isolated_readHandshake hi hk (unparsed_of_idle hbusy) progress
      (by simpa [loginFails] using hfails))
  | readLines k lines =>
    obtain ⟨⟨-, hk, hshake⟩, ht⟩ := Option.ite_none_right_eq_some.mp ht
    obtain rfl := Option.some.inj ht
    have hlast (j : Nat) (hj : s.client.handles j = .reading) : lastLogin s.trace = some j :=
      (hi.session j hj).resolve_right fun hc => by simp [hc.1] at hshake
    refine ⟨⟨hi.denoted, hi.fresh, hi.lookup, hi.session, hi.tls, fun _ => hlast⟩, fun j hj => ?_,
      h.reads⟩
    exact Option.some.inj (hj.symm.trans (hlast k hk))
  | closed k =>
    obtain ⟨⟨-, hk⟩, ht⟩ := Option.ite_none_right_eq_some.mp ht
    exact inv_advances h (.inl (isolated_onClose hi hk ht).symm)
  | tick late due outcome =>
    obtain ⟨-, ht⟩ := Option.ite_none_right_eq_some.mp ht
    obtain rfl := Option.some.inj ht
    refine inv_advances h (.inl (isolated_tick hi late due outcome fun hstate hlate => ?_).symm)
    obtain ⟨hexpire, hlate⟩ := (Bool.and_eq_true _ _).mp hlate
    simpa [connectsAlone, hstate, hexpire, hlate] using hok

theorem inv_session_start (pool : Pool) : SessionInv ⟨{ pool }, []⟩ :=
  ⟨⟨nofun, fun _ _ => rfl, nofun, nofun, nofun, nofun⟩, trivial⟩

/-- In every run in which the client is connected only when it has no socket, its connections
are isolated. -/
theorem connections_isolated {pool : Pool} {events : List Event} {s : Session}
    (hrun : Run Session.step (fun s e => connectsAlone s e = true) ⟨{ pool }, []⟩ events s) :
    IsolatedSession s := by
  have hinv := hrun.invariant (fun _ _ _ hok h hstep => session_step h hok hstep)
    (inv_session_start pool)
  exact ⟨hinv.isolated.denoted, hinv.reads⟩

/-- A connection that ends, and the next one. -/
theorem connections_isolated_run :
    (exec (guarded connectsAlone Session.step) ⟨{ pool := ⟨false, false, false⟩ }, []⟩
      [.connect, .resolved true true, .connectDone 0 true .sent,
        .readLines 0 [.login true false true], .parse, .parse, .readError 0, .closed 0,
        .tick true false .sent, .resolved true true, .connectDone 1 true .sent,
        .readLines 1 []]).map Session.trace = some [.read 1, .login 1, .read 0, .login 0] ∧
    ∃ s : Session, s.trace = [.read 1, .login 1, .read 0, .login 0] ∧ IsolatedSession s := by
  have hrun : (exec (guarded connectsAlone Session.step) ⟨{ pool := ⟨false, false, false⟩ }, []⟩
      [.connect, .resolved true true, .connectDone 0 true .sent,
        .readLines 0 [.login true false true], .parse, .parse, .readError 0, .closed 0,
        .tick true false .sent, .resolved true true, .connectDone 1 true .sent,
        .readLines 1 []]).map Session.trace = some [.read 1, .login 1, .read 0, .login 0] := by
    decide
  obtain ⟨s, hexec, hs⟩ := Option.map_eq_some_iff.mp hrun
  exact ⟨hrun, s, hs, connections_isolated (run_of_guarded (fun _ _ => id) hexec)⟩

end VeloxHash.ClientConnection
