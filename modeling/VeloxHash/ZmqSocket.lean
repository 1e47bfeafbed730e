import VeloxHash.ZmqStream

/-! The sockets under the ZMQ connection of a `DaemonClient`, numbered as `onResolved` makes
them: what libuv is told about each of them, and whose bytes are in the receive buffer. Every
event that calls `retry` says whether the client is disconnected meanwhile. -/

namespace VeloxHash.ZmqSocket

open TransitionSystem DaemonClient ZmqStream

/-- A byte, and the socket it came from. -/
structure Received where
  socket : Nat
  byte : UInt8
  deriving DecidableEq

/-- `closes` counts the calls of `uv_close`, `closing` holds the close callbacks to come and
whether they are `onZMQShutdown`, `received` what the present connection has sent. -/
structure Client where
  state : ZmqState := .notConnected
  socket : Option Nat := none
  made : Nat := 0
  connecting : Bool := false
  reading : Bool := false
  recvBuf : List Received := []
  closes : Nat → Nat := fun _ => 0
  closing : List (Nat × Bool) := []
  deleted : Bool := false
  received : List UInt8 := []

namespace Client

def isOpen (c : Client) : Bool := c.state ≠ .notConnected ∧ c.state ≠ .disconnecting

/-- `uv_close(m_ZMQSocket)`: nothing is read from then on. -/
def uvClose (c : Client) (shutdown : Bool) : Client :=
  match c.socket with
  | none => c
  | some s =>
    { c with
      closes := Function.update c.closes s (c.closes s + 1)
      closing := c.closing ++ [(s, shutdown)]
      reading := false }

def uvIsClosing (c : Client) : Bool := c.socket.any fun s => c.closes s ≠ 0

def retry (c : Client) (abandoned : Bool) : Client :=
  if abandoned then c else if c.isOpen then c.uvClose false else c

def zmqClose (c : Client) (shutdown abandoned : Bool) : Client :=
  if !c.isOpen then if shutdown then { c with deleted := true } else c
  else
    let c := { c with state := .disconnecting }
    if c.uvIsClosing then c
    else if shutdown then c.uvClose shutdown
    else (c.uvClose shutdown).retry abandoned

def zmqWrite (c : Client) (written abandoned : Bool) : Client :=
  if written then c else c.zmqClose false abandoned

/-- The receive buffer. -/
def bytes (c : Client) : List UInt8 := c.recvBuf.map Received.byte

/-- The buffer is erased up to its last bytes `rest`. -/
def erase (c : Client) (rest : List UInt8) : Client :=
  { c with recvBuf := c.recvBuf.drop (c.recvBuf.length - rest.length) }

def zmqParse (c : Client) (abandoned : Bool) : Client :=
  match scanMessage c.bytes with
  | .incomplete => c
  | .failed => c.zmqClose false abandoned
  | .complete rest => c.erase rest

def zmqHandshake (c : Client) (w : DaemonClient.Client.Writes) (abandoned : Bool) : Client :=
  match scanHandshake c.bytes with
  | .incomplete => c
  | .failed => c.zmqClose false abandoned
  | .complete rest =>
    ({ c.zmqWrite w.subscribe abandoned with state := .connected }.erase rest).zmqParse abandoned

def zmqGreeting2 (c : Client) (w : DaemonClient.Client.Writes) (abandoned : Bool) : Client :=
  match scanGreeting2 c.bytes with
  | .incomplete => c
  | .failed => c.zmqClose false abandoned
  | .complete rest =>
    let c := { c with state := .handshake }.erase rest
    if w.handshake then c.zmqHandshake w abandoned else c.zmqClose false abandoned

def zmqGreeting1 (c : Client) (w : DaemonClient.Client.Writes) (abandoned : Bool) : Client :=
  match scanGreeting1 c.bytes with
  | .incomplete => c
  | .failed => c.zmqClose false abandoned
  | .complete _ =>
    { c.zmqWrite w.greeting abandoned with state := .greeting2 }.zmqGreeting2 w abandoned

def zmqStage (c : Client) (w : DaemonClient.Client.Writes) (abandoned : Bool) : Client :=
  match c.state with
  | .greeting1 => c.zmqGreeting1 w abandoned
  | .greeting2 => c.zmqGreeting2 w abandoned
  | .handshake => c.zmqHandshake w abandoned
  | .connected => c.zmqParse abandoned
  | .notConnected | .disconnecting => c

/-- `m_ZMQRecvBuf.insert(..)`. -/
def insert (c : Client) (bytes : List UInt8) : Client :=
  { c with
    recvBuf := c.recvBuf ++ bytes.map (⟨c.socket.getD 0, ·⟩)
    received := c.received ++ bytes }

/-- `ZMQRead`; no bytes stand for `nread <= 0`. -/
def zmqRead (c : Client) (bytes : List UInt8) (w : DaemonClient.Client.Writes) (abandoned : Bool) :
    Client :=
  if bytes = [] then c.zmqClose false abandoned else (c.insert bytes).zmqStage w abandoned

/-- `ZMQConnected`. -/
def zmqConnected (c : Client) (written abandoned : Bool) : Client :=
  let c := { c with state := .greeting1, received := [] }
  if written then { c with reading := true } else c.zmqWrite written abandoned

/-- The socket that `onResolved` makes; the one before is deleted. -/
def zmqConnect (c : Client) : Client :=
  { c with socket := some c.made, made := c.made + 1, connecting := true, reading := false }

end Client

/-- `retry` stands for the HTTP replies and the calls of `connect` that end there, `closed`
for one of the close callbacks to come. -/
inductive Event
  | resolved (ok abandoned : Bool)
  | connected (ok written abandoned : Bool)
  | read (bytes : List UInt8) (writes : DaemonClient.Client.Writes) (abandoned : Bool)
  | retry (abandoned : Bool)
  | closed (index : Nat)
  | deleteLater

/-- A socket that is being closed does not connect any more. -/
def Client.step (c : Client) (e : Event) : Option Client :=
  if c.deleted then none
  else
    match e with
    | .resolved ok abandoned => some (if ok then c.zmqConnect else c.retry abandoned)
    | .connected ok written abandoned =>
      if !c.connecting || (ok && c.uvIsClosing) then none
      else
        let c := { c with connecting := false }
        some (if ok then c.zmqConnected written abandoned else c.retry abandoned)
    | .read bytes w abandoned => if c.reading then some (c.zmqRead bytes w abandoned) else none
    | .retry abandoned => some (c.retry abandoned)
    | .closed index =>
      c.closing[index]?.map fun callback =>
        { c with
          state := .notConnected
          closing := c.closing.eraseIdx index
          deleted := callback.2 }
    | .deleteLater => some (c.zmqClose true false)

/-- The dialogue of a client, without its sockets. -/
structure Same (c : Client) (d : DaemonClient.Client) : Prop where
  state : d.zmq = c.state
  bytes : d.zmqRecvBuf = c.bytes

section Dialogue

variable {c : Client} {d : DaemonClient.Client} {w : DaemonClient.Client.Writes}

theorem bytes_erase (c : Client) (rest : List UInt8) :
    (c.erase rest).bytes = c.bytes.drop (c.bytes.length - rest.length) := by
  simp only [Client.bytes, Client.erase, List.map_drop, List.length_map]

theorem bytes_erase_append (consumed : List UInt8) {rest : List UInt8}
    (h : c.bytes = consumed ++ rest) : (c.erase rest).bytes = rest := by
  rw [bytes_erase, h, List.length_append, Nat.add_sub_cancel, List.drop_left]

theorem bytes_erase_suffix {rest : List UInt8} (h : rest <:+ c.bytes) : (c.erase rest).bytes = rest :=
  h.elim fun consumed hbytes => bytes_erase_append consumed hbytes.symm

theorem bytes_insert (c : Client) (bytes : List UInt8) :
    (c.insert bytes).bytes = c.bytes ++ bytes := by
  have hsame : (bytes.map fun b => (⟨c.socket.getD 0, b⟩ : Received)).map Received.byte = bytes := by
    rw [List.map_map]
    exact List.map_id bytes
  rw [Client.bytes, Client.insert, List.map_append, hsame, ← Client.bytes]

theorem frameSize_suffix {flags : UInt8} {data rest : List UInt8} {size : Nat}
    (h : frameSize flags data = some (size, rest)) : rest <:+ data := by
  obtain ⟨-, hframe⟩ := Option.ite_none_left_eq_some.mp h
  rw [← (Prod.mk.inj (Option.some.inj hframe)).2]
  exact List.drop_suffix ..

theorem scanFrames_suffix {fuel msgSize : Nat} {data rest : List UInt8}
    (h : scanFrames fuel data msgSize = .complete rest) : rest <:+ data := by
  induction fuel generalizing data msgSize with
  | zero => exact absurd h Scan.noConfusion
  | succ fuel ih =>
    cases data with
    | nil => exact absurd h Scan.noConfusion
    | cons flags data =>
      rw [scanFrames] at h
      cases hsize : frameSize flags data with
      | none =>
        rw [hsize] at h
        exact absurd h Scan.noConfusion
      | some frame =>
        have hframe : frame.2.drop frame.1 <:+ flags :: data :=
          (List.drop_suffix ..).trans ((frameSize_suffix hsize).trans (List.suffix_cons ..))
        rw [hsize] at h
        dsimp only at h
        split at h
        · exact absurd h Scan.noConfusion
        · split at h
          · exact absurd h Scan.noConfusion
          · split at h
            · exact (ih h).trans hframe
            · obtain rfl := Scan.complete.inj h
              exact hframe

theorem scanGreeting2_suffix {buf rest : List UInt8} (h : scanGreeting2 buf = .complete rest) :
    rest <:+ buf := by
  unfold scanGreeting2 at h
  split at h
  · exact absurd h Scan.noConfusion
  · split at h
    · obtain rfl := Scan.complete.inj h
      exact List.drop_suffix ..
    · exact absurd h Scan.noConfusion

theorem scanHandshake_suffix {buf rest : List UInt8} (h : scanHandshake buf = .complete rest) :
    rest <:+ buf := by
  unfold scanHandshake at h
  split at h
  case h_1 tag size data =>
    split at h
    · exact absurd h Scan.noConfusion
    · split at h
      · exact absurd h Scan.noConfusion
      · split at h
        · obtain rfl := Scan.complete.inj h
          exact (List.drop_suffix ..).trans
            ((List.suffix_cons ..).trans (List.suffix_cons ..))
        · exact absurd h Scan.noConfusion
  case h_2 => exact absurd h Scan.noConfusion

theorem setState_zmq (d : DaemonClient.Client) (state : SocketState) :
    (d.setState state).zmq = d.zmq ∧ (d.setState state).zmqRecvBuf = d.zmqRecvBuf := by
  unfold DaemonClient.Client.setState
  split
  · exact ⟨rfl, rfl⟩
  · cases state <;> exact ⟨rfl, rfl⟩

theorem retry_zmq (d : DaemonClient.Client) :
    d.retry.zmq = d.zmq ∧ d.retry.zmqRecvBuf = d.zmqRecvBuf := by
  unfold DaemonClient.Client.retry
  dsimp only
  split
  · exact ⟨rfl, rfl⟩
  · split
    · exact setState_zmq ..
    · exact ⟨rfl, rfl⟩

theorem zmqClose_zmq (d : DaemonClient.Client) :
    d.zmqClose.zmq = (if d.zmqOpen then .disconnecting else d.zmq) ∧
      d.zmqClose.zmqRecvBuf = d.zmqRecvBuf := by
  unfold DaemonClient.Client.zmqClose DaemonClient.Client.zmqCloses
  by_cases hopen : d.zmqOpen = true
  · simp only [hopen, true_and, if_true]
    split
    · exact retry_zmq ..
    · exact ⟨rfl, rfl⟩
  · simp [hopen]

theorem uvClose_same (c : Client) (shutdown : Bool) :
    (c.uvClose shutdown).state = c.state ∧ (c.uvClose shutdown).bytes = c.bytes := by
  unfold Client.uvClose
  split <;> exact ⟨rfl, rfl⟩

theorem retry_same (c : Client) (abandoned : Bool) :
    (c.retry abandoned).state = c.state ∧ (c.retry abandoned).bytes = c.bytes := by
  unfold Client.retry
  split
  · exact ⟨rfl, rfl⟩
  · split
    · exact uvClose_same ..
    · exact ⟨rfl, rfl⟩

theorem zmqClose_same (c : Client) (shutdown abandoned : Bool) :
    (c.zmqClose shutdown abandoned).state = (if c.isOpen then .disconnecting else c.state) ∧
      (c.zmqClose shutdown abandoned).bytes = c.bytes := by
  unfold Client.zmqClose
  by_cases hopen : c.isOpen = true
  · rw [hopen, if_neg (by simp), if_pos rfl]
    dsimp only
    split
    · exact ⟨rfl, rfl⟩
    · have hclose := uvClose_same { c with state := .disconnecting } shutdown
      split
      · exact hclose
      · have hretry := retry_same (({ c with state := .disconnecting } : Client).uvClose shutdown)
          abandoned
        exact ⟨hretry.1.trans hclose.1, hretry.2.trans hclose.2⟩
  · rw [if_pos (by simpa using hopen), if_neg hopen]
    split <;> exact ⟨rfl, rfl⟩

theorem Same.zmqClose (h : Same c d) (abandoned : Bool) :
    Same (c.zmqClose false abandoned) d.zmqClose := by
  obtain ⟨hstate, hbytes⟩ := zmqClose_same c false abandoned
  obtain ⟨hzmq, hbuf⟩ := zmqClose_zmq d
  have hopen : d.zmqOpen = c.isOpen := by
    rw [DaemonClient.Client.zmqOpen, Client.isOpen, h.state]
  exact ⟨by rw [hstate, hzmq, hopen, h.state], by rw [hbytes, hbuf, h.bytes]⟩

theorem Same.zmqWrite (h : Same c d) (written abandoned : Bool) :
    Same (c.zmqWrite written abandoned) (d.zmqWrite written) := by
  unfold Client.zmqWrite DaemonClient.Client.zmqWrite
  split
  · exact h
  · exact h.zmqClose abandoned

theorem Same.zmqParse (h : Same c d) (abandoned : Bool) :
    Same (c.zmqParse abandoned) d.zmqParse := by
  unfold Client.zmqParse DaemonClient.Client.zmqParse
  rw [h.bytes]
  cases hscan : scanMessage c.bytes with
  | incomplete => exact h
  | failed => exact h.zmqClose abandoned
  | complete rest =>
    exact ⟨h.state, (bytes_erase_suffix (scanFrames_suffix hscan)).symm⟩

theorem Same.zmqHandshake (h : Same c d) (abandoned : Bool) :
    Same (c.zmqHandshake w abandoned) (d.zmqHandshake w) := by
  unfold Client.zmqHandshake DaemonClient.Client.zmqHandshake
  rw [h.bytes]
  cases hscan : scanHandshake c.bytes with
  | incomplete => exact h
  | failed => exact h.zmqClose abandoned
  | complete rest =>
    have hwrite := h.zmqWrite w.subscribe abandoned
    have hkept : (c.zmqWrite w.subscribe abandoned).bytes = c.bytes := by
      unfold Client.zmqWrite
      split
      · rfl
      · exact (zmqClose_same ..).2
    have hsuffix := scanHandshake_suffix hscan
    rw [← hkept] at hsuffix
    exact Same.zmqParse ⟨rfl, (bytes_erase_suffix hsuffix).symm⟩ abandoned

theorem Same.zmqGreeting2 (h : Same c d) (abandoned : Bool) :
    Same (c.zmqGreeting2 w abandoned) (d.zmqGreeting2 w) := by
  unfold Client.zmqGreeting2 DaemonClient.Client.zmqGreeting2
  rw [h.bytes]
  cases hscan : scanGreeting2 c.bytes with
  | incomplete => exact h
  | failed => exact h.zmqClose abandoned
  | complete rest =>
    have hhandshake : Same ({ c with state := .handshake }.erase rest)
        { d with zmq := .handshake, zmqRecvBuf := rest } :=
      ⟨rfl, (bytes_erase_suffix (scanGreeting2_suffix hscan)).symm⟩
    dsimp only
    split
    · exact hhandshake.zmqHandshake abandoned
    · exact hhandshake.zmqClose abandoned

theorem Same.zmqGreeting1 (h : Same c d) (abandoned : Bool) :
    Same (c.zmqGreeting1 w abandoned) (d.zmqGreeting1 w) := by
  unfold Client.zmqGreeting1 DaemonClient.Client.zmqGreeting1
  rw [h.bytes]
  cases hscan : scanGreeting1 c.bytes with
  | incomplete => exact h
  | failed => exact h.zmqClose abandoned
  | complete rest =>
    have hwrite := (h.zmqWrite w.greeting abandoned).bytes
    have hsecond : Same { c.zmqWrite w.greeting abandoned with state := .greeting2 }
        { d.zmqWrite w.greeting with zmq := .greeting2 } := ⟨rfl, hwrite⟩
    exact hsecond.zmqGreeting2 abandoned

theorem Same.zmqStage (h : Same c d) (abandoned : Bool) :
    Same (c.zmqStage w abandoned) (d.zmqStage w) := by
  have hstate := h.state
  unfold Client.zmqStage DaemonClient.Client.zmqStage
  cases hs : c.state
  all_goals
    rw [hs] at hstate
    simp only [hstate]
  · exact h
  · exact h.zmqGreeting1 abandoned
  · exact h.zmqGreeting2 abandoned
  · exact h.zmqHandshake abandoned
  · exact h.zmqParse abandoned
  · exact h

/-- A read takes both models of the dialogue to the same state and the same buffer. -/
theorem Same.zmqRead (h : Same c d) (bytes : List UInt8) (abandoned : Bool) :
    Same (c.zmqRead bytes w abandoned) (d.zmqRead bytes w) := by
  unfold Client.zmqRead DaemonClient.Client.zmqRead
  split
  · exact h.zmqClose abandoned
  · have hinsert : Same (c.insert bytes) { d with zmqRecvBuf := d.zmqRecvBuf ++ bytes } :=
      ⟨h.state, by rw [bytes_insert, h.bytes]⟩
    exact hinsert.zmqStage abandoned

end Dialogue

/-- `uv_close` is called once at most for each socket, and while a close callback is to come
the state is `ZMQ_DISCONNECTING`. -/
structure ClosesOnce (c : Client) : Prop where
  once : ∀ s, c.closes s ≤ 1
  disconnecting : c.closing ≠ [] → c.state = .disconnecting

/-- Nothing but `ZMQClose` closes an open connection; the writes of the second half of the
greeting and of the subscription succeed, where they are made; a connection is established
after the close callback of the one before. -/
def Orderly (c : Client) : Event → Prop
  | .retry abandoned | .resolved false abandoned | .connected false _ abandoned =>
    abandoned = true ∨ c.isOpen = false
  | .connected true _ _ => c.closing = []
  | .read _ w _ => w.greeting = true ∧ w.subscribe = true
  | .resolved true _ | .closed _ | .deleteLater => True

instance (c : Client) (e : Event) : Decidable (Orderly c e) := by
  unfold Orderly
  split <;> infer_instance

structure Inv (c : Client) : Prop extends ClosesOnce c where
  fresh : ∀ s, c.made ≤ s → c.closes s = 0
  socket : ∀ s, c.socket = some s → s < c.made
  wired : c.connecting = true → c.socket ≠ none
  opened : c.isOpen = true → c.closing = [] ∧ ∃ s, c.socket = some s ∧ c.closes s = 0
  single : c.closing.length ≤ 1

section Orderly

variable {c d : Client} {e : Event} {abandoned : Bool}

theorem isOpen_iff : c.isOpen = true ↔ c.state ≠ .notConnected ∧ c.state ≠ .disconnecting := by
  simp [Client.isOpen]

theorem isOpen_congr (h : d.state = c.state) : d.isOpen = c.isOpen := by
  rw [Client.isOpen, Client.isOpen, h]

/-- What is left alone by everything but opening and closing. -/
theorem Inv.congr (h : Inv c) (hcloses : d.closes = c.closes) (hclosing : d.closing = c.closing)
    (hmade : d.made = c.made) (hsocket : d.socket = c.socket)
    (hconnecting : d.connecting = true → c.connecting = true)
    (hstate : d.state = c.state ∨ c.isOpen = true) : Inv d := by
  have hkept (hopen : d.isOpen = true) (hsame : d.state = c.state) : c.isOpen = true := by
    rwa [← isOpen_congr hsame]
  have hopened (hopen : d.isOpen = true) : c.isOpen = true := hstate.elim (hkept hopen) id
  refine ⟨⟨hcloses ▸ h.once, fun hne => ?_⟩, ?_, ?_, ?_, fun hopen => ?_, hclosing ▸ h.single⟩
  · rw [hclosing] at hne
    rcases hstate with hsame | hopen
    · exact hsame.trans (h.disconnecting hne)
    · exact absurd (h.opened hopen).1 hne
  · rw [hmade, hcloses]
    exact h.fresh
  · rw [hmade, hsocket]
    exact h.socket
  · rw [hsocket]
    exact fun hc => h.wired (hconnecting hc)
  · rw [hclosing, hsocket, hcloses]
    exact h.opened (hopened hopen)

theorem Inv.retry (h : Inv c) (hclosed : abandoned = true ∨ c.isOpen = false) :
    Inv (c.retry abandoned) := by
  unfold Client.retry
  rcases hclosed with hclosed | hclosed
  · rw [if_pos hclosed]
    exact h
  · rw [hclosed]
    split <;> exact h

/-- An open socket is closed, and closed no more. -/
theorem Inv.close (h : Inv c) (hopen : c.isOpen = true) (shutdown : Bool) :
    Inv ({ c with state := .disconnecting }.uvClose shutdown) := by
  obtain ⟨hnone, s, hsocket, hzero⟩ := h.opened hopen
  have hclosed : ({ c with state := .disconnecting } : Client).uvClose shutdown =
      { c with
        state := .disconnecting
        closes := Function.update c.closes s 1
        closing := [(s, shutdown)]
        reading := false } := by
    simp [Client.uvClose, hsocket, hzero, hnone]
  rw [hclosed]
  have hothers (t : Nat) (hts : t ≠ s) : Function.update c.closes s 1 t = c.closes t :=
    Function.update_of_ne hts ..
  refine ⟨⟨fun t => ?_, fun _ => rfl⟩, fun t ht => ?_, h.socket, h.wired, fun hopen => ?_, le_rfl⟩
  · by_cases hts : t = s
    · rw [hts]
      exact (Function.update_self ..).le
    · exact (hothers t hts).trans_le (h.once t)
  · have hne : t ≠ s := by
      have := h.socket s hsocket
      rintro rfl
      exact absurd this (Nat.not_lt.mpr ht)
    exact (hothers t hne).trans (h.fresh t ht)
  · exact absurd rfl (isOpen_iff.mp hopen).2

@[simp] theorem uvClose_state (c : Client) (shutdown : Bool) : (c.uvClose shutdown).state = c.state := by
  unfold Client.uvClose
  split <;> rfl

theorem Inv.zmqClose (h : Inv c) (shutdown abandoned : Bool) :
    Inv (c.zmqClose shutdown abandoned) := by
  unfold Client.zmqClose
  by_cases hopen : c.isOpen = true
  · obtain ⟨-, s, hsocket, hzero⟩ := h.opened hopen
    have hnot : ({ c with state := .disconnecting } : Client).uvIsClosing = false := by
      simp [Client.uvIsClosing, hsocket, hzero]
    have hclose := h.close hopen shutdown
    rw [hopen, if_neg (by simp)]
    dsimp only
    rw [hnot, if_neg (by simp)]
    split
    · exact hclose
    · exact hclose.retry (.inr (by simp [Client.isOpen]))
  · rw [if_pos (by simpa using hopen)]
    split
    · exact h.congr rfl rfl rfl rfl id (.inl rfl)
    · exact h

theorem Inv.erase (h : Inv c) (rest : List UInt8) : Inv (c.erase rest) :=
  h.congr rfl rfl rfl rfl id (.inl rfl)

theorem Inv.zmqParse (h : Inv c) (abandoned : Bool) : Inv (c.zmqParse abandoned) := by
  unfold Client.zmqParse
  split
  case h_1 => exact h
  case h_2 => exact h.zmqClose ..
  case h_3 rest _ => exact h.erase rest

variable {w : DaemonClient.Client.Writes}

theorem Inv.zmqHandshake (h : Inv c) (hopen : c.isOpen = true) (hw : w.subscribe = true) :
    Inv (c.zmqHandshake w abandoned) := by
  unfold Client.zmqHandshake
  split
  case h_1 => exact h
  case h_2 => exact h.zmqClose ..
  case h_3 rest _ =>
    have hconnected : Inv { c with state := .connected } :=
      h.congr rfl rfl rfl rfl id (.inr hopen)
    rw [hw]
    exact (hconnected.erase rest).zmqParse abandoned

theorem Inv.zmqGreeting2 (h : Inv c) (hopen : c.isOpen = true) (hw : w.subscribe = true) :
    Inv (c.zmqGreeting2 w abandoned) := by
  unfold Client.zmqGreeting2
  split
  case h_1 => exact h
  case h_2 => exact h.zmqClose ..
  case h_3 rest _ =>
    have hhandshake : Inv ({ c with state := .handshake }.erase rest) :=
      (h.congr rfl rfl rfl rfl id (.inr hopen) : Inv { c with state := .handshake }).erase rest
    dsimp only
    split
    · exact hhandshake.zmqHandshake rfl hw
    · exact hhandshake.zmqClose ..

theorem Inv.zmqGreeting1 (h : Inv c) (hopen : c.isOpen = true) (hgreeting : w.greeting = true)
    (hsubscribe : w.subscribe = true) : Inv (c.zmqGreeting1 w abandoned) := by
  unfold Client.zmqGreeting1
  split
  case h_1 => exact h
  case h_2 => exact h.zmqClose ..
  case h_3 =>
    have hsecond : Inv { c with state := .greeting2 } := h.congr rfl rfl rfl rfl id (.inr hopen)
    rw [hgreeting]
    exact hsecond.zmqGreeting2 rfl hsubscribe

theorem Inv.zmqRead (h : Inv c) (hgreeting : w.greeting = true) (hsubscribe : w.subscribe = true)
    (bytes : List UInt8) : Inv (c.zmqRead bytes w abandoned) := by
  unfold Client.zmqRead
  split
  · exact h.zmqClose ..
  · have hinsert : Inv (c.insert bytes) := h.congr rfl rfl rfl rfl id (.inl rfl)
    have hopen (hstate : (c.insert bytes).state ≠ .notConnected ∧
        (c.insert bytes).state ≠ .disconnecting) : (c.insert bytes).isOpen = true :=
      isOpen_iff.mpr hstate
    unfold Client.zmqStage
    split
    case h_1 hs => exact hinsert.zmqGreeting1 (hopen (by simp [hs])) hgreeting hsubscribe
    case h_2 hs => exact hinsert.zmqGreeting2 (hopen (by simp [hs])) hsubscribe
    case h_3 hs => exact hinsert.zmqHandshake (hopen (by simp [hs])) hsubscribe
    case h_4 => exact hinsert.zmqParse abandoned
    all_goals exact hinsert

theorem Inv.zmqConnect (h : Inv c) : Inv c.zmqConnect where
  once := h.once
  disconnecting := h.disconnecting
  fresh s hs := h.fresh s (Nat.le_of_succ_le hs)
  socket s hs := by
    obtain rfl : c.made = s := Option.some.inj hs
    exact Nat.lt_succ_self _
  wired _ := Option.some_ne_none _
  opened hopen := ⟨(h.opened hopen).1, c.made, rfl, h.fresh _ le_rfl⟩
  single := h.single

/-- A connection is established on a socket that nobody closed. -/
theorem Inv.zmqConnected (h : Inv c) (hclosing : c.closing = []) (hsocket : c.socket ≠ none)
    (hkept : c.uvIsClosing = false) (written : Bool) : Inv (c.zmqConnected written abandoned) := by
  obtain ⟨s, hs⟩ := Option.ne_none_iff_exists'.mp hsocket
  have hzero : c.closes s = 0 := by
    rw [Client.uvIsClosing, hs] at hkept
    simpa using hkept
  have hgreeting : Inv { c with state := .greeting1, received := [] } :=
    { h with
      disconnecting := fun hne => absurd hclosing hne
      opened := fun _ => ⟨hclosing, s, hs, hzero⟩ }
  unfold Client.zmqConnected
  cases written with
  | true => exact hgreeting.congr rfl rfl rfl rfl id (.inl rfl)
  | false => exact hgreeting.zmqClose ..

/-- The close callback of the only socket that is being closed. -/
theorem Inv.closed (h : Inv c) {index : Nat} {callback : Nat × Bool}
    (hcallback : c.closing[index]? = some callback) :
    Inv { c with
      state := .notConnected
      closing := c.closing.eraseIdx index
      deleted := callback.2 } := by
  have hlt : index < c.closing.length := (List.getElem?_eq_some_iff.mp hcallback).1
  have hnone : c.closing.eraseIdx index = [] := by
    have hsingle := h.single
    rw [← List.length_eq_zero_iff, List.length_eraseIdx_of_lt hlt]
    omega
  exact
    { h with
      disconnecting := fun hne => absurd hnone hne
      opened := fun hopen => absurd rfl (isOpen_iff.mp hopen).1
      single := by rw [hnone]; exact Nat.zero_le _ }

/-- What a step of an orderly run keeps. -/
theorem Inv.step (h : Inv c) (horderly : Orderly c e) (hstep : c.step e = some d) : Inv d := by
  unfold Client.step at hstep
  split at hstep
  · exact absurd hstep.symm (Option.some_ne_none _)
  · cases e with
    | resolved ok abandoned =>
      obtain rfl := Option.some.inj hstep
      cases ok with
      | true => exact h.zmqConnect
      | false => exact h.retry horderly
    | connected ok written abandoned =>
      dsimp only at hstep
      split at hstep
      case isTrue => exact absurd hstep.symm (Option.some_ne_none _)
      case isFalse hwaiting =>
        obtain rfl := Option.some.inj hstep
        have hdone : Inv { c with connecting := false } :=
          h.congr rfl rfl rfl rfl (by simp) (.inl rfl)
        cases ok with
        | true =>
          obtain ⟨hconnecting, hkept⟩ : c.connecting = true ∧ c.uvIsClosing = false := by
            simpa using hwaiting
          exact hdone.zmqConnected horderly (h.wired hconnecting) hkept written
        | false => exact hdone.retry horderly
    | read bytes w abandoned =>
      obtain ⟨-, hread⟩ := Option.ite_none_right_eq_some.mp hstep
      obtain rfl := Option.some.inj hread
      exact h.zmqRead horderly.1 horderly.2 bytes
    | retry abandoned =>
      obtain rfl := Option.some.inj hstep
      exact h.retry horderly
    | closed index =>
      obtain ⟨callback, hcallback, rfl⟩ := Option.map_eq_some_iff.mp hstep
      exact h.closed hcallback
    | deleteLater =>
      obtain rfl := Option.some.inj hstep
      exact h.zmqClose ..

theorem inv_init : Inv {} where
  once _ := Nat.zero_le _
  disconnecting h := absurd rfl h
  fresh _ _ := rfl
  socket _ h := absurd h.symm (Option.some_ne_none _)
  wired h := absurd h Bool.false_ne_true
  opened h := absurd rfl (isOpen_iff.mp h).1
  single := Nat.zero_le _

end Orderly

/-- Two failing HTTP replies while the connection is open: `retry` calls `uv_close` twice. -/
theorem socket_closed_twice : ¬ ∀ schedule c,
    Run Client.step (fun _ _ => True) {} schedule c → ClosesOnce c := by
  intro h
  have hexec : (exec Client.step {} [.resolved true false, .connected true true false,
      .retry false, .retry false]).map (·.closes 0) = some 2 := by decide +kernel
  obtain ⟨c, hrun, htwice⟩ := Option.map_eq_some_iff.mp hexec
  have honce := (h _ c (run_of_exec hrun)).once 0
  rw [htwice] at honce
  exact absurd honce (by decide)

theorem closes_once {schedule : List Event} {c : Client}
    (h : Run Client.step Orderly {} schedule c) : ClosesOnce c :=
  (h.invariant (fun _ _ _ horderly hinv hstep => hinv.step horderly hstep) inv_init).toClosesOnce

/-- A read error, a second connection, and the end of the client. -/
theorem closes_once_reconnect : ∃ schedule c, Run Client.step Orderly {} schedule c ∧
    c.deleted = true ∧ ClosesOnce c := by
  have hexec : (exec (guarded (fun c e => decide (Orderly c e)) Client.step) {}
      [.resolved true false, .connected true true false, .read [] ⟨true, true, true⟩ false,
        .closed 0, .resolved true false, .connected true true false,
        .read greeting ⟨true, true, true⟩ false, .deleteLater, .closed 0]).map (·.deleted) =
      some true := by decide +kernel
  obtain ⟨c, hrun, hdeleted⟩ := Option.map_eq_some_iff.mp hexec
  have hrun := run_of_guarded (fun _ _ => of_decide_eq_true) hrun
  exact ⟨_, c, hrun, hdeleted, closes_once hrun⟩

/-- The receive buffer is empty when a connection is established, and no close callback comes
while there is one. -/
def Fresh (c : Client) : Event → Prop
  | .connected true _ _ => c.recvBuf = []
  | .closed _ => c.reading = false
  | _ => True

instance (c : Client) (e : Event) : Decidable (Fresh c e) := by
  unfold Fresh
  split <;> infer_instance

/-- What the states of the opening examine. -/
def Examined (c : Client) : Prop :=
  match c.state with
  | .greeting1 => c.bytes = c.received
  | .greeting2 => 11 ≤ c.received.length ∧ c.bytes = c.received
  | .handshake => 64 ≤ c.received.length ∧ c.bytes = c.received.drop 64
  | .connected | .notConnected | .disconnecting => True

/-- A client that reads from its present connection. -/
structure Live (c : Client) : Prop where
  wired : c.socket ≠ none
  kept : c.uvIsClosing = false
  opened : c.isOpen = true
  own : ∀ r ∈ c.recvBuf, c.socket = some r.socket
  examined : Examined c

/-- A property that the handling of a read keeps at each of its steps. -/
structure Stable (P : Client → Prop) : Prop where
  uvClose {c : Client} (shutdown : Bool) : P c → P (c.uvClose shutdown)
  state {c : Client} (state : ZmqState) : P c → P { c with state := state }
  erase {c : Client} (rest : List UInt8) : P c → P (c.erase rest)
  delete {c : Client} : P c → P { c with deleted := true }

section Isolation

variable {P : Client → Prop} {c d : Client} {e : Event} {w : DaemonClient.Client.Writes}
  {abandoned : Bool}

theorem Stable.retry (hP : Stable P) (h : P c) (abandoned : Bool) : P (c.retry abandoned) := by
  unfold Client.retry
  split
  · exact h
  · split
    · exact hP.uvClose false h
    · exact h

theorem Stable.zmqClose (hP : Stable P) (h : P c) (shutdown abandoned : Bool) :
    P (c.zmqClose shutdown abandoned) := by
  have hstate := hP.state .disconnecting h
  unfold Client.zmqClose
  split
  · split
    · exact hP.delete h
    · exact h
  · dsimp only
    split
    · exact hstate
    · split
      · exact hP.uvClose shutdown hstate
      · exact hP.retry (hP.uvClose shutdown hstate) abandoned

theorem Stable.zmqWrite (hP : Stable P) (h : P c) (written abandoned : Bool) :
    P (c.zmqWrite written abandoned) := by
  unfold Client.zmqWrite
  split
  · exact h
  · exact hP.zmqClose h false abandoned

theorem Stable.zmqParse (hP : Stable P) (h : P c) (abandoned : Bool) :
    P (c.zmqParse abandoned) := by
  unfold Client.zmqParse
  split
  case h_1 => exact h
  case h_2 => exact hP.zmqClose h false abandoned
  case h_3 rest _ => exact hP.erase rest h

theorem Stable.zmqHandshake (hP : Stable P) (h : P c) : P (c.zmqHandshake w abandoned) := by
  unfold Client.zmqHandshake
  split
  case h_1 => exact h
  case h_2 => exact hP.zmqClose h false abandoned
  case h_3 rest _ =>
    exact hP.zmqParse (hP.erase rest (hP.state .connected (hP.zmqWrite h ..))) abandoned

theorem Stable.zmqGreeting2 (hP : Stable P) (h : P c) : P (c.zmqGreeting2 w abandoned) := by
  unfold Client.zmqGreeting2
  split
  case h_1 => exact h
  case h_2 => exact hP.zmqClose h false abandoned
  case h_3 rest _ =>
    have hhandshake := hP.erase rest (hP.state .handshake h)
    dsimp only
    split
    · exact hP.zmqHandshake hhandshake
    · exact hP.zmqClose hhandshake false abandoned

theorem Stable.zmqGreeting1 (hP : Stable P) (h : P c) : P (c.zmqGreeting1 w abandoned) := by
  unfold Client.zmqGreeting1
  split
  case h_1 => exact h
  case h_2 => exact hP.zmqClose h false abandoned
  case h_3 => exact hP.zmqGreeting2 (hP.state .greeting2 (hP.zmqWrite h ..))

theorem Stable.zmqStage (hP : Stable P) (h : P c) : P (c.zmqStage w abandoned) := by
  unfold Client.zmqStage
  split
  case h_1 => exact hP.zmqGreeting1 h
  case h_2 => exact hP.zmqGreeting2 h
  case h_3 => exact hP.zmqHandshake h
  case h_4 => exact hP.zmqParse h abandoned
  all_goals exact h

theorem stable_reading : Stable (·.reading = false) where
  uvClose {c} shutdown h := by
    unfold Client.uvClose
    split
    · exact h
    · rfl
  state _ h := h
  erase _ h := h
  delete h := h

theorem stable_wired : Stable fun c => c.connecting = true → c.socket ≠ none where
  uvClose {c} shutdown h := by
    unfold Client.uvClose
    split
    · exact h
    · exact h
  state _ h := h
  erase _ h := h
  delete h := h

theorem uvClose_reading (hwired : c.socket ≠ none) (shutdown : Bool) :
    (c.uvClose shutdown).reading = false := by
  obtain ⟨s, hs⟩ := Option.ne_none_iff_exists'.mp hwired
  simp only [Client.uvClose, hs]

/-- Nothing is read from a connection that `ZMQClose` closes. -/
theorem Live.zmqClose (h : Live c) (shutdown abandoned : Bool) :
    (c.zmqClose shutdown abandoned).reading = false := by
  have hkept : ({ c with state := .disconnecting } : Client).uvIsClosing = false := h.kept
  have hclose : (({ c with state := .disconnecting } : Client).uvClose shutdown).reading = false :=
    uvClose_reading (c := { c with state := .disconnecting }) h.wired shutdown
  unfold Client.zmqClose
  rw [h.opened, if_neg (by simp)]
  dsimp only
  rw [hkept, if_neg (by simp)]
  split
  · exact hclose
  · exact stable_reading.retry hclose abandoned

theorem Live.retry (h : Live c) (hreading : (c.retry abandoned).reading = true) :
    Live (c.retry abandoned) := by
  unfold Client.retry at hreading ⊢
  split
  case isTrue => exact h
  case isFalse hkept =>
    rw [if_neg hkept, h.opened, if_pos rfl, uvClose_reading h.wired] at hreading
    exact absurd hreading Bool.false_ne_true

theorem Live.state (h : Live c) {state : ZmqState}
    (hopen : state ≠ .notConnected ∧ state ≠ .disconnecting)
    (hexamined : Examined { c with state := state }) : Live { c with state := state } :=
  ⟨h.wired, h.kept, isOpen_iff.mpr hopen, h.own, hexamined⟩

theorem own_erase (h : ∀ r ∈ c.recvBuf, c.socket = some r.socket) (rest : List UInt8) :
    ∀ r ∈ (c.erase rest).recvBuf, (c.erase rest).socket = some r.socket :=
  fun r hr => h r (List.mem_of_mem_drop hr)

theorem Live.zmqParse (h : Live c) (hstate : c.state = .connected)
    (hreading : (c.zmqParse abandoned).reading = true) : Live (c.zmqParse abandoned) := by
  unfold Client.zmqParse at hreading ⊢
  split
  case h_1 => exact h
  case h_2 hscan =>
    rw [hscan, h.zmqClose] at hreading
    exact absurd hreading Bool.false_ne_true
  case h_3 rest _ =>
    refine ⟨h.wired, h.kept, h.opened, own_erase h.own rest, ?_⟩
    unfold Examined
    rw [show (c.erase rest).state = .connected from hstate]
    trivial

/-- `h` says what is left if the connection was not closed on the way. -/
theorem Live.zmqHandshake (h : Live c) (hreading : (c.zmqHandshake w abandoned).reading = true) :
    Live (c.zmqHandshake w abandoned) := by
  unfold Client.zmqHandshake at hreading ⊢
  split
  case h_1 => exact h
  case h_2 hscan =>
    rw [hscan, h.zmqClose] at hreading
    exact absurd hreading Bool.false_ne_true
  case h_3 rest hscan =>
    rw [hscan] at hreading
    unfold Client.zmqWrite at hreading ⊢
    split
    case isTrue hwritten =>
      rw [if_pos hwritten] at hreading
      exact Live.zmqParse ⟨h.wired, h.kept, rfl, own_erase h.own rest, trivial⟩ rfl hreading
    case isFalse hwritten =>
      rw [if_neg hwritten] at hreading
      have hclosed := stable_reading.zmqParse (stable_reading.erase rest
        (stable_reading.state .connected (h.zmqClose false abandoned))) abandoned
      exact absurd (hreading.symm.trans hclosed) Bool.noConfusion

theorem scanGreeting2_complete {buf rest : List UInt8} (h : scanGreeting2 buf = .complete rest) :
    64 ≤ buf.length ∧ rest = buf.drop 64 := by
  unfold scanGreeting2 at h
  have hlength : DaemonClient.greeting.length = 64 := rfl
  split at h
  · exact absurd h Scan.noConfusion
  · split at h
    · obtain rfl := Scan.complete.inj h
      exact ⟨by omega, rfl⟩
    · exact absurd h Scan.noConfusion

theorem scanGreeting1_complete {buf rest : List UInt8} (h : scanGreeting1 buf = .complete rest) :
    11 ≤ buf.length := by
  unfold scanGreeting1 greetingSize1 at h
  split at h
  · exact absurd h Scan.noConfusion
  · omega

theorem Live.zmqGreeting2 (h : Live c) (hbytes : c.bytes = c.received)
    (hreading : (c.zmqGreeting2 w abandoned).reading = true) :
    Live (c.zmqGreeting2 w abandoned) := by
  unfold Client.zmqGreeting2 at hreading ⊢
  split
  case h_1 => exact h
  case h_2 hscan =>
    rw [hscan, h.zmqClose] at hreading
    exact absurd hreading Bool.false_ne_true
  case h_3 rest hscan =>
    obtain ⟨hlong, hrest⟩ := scanGreeting2_complete hscan
    have hexamined : Examined ({ c with state := .handshake }.erase rest) := by
      refine ⟨?_, (bytes_erase ..).trans ?_⟩
      · rwa [hbytes] at hlong
      · change c.bytes.drop (c.bytes.length - rest.length) = c.received.drop 64
        rw [hrest, List.length_drop, ← hbytes]
        congr 1
        omega
    have hhandshake : Live ({ c with state := .handshake }.erase rest) :=
      ⟨h.wired, h.kept, rfl, own_erase h.own rest, hexamined⟩
    rw [hscan] at hreading
    dsimp only at hreading ⊢
    split
    case isTrue hwritten =>
      rw [if_pos hwritten] at hreading
      exact hhandshake.zmqHandshake hreading
    case isFalse hwritten =>
      rw [if_neg hwritten, hhandshake.zmqClose] at hreading
      exact absurd hreading Bool.false_ne_true

theorem Live.zmqGreeting1 (h : Live c) (hbytes : c.bytes = c.received)
    (hreading : (c.zmqGreeting1 w abandoned).reading = true) :
    Live (c.zmqGreeting1 w abandoned) := by
  unfold Client.zmqGreeting1 at hreading ⊢
  split
  case h_1 => exact h
  case h_2 hscan =>
    rw [hscan, h.zmqClose] at hreading
    exact absurd hreading Bool.false_ne_true
  case h_3 hscan =>
    have hlong := scanGreeting1_complete hscan
    rw [hbytes] at hlong
    rw [hscan] at hreading
    unfold Client.zmqWrite at hreading ⊢
    split
    case isTrue hwritten =>
      rw [if_pos hwritten] at hreading
      have hsecond : Live { c with state := .greeting2 } := h.state (by decide) ⟨hlong, hbytes⟩
      exact hsecond.zmqGreeting2 hbytes hreading
    case isFalse hwritten =>
      rw [if_neg hwritten] at hreading
      have hclosed := @Stable.zmqGreeting2 _ _ w abandoned stable_reading
        (stable_reading.state .greeting2 (h.zmqClose false abandoned))
      exact absurd (hreading.symm.trans hclosed) Bool.noConfusion

/-- The bytes of a read are the present connection's. -/
theorem Live.insert (h : Live c) (bytes : List UInt8) : Live (c.insert bytes) := by
  refine ⟨h.wired, h.kept, h.opened, fun r hr => ?_, ?_⟩
  · rcases List.mem_append.mp hr with hr | hr
    · exact h.own r hr
    · obtain ⟨b, -, rfl⟩ := List.mem_map.mp hr
      obtain ⟨s, hs⟩ := Option.ne_none_iff_exists'.mp h.wired
      change c.socket = some (c.socket.getD 0)
      rw [hs, Option.getD_some]
  · have hlength : (c.insert bytes).received.length = c.received.length + bytes.length :=
      List.length_append
    have hexamined := h.examined
    unfold Examined at hexamined ⊢
    rw [bytes_insert, hlength]
    change match c.state with
      | .greeting1 => c.bytes ++ bytes = c.received ++ bytes
      | .greeting2 => 11 ≤ c.received.length + bytes.length ∧
          c.bytes ++ bytes = c.received ++ bytes
      | .handshake => 64 ≤ c.received.length + bytes.length ∧
          c.bytes ++ bytes = (c.received ++ bytes).drop 64
      | .connected | .notConnected | .disconnecting => True
    split
    case h_1 hs =>
      rw [hs] at hexamined
      rw [hexamined]
    case h_2 hs =>
      rw [hs] at hexamined
      exact ⟨Nat.le_add_right_of_le hexamined.1, by rw [hexamined.2]⟩
    case h_3 hs =>
      rw [hs] at hexamined
      rw [List.drop_append_of_le_length hexamined.1, hexamined.2]
      exact ⟨Nat.le_add_right_of_le hexamined.1, rfl⟩
    all_goals trivial

theorem Live.zmqStage (h : Live c) (hreading : (c.zmqStage w abandoned).reading = true) :
    Live (c.zmqStage w abandoned) := by
  have hexamined := h.examined
  unfold Examined at hexamined
  unfold Client.zmqStage at hreading ⊢
  split
  case h_1 hs =>
    rw [hs] at hexamined hreading
    exact h.zmqGreeting1 hexamined hreading
  case h_2 hs =>
    rw [hs] at hexamined hreading
    exact h.zmqGreeting2 hexamined.2 hreading
  case h_3 hs =>
    rw [hs] at hreading
    exact h.zmqHandshake hreading
  case h_4 hs =>
    rw [hs] at hreading
    exact h.zmqParse hs hreading
  all_goals exact h

theorem Live.zmqRead (h : Live c) {bytes : List UInt8}
    (hreading : (c.zmqRead bytes w abandoned).reading = true) :
    Live (c.zmqRead bytes w abandoned) := by
  unfold Client.zmqRead at hreading ⊢
  split
  case isTrue hnone =>
    rw [if_pos hnone, h.zmqClose] at hreading
    exact absurd hreading Bool.false_ne_true
  case isFalse hsome =>
    rw [if_neg hsome] at hreading
    exact (h.insert bytes).zmqStage hreading

/-- A client that reads does so from its present connection. -/
structure Attached (c : Client) : Prop where
  wired : c.connecting = true → c.socket ≠ none
  live : c.reading = true → Live c

/-- Nothing is read after a step that closes every live connection. -/
theorem Attached.closed (h : Attached c) (hstable : c.reading = false → d.reading = false)
    (hlive : Live c → d.reading = false) : d.reading = false := by
  cases hreading : c.reading with
  | true => exact hlive (h.live hreading)
  | false => exact hstable hreading

theorem Attached.retry (h : Attached c) (abandoned : Bool) : Attached (c.retry abandoned) := by
  refine ⟨stable_wired.retry h.wired abandoned, fun hreading => ?_⟩
  have hbefore : c.reading = true := by
    by_contra hnot
    have hkept := stable_reading.retry (Bool.of_not_eq_true hnot) abandoned
    exact absurd (hreading.symm.trans hkept) Bool.noConfusion
  exact (h.live hbefore).retry hreading

/-- A connection that is established on an empty buffer. -/
theorem Attached.zmqConnected (h : Attached c) (hsocket : c.socket ≠ none)
    (hkept : c.uvIsClosing = false) (hbuf : c.recvBuf = []) (written : Bool) :
    Attached (c.zmqConnected written abandoned) := by
  have hown : ∀ r ∈ c.recvBuf, c.socket = some r.socket := by
    rw [hbuf]
    exact fun r hr => absurd hr List.not_mem_nil
  have hbytes : c.bytes = [] := by rw [Client.bytes, hbuf, List.map_nil]
  have hgreeting : Live { c with state := .greeting1, received := [] } :=
    ⟨hsocket, hkept, rfl, hown, hbytes⟩
  unfold Client.zmqConnected
  cases written with
  | true => exact ⟨h.wired, fun _ => ⟨hsocket, hkept, rfl, hown, hbytes⟩⟩
  | false =>
    refine ⟨stable_wired.zmqClose (c := { c with state := .greeting1, received := [] })
      h.wired false abandoned, fun hreading => ?_⟩
    exact absurd (hreading.symm.trans (hgreeting.zmqClose false abandoned)) Bool.noConfusion

theorem Attached.zmqRead (h : Attached c) (hreading : c.reading = true) (bytes : List UInt8) :
    Attached (c.zmqRead bytes w abandoned) := by
  refine ⟨?_, (h.live hreading).zmqRead⟩
  unfold Client.zmqRead
  split
  · exact stable_wired.zmqClose h.wired false abandoned
  · exact stable_wired.zmqStage (c := c.insert bytes) h.wired

theorem Attached.step (h : Attached c) (hfresh : Fresh c e) (hstep : c.step e = some d) :
    Attached d := by
  unfold Client.step at hstep
  split at hstep
  · exact absurd hstep.symm (Option.some_ne_none _)
  · cases e with
    | resolved ok abandoned =>
      obtain rfl := Option.some.inj hstep
      cases ok with
      | true => exact ⟨fun _ => Option.some_ne_none _, fun hreading => Bool.noConfusion hreading⟩
      | false => exact h.retry abandoned
    | connected ok written abandoned =>
      dsimp only at hstep
      split at hstep
      case isTrue => exact absurd hstep.symm (Option.some_ne_none _)
      case isFalse hwaiting =>
        obtain rfl := Option.some.inj hstep
        have hdone : Attached { c with connecting := false } :=
          ⟨fun hconnecting => Bool.noConfusion hconnecting, fun hreading =>
            have hlive := h.live hreading
            ⟨hlive.wired, hlive.kept, hlive.opened, hlive.own, hlive.examined⟩⟩
        cases ok with
        | true =>
          obtain ⟨hconnecting, hkept⟩ : c.connecting = true ∧ c.uvIsClosing = false := by
            simpa using hwaiting
          exact hdone.zmqConnected (h.wired hconnecting) hkept hfresh written
        | false => exact hdone.retry abandoned
    | read bytes w abandoned =>
      obtain ⟨hreading, hread⟩ := Option.ite_none_right_eq_some.mp hstep
      obtain rfl := Option.some.inj hread
      exact h.zmqRead hreading bytes
    | retry abandoned =>
      obtain rfl := Option.some.inj hstep
      exact h.retry abandoned
    | closed index =>
      obtain ⟨callback, -, rfl⟩ := Option.map_eq_some_iff.mp hstep
      refine ⟨h.wired, fun hreading => ?_⟩
      exact absurd (hreading.symm.trans hfresh) Bool.noConfusion
    | deleteLater =>
      obtain rfl := Option.some.inj hstep
      refine ⟨stable_wired.zmqClose h.wired true false, fun hreading => ?_⟩
      have hclosed : (c.zmqClose true false).reading = false :=
        h.closed (fun hnot => stable_reading.zmqClose hnot true false) fun hlive =>
          hlive.zmqClose true false
      exact absurd (hreading.symm.trans hclosed) Bool.noConfusion

theorem attached_init : Attached {} :=
  ⟨fun h => Bool.noConfusion h, fun h => Bool.noConfusion h⟩

end Isolation

/-- The state that `r` bytes of a session lead to. -/
def openingState (s : Session) (r : Nat) : ZmqState :=
  if r < 11 then .greeting1
  else if r < 64 then .greeting2
  else if r < s.opening.length then .handshake
  else .connected

section Opening

variable {s : Session} {c : Client} {r : Nat} {abandoned : Bool}

/-- Messages that arrive behind the handshake leave the connection alone. -/
theorem zmqParse_state (messages : List Message) (k : Nat)
    (hbytes : c.bytes = (wire messages).take k) :
    (c.zmqParse abandoned).state = c.state := by
  have hscan : scanMessage c.bytes ≠ .failed := by
    rw [hbytes]
    cases messages with
    | nil =>
      rw [wire_nil, List.take_nil]
      exact Scan.noConfusion
    | cons m messages =>
      rw [scanMessage_wire]
      split <;> exact Scan.noConfusion
  unfold Client.zmqParse
  split
  case h_1 => rfl
  case h_2 hfailed => exact absurd hfailed hscan
  case h_3 => rfl

theorem zmqHandshake_state (hr : r ≤ s.stream.length) (h64 : 64 ≤ r) (hstate : c.state = .handshake)
    (hbytes : c.bytes = (s.handshake ++ wire s.messages).take (r - 64)) :
    (c.zmqHandshake written abandoned).state = openingState s r := by
  have hopening := length_opening s
  have hlength : r - 64 ≤ (s.handshake ++ wire s.messages).length := by
    rw [stream_eq, List.length_append, s.length_greeting] at hr
    omega
  have hscan := scanHandshake_take (wire s.messages) hlength
  rw [← hbytes] at hscan
  unfold Client.zmqHandshake openingState
  rw [hscan, if_neg (show ¬ r < 11 by omega), if_neg (show ¬ r < 64 by omega)]
  by_cases hshort : r - 64 < s.handshake.length
  · rw [if_pos hshort, if_pos (show r < s.opening.length by omega)]
    exact hstate
  · rw [if_neg hshort, if_neg (show ¬ r < s.opening.length by omega)]
    refine zmqParse_state s.messages (r - 64 - s.handshake.length) ?_
    refine bytes_erase_append s.handshake ?_
    refine hbytes.trans ?_
    rw [List.take_append, List.take_of_length_le (by omega)]

theorem zmqGreeting2_state (hr : r ≤ s.stream.length) (h11 : 11 ≤ r) (hstate : c.state = .greeting2)
    (hbytes : c.bytes = s.stream.take r) :
    (c.zmqGreeting2 written abandoned).state = openingState s r := by
  have hscan := scanGreeting2_take hr
  rw [← hbytes] at hscan
  unfold Client.zmqGreeting2
  rw [hscan]
  by_cases hshort : r < 64
  · rw [if_pos hshort, openingState, if_neg (show ¬ r < 11 by omega), if_pos hshort]
    exact hstate
  · rw [if_neg hshort]
    refine zmqHandshake_state hr (by omega) rfl (bytes_erase_append s.greeting ?_)
    have hgreeting := s.length_greeting
    refine hbytes.trans ?_
    rw [stream_eq, List.take_append, List.take_of_length_le (by omega), hgreeting]

theorem zmqGreeting1_state (hr : r ≤ s.stream.length) (hstate : c.state = .greeting1)
    (hbytes : c.bytes = s.stream.take r) :
    (c.zmqGreeting1 written abandoned).state = openingState s r := by
  have hscan := scanGreeting1_take hr
  rw [← hbytes] at hscan
  unfold Client.zmqGreeting1
  rw [hscan]
  by_cases hshort : r < 11
  · rw [if_pos hshort, openingState, if_pos hshort]
    exact hstate
  · rw [if_neg hshort]
    exact zmqGreeting2_state hr (by omega) rfl hbytes

/-- A read of what a conforming daemon sends until the handshake is over. -/
theorem Live.zmqRead_state (h : Live c) (hopening : c.state ≠ .connected) {bytes : List UInt8}
    (hbytes : bytes ≠ []) (hstream : c.received ++ bytes <+: s.stream) :
    (c.zmqRead bytes written abandoned).state =
      openingState s (c.received.length + bytes.length) := by
  have hinsert := h.insert bytes
  have hexamined := hinsert.examined
  have htake := List.prefix_iff_eq_take.mp hstream
  have hr := hstream.length_le
  rw [List.length_append] at htake hr
  have hreceived : (c.insert bytes).received = c.received ++ bytes := rfl
  have hlength : (c.insert bytes).received.length = c.received.length + bytes.length :=
    List.length_append
  have hstate : (c.insert bytes).state = c.state := rfl
  rw [Client.zmqRead, if_neg hbytes, Client.zmqStage]
  unfold Examined at hexamined
  split
  case h_1 hs =>
    rw [hs] at hexamined
    exact zmqGreeting1_state hr hs (hexamined.trans htake)
  case h_2 hs =>
    rw [hs, hlength] at hexamined
    exact zmqGreeting2_state hr hexamined.1 hs (hexamined.2.trans htake)
  case h_3 hs =>
    rw [hs, hlength, hreceived, htake, stream_eq, List.drop_take, List.drop_left' s.length_greeting]
      at hexamined
    exact zmqHandshake_state hr hexamined.1 hs hexamined.2
  case h_4 hs => exact absurd hs hopening
  case h_5 hs => exact absurd hs (isOpen_iff.mp hinsert.opened).1
  case h_6 hs => exact absurd hs (isOpen_iff.mp hinsert.opened).2

end Opening

/-- The bytes of a greeting that breaks off are examined in the next connection. -/
theorem stale_greeting : ¬ ∀ schedule c, Run Client.step (fun _ _ => True) {} schedule c →
    c.reading = true → c.state ≠ .connected → ∀ r ∈ c.recvBuf, c.socket = some r.socket := by
  intro h
  have hexec : (exec Client.step {} [.resolved true false, .connected true true false,
      .read [0xff, 0, 0] written false, .read [] written false, .closed 0, .resolved true false,
      .connected true true false]).map (fun c => (c.reading, c.state, c.socket, c.recvBuf)) =
      some (true, .greeting1, some 1, [⟨0, 0xff⟩, ⟨0, 0⟩, ⟨0, 0⟩]) := by decide +kernel
  obtain ⟨c, hrun, hproj⟩ := Option.map_eq_some_iff.mp hexec
  simp only [Prod.mk.injEq] at hproj
  obtain ⟨hreading, hstate, hsocket, hbuf⟩ := hproj
  have hown := h _ c (run_of_exec hrun) hreading (by rw [hstate]; decide) ⟨0, 0xff⟩
    (by rw [hbuf]; exact List.mem_cons_self)
  rw [hsocket] at hown
  exact absurd hown (by decide)

/-- What the opening of a connection examines is its own, and a conforming daemon gets through
it. -/
theorem opening_isolated {schedule : List Event} {c : Client}
    (h : Run Client.step Fresh {} schedule c) (hreading : c.reading = true)
    (hopening : c.state ≠ .connected) :
    (∀ r ∈ c.recvBuf, c.socket = some r.socket) ∧
      ∀ (s : Session) (bytes : List UInt8) (abandoned : Bool), bytes ≠ [] →
        c.received ++ bytes <+: s.stream → (c.zmqRead bytes written abandoned).state =
          openingState s (c.received.length + bytes.length) := by
  have hlive := (h.invariant (fun _ _ _ hfresh hattached hstep => hattached.step hfresh hstep)
    attached_init).live hreading
  exact ⟨hlive.own, fun _ _ _ hbytes hstream => hlive.zmqRead_state hopening hbytes hstream⟩

/-- The second connection of a client, when half of its greeting has come. -/
theorem opening_isolated_reconnect : ∃ schedule c, Run Client.step Fresh {} schedule c ∧
    c.socket = some 1 ∧ ∀ abandoned, (c.zmqRead (twoBlocks.stream.drop 32) written abandoned).state =
      .connected := by
  have hexec : (exec (guarded (fun c e => decide (Fresh c e)) Client.step) {}
      [.resolved true false, .connected true true false, .read [] written false, .closed 0,
        .resolved true false, .connected true true false,
        .read (twoBlocks.stream.take 32) written false]).map
        (fun c => (c.reading, c.state, c.socket, c.received)) =
      some (true, .greeting2, some 1, twoBlocks.stream.take 32) := by decide +kernel
  obtain ⟨c, hrun, hproj⟩ := Option.map_eq_some_iff.mp hexec
  simp only [Prod.mk.injEq] at hproj
  obtain ⟨hreading, hstate, hsocket, hreceived⟩ := hproj
  have hrun := run_of_guarded (fun _ _ => of_decide_eq_true) hrun
  refine ⟨_, c, hrun, hsocket, fun abandoned => ?_⟩
  have hread := (opening_isolated hrun hreading (by rw [hstate]; decide)).2 twoBlocks
    (twoBlocks.stream.drop 32) abandoned (by decide)
    (by rw [hreceived, List.take_append_drop])
  rw [hread, hreceived]
  decide

end VeloxHash.ZmqSocket
