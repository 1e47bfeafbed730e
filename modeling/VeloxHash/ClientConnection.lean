import VeloxHash.ClientRequests

/-! The connection of a stratum `Client`: its state, `m_socket`, the sockets libuv knows of,
the lookup in flight and the two timers. A step is a call of the owner, a completion libuv
delivers, or the next line of the read being parsed. Deadlines are kept as armed or not;
a tick says which of them has passed. The listener is there throughout. -/

namespace VeloxHash.ClientConnection

open ClientRequests (SendOutcome)

inductive SocketState
  | unconnected
  | hostLookup
  | connecting
  | connected
  | closing
  | reconnecting
  deriving DecidableEq, Repr

/-- A `uv_tcp_t` as libuv has it: `idle` after a failed connect or at the end of a stream,
`closing` from `uv_close` to its callback, with the connect callback still due or not. -/
inductive Handle
  | unused
  | connecting
  | idle
  | connected
  | reading
  | closing (connect : Bool)
  | closed
  deriving DecidableEq, Repr

structure Pool where
  proxy : Bool
  tls : Bool
  keepAlive : Bool
  deriving DecidableEq, Repr

/-- What `parse` makes of a line: `client.reconnect`, a reply to the login, a notified job,
a reply after which the connection is closed, or one that leaves it. -/
inductive Line
  | reconnect
  | login (hasId keepAlive accepts : Bool)
  | job (accepts : Bool)
  | critical
  | other
  deriving DecidableEq, Repr

/-- What a read does to the handshake of the proxy or of TLS. -/
inductive Handshake
  | pending
  | refused
  | ready
  deriving DecidableEq, Repr

/-- A login request that is sent, or a call of the listener. -/
inductive Call
  | login
  | loginSuccess
  | jobReceived
  | close (failures : Int)
  deriving DecidableEq, Repr

structure Client where
  pool : Pool
  state : SocketState := .unconnected
  failures : Int := 0
  socket : Option Nat := none
  handles : Nat → Handle := fun _ => .unused
  opened : Nat := 0
  lookup : Bool := false
  expire : Bool := false
  keepAlive : Bool := false
  extension : Bool := false
  socks5 : Bool := false
  tls : Option Bool := none
  unparsed : List Line := []
  announce : Bool := false
  disconnected : Bool := false
  calls : List (Call × Bool) := []

inductive Event
  | connect
  | disconnect
  | resolved (ok started : Bool)
  | connectDone (k : Nat) (ok : Bool) (outcome : SendOutcome)
  | readError (k : Nat)
  | readHandshake (k : Nat) (progress : Handshake) (outcome : SendOutcome)
  | readLines (k : Nat) (lines : List Line)
  | parse
  | closed (k : Nat)
  | tick (late due : Bool) (outcome : SendOutcome)
  deriving DecidableEq, Repr

namespace Client

/-- A call with whether it comes after a `disconnect` of the owner. -/
def emit (c : Client) (call : Call) : Client :=
  { c with calls := (call, c.disconnected) :: c.calls }

def setHandle (c : Client) (k : Nat) (h : Handle) : Client :=
  { c with handles := Function.update c.handles k h }

def setState (c : Client) (state : SocketState) : Client :=
  if c.state = state then c
  else
    { c with
      state
      expire := match state with
        | .hostLookup => false
        | .connecting | .reconnecting => true
        | _ => c.expire }

/-- `uv_close`, unless the handle is closing. -/
def uvClose (c : Client) (k : Nat) : Client :=
  match c.handles k with
  | .connecting => c.setHandle k (.closing true)
  | .idle | .connected | .reading => c.setHandle k (.closing false)
  | _ => c

def close (c : Client) : Client :=
  match c.socket with
  | none => c
  | some k =>
    if c.state = .closing ∨ c.state = .unconnected then c
    else (c.setState .closing).uvClose k

def reconnect (c : Client) : Client :=
  let c := { c with keepAlive := false }
  if c.failures = -1 then c.emit (.close (-1))
  else
    let c := c.setState .reconnecting
    Client.emit { c with failures := c.failures + 1 } (.close (c.failures + 1))

def resolve (c : Client) : Client :=
  let c := c.setState .hostLookup
  { c with failures := if c.failures = -1 then 0 else c.failures, lookup := true }

def connect (c : Client) : Client :=
  if c.pool.proxy then resolve { c with socks5 := true }
  else if c.pool.tls then resolve { c with tls := some false }
  else c.resolve

def disconnect (c : Client) : Client :=
  close { c with keepAlive := false, expire := false, failures := -1 }

/-- `uv_is_writable(stream())`. -/
def writable (c : Client) : Bool :=
  match c.socket with
  | none => false
  | some k => c.handles k == .connected || c.handles k == .reading

/-- `send`, with whether the request was sent. -/
def send (c : Client) (outcome : SendOutcome) : Client × Bool :=
  if outcome = .tooLong then (c.close, false)
  else if c.state ≠ .connected ∨ !c.writable then (c, false)
  else
    match outcome with
    | .sent => ({ c with expire := true }, true)
    | .broken => (c.close, false)
    | _ => (c, false)

def login (c : Client) (outcome : SendOutcome) : Client :=
  let next := c.send outcome
  if next.2 then next.1.emit .login else next.1

def isTLS (c : Client) : Bool := c.pool.tls && c.tls.isSome

/-- A write of the handshake that fails closes the connection. -/
def write (c : Client) (outcome : SendOutcome) : Client :=
  if outcome = .broken then c.close else c

def handshake (c : Client) (outcome : SendOutcome) : Client :=
  if c.socks5 then c.write outcome
  else if c.isTLS then write { c with expire := true } outcome
  else c.login outcome

/-- `connect(addr)`; `started` is whether `uv_tcp_connect` accepts the request. -/
def connectTo (c : Client) (started : Bool) : Client :=
  let c := c.setState .connecting
  setHandle { c with socket := some c.opened, opened := c.opened + 1 } c.opened
    (if started then .connecting else .idle)

def onResolved (c : Client) (ok started : Bool) : Client :=
  let c := { c with lookup := false }
  if ok then c.connectTo started else c.reconnect

/-- `uv_read_start` on `m_socket`; it is an error unless the handle is connected. -/
def readStart (c : Client) (k : Nat) : Client :=
  if c.handles k = .connected then c.setHandle k .reading else c

/-- `onConnect` for the request on handle `k`; `none` when there is no `m_socket` to read. -/
def onConnect (c : Client) (k : Nat) (ok : Bool) (outcome : SendOutcome) : Option Client :=
  if ok then
    let c := c.setHandle k .connected
    if c.state = .connected then some c
    else c.socket.map fun j => ((c.setState .connected).readStart j).handshake outcome
  else
    let c := c.setHandle k (if c.handles k = .connecting then .idle else .closing false)
    some (if c.state = .connecting then c.close else c)

/-- The bytes of a read belong to the handshake, not to the lines. -/
def handshaking (c : Client) : Bool := c.socks5 || c.isTLS && c.tls != some true

/-- `m_socks5->read` or `m_tls->read` before it is ready. -/
def readHandshake (c : Client) (progress : Handshake) (outcome : SendOutcome) : Client :=
  match progress with
  | .pending => c.write outcome
  | .refused => c.close
  | .ready =>
    if c.socks5 then
      let tls := if c.pool.tls ∧ c.tls = none then some false else c.tls
      handshake { c with socks5 := false, tls } outcome
    else
      login { c with tls := some true } outcome

def startTimeout (c : Client) : Client :=
  { c with
    expire := false
    keepAlive := if c.pool.keepAlive || c.extension then true else c.keepAlive }

def parseLine (c : Client) (line : Line) : Client :=
  let c := c.startTimeout
  match line with
  | .reconnect => c.reconnect
  | .login hasId keepAlive accepts =>
    if !hasId then c.close
    else
      let c := { c with extension := keepAlive }
      if !accepts then c.close
      else
        -- `onLoginSuccess`; the call of `onJobReceived` after it is a step of its own
        Client.emit { c with failures := 0, announce := true } .loginSuccess
  | .job accepts => if accepts then c.emit .jobReceived else c.close
  | .critical => c.close
  | .other => c

/-- What is left of the read: the job of a login reply, then the next line. -/
def parse (c : Client) : Option Client :=
  if c.announce then some (Client.emit { c with announce := false } .jobReceived)
  else
    match c.unparsed with
    | [] => none
    | line :: rest => some (parseLine { c with unparsed := rest } line)

/-- `onClose` for handle `k`; `none` when it deletes a handle libuv still uses. -/
def onClose (c : Client) (k : Nat) : Option Client :=
  let c := c.setHandle k .closed
  if c.socket.any fun j => c.handles j != .closed then none
  else some (reconnect (setState { c with socket := none, tls := none } .unconnected))

def tick (c : Client) (late due : Bool) (outcome : SendOutcome) : Client :=
  match c.state with
  | .connected =>
    if c.expire && late then c.close
    else if c.keepAlive && due then { (c.send outcome).1 with keepAlive := false }
    else c
  | .reconnecting => if c.expire && late then c.connect else c
  | .connecting => if c.expire && late then c.close else c
  | _ => c

/-- A read is being parsed; libuv delivers nothing until it is done. -/
def busy (c : Client) : Bool := c.announce || !c.unparsed.isEmpty

end Client

/-- The owner may call at any time, also from inside a call of the listener. -/
def step (c : Client) : Event → Option Client
  | .connect => some { c with disconnected := false }.connect
  | .disconnect => some { c.disconnect with disconnected := true }
  | .parse => c.parse
  | .resolved ok started =>
    if !c.busy ∧ c.lookup then some (c.onResolved ok started) else none
  | .connectDone k ok outcome =>
    if !c.busy ∧ (c.handles k = .connecting ∨ c.handles k = .closing true ∧ ok = false) then
      c.onConnect k ok outcome
    else none
  | .readError k =>
    if !c.busy ∧ c.handles k = .reading then some (c.setHandle k .idle).close else none
  | .readHandshake k progress outcome =>
    if !c.busy ∧ c.handles k = .reading ∧ c.handshaking then
      some (c.readHandshake progress outcome)
    else none
  | .readLines k lines =>
    if !c.busy ∧ c.handles k = .reading ∧ !c.handshaking then some { c with unparsed := lines }
    else none
  | .closed k => if !c.busy ∧ c.handles k = .closing false then c.onClose k else none
  | .tick late due outcome =>
    if !c.busy ∧ outcome ≠ .tooLong then some (c.tick late due outcome) else none

end VeloxHash.ClientConnection
