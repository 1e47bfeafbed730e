import VeloxHash.TransitionSystem
import VeloxHash.Algorithm
import VeloxHash.Json
import Mathlib.Tactic

/-! `DaemonClient`: solo mining against a daemon, by HTTP requests under a polling timer or
a ZMQ subscription. `accepts` is what the checks of `parseJob` make of a block template and
its hashing blob: the template parser, the keys of the pool, the blob. -/

namespace VeloxHash.DaemonClient

open TransitionSystem

inductive SocketState
  | unconnected
  | connecting
  | connected
  deriving DecidableEq, Repr

inductive ApiVersion
  | cryptonoteDefault
  | monero
  deriving DecidableEq, Repr

inductive ZmqState
  | notConnected
  | greeting1
  | greeting2
  | handshake
  | connected
  | disconnecting
  deriving DecidableEq, Repr

/-- The pool with what `setPool` derives from it: the algorithm of `m_coin`, if that is
valid, and whether `m_walletAddress` is. -/
structure Pool where
  algorithm : Algorithm
  coin : Option Algorithm
  wallet : Bool
  zmqPort : Int
  jobTimeout : Nat
  pollInterval : Nat
  deriving DecidableEq, Repr

inductive Request
  | getHeight
  | getInfo
  | rpc (method : String) (id : Nat)
  deriving DecidableEq, Repr

/-- Status and body of an HTTP reply; `none` for a body that is no JSON. -/
structure HttpData where
  status : Int
  body : Option Json

inductive Call
  | loginSuccess
  | jobReceived (id : String)
  | request (r : Request)
  | resultAccepted (id : Int)
  | close (failures : Int)
  deriving DecidableEq, Repr

/-- The calls a disconnected client may not make. -/
def Call.isActive : Call → Bool
  | loginSuccess | jobReceived _ | request _ => true
  | resultAccepted _ | close _ => false

/-- `fetches` are the requests in flight, `timer` the timeout and the repeat interval of the
running timer, `lookup` that `m_dns` waits for an answer. -/
structure Client where
  pool : Pool
  retryPause : Nat := 5000
  state : SocketState := .unconnected
  failures : Int := 0
  apiVersion : ApiVersion := .monero
  height : Nat := 0
  prevHash : Option String := none
  jobSteadyMs : Nat := 0
  requestHeight : Nat := 0
  requestHash : Option String := none
  currentJobId : Option String := none
  results : List Int := []
  sequence : Nat := 1
  timer : Option (Nat × Nat) := none
  lookup : Bool := false
  zmq : ZmqState := .notConnected
  zmqClosing : Bool := false
  zmqRecvBuf : List UInt8 := []
  fetches : List Request := []
  calls : List Call := []

namespace Client

def emit (c : Client) (call : Call) : Client := { c with calls := call :: c.calls }

def fetch (c : Client) (r : Request) : Client :=
  { c with fetches := c.fetches ++ [r] }.emit (.request r)

def rpcSend (c : Client) (method : String) : Client :=
  { c.fetch (.rpc method c.sequence) with sequence := c.sequence + 1 }

def getBlockTemplate (c : Client) : Client := c.rpcSend "getblocktemplate"

def setState (c : Client) (state : SocketState) : Client :=
  if c.state = state then c
  else
    match state with
    | .connected =>
      let interval := if c.pool.zmqPort < 0 then max 20 c.pool.pollInterval else c.pool.jobTimeout
      { c with state, failures := 0, timer := some (interval, interval) }.emit .loginSuccess
    | .unconnected => { c with state, failures := -1, timer := none }
    | .connecting => { c with state }

def disconnect (c : Client) : Client :=
  if c.state ≠ .unconnected then c.setState .unconnected else c

/-- `m_ZMQSocket` is in use. -/
def zmqOpen (c : Client) : Bool := c.zmq ≠ .notConnected ∧ c.zmq ≠ .disconnecting

def retry (c : Client) : Client :=
  let c := { c with failures := c.failures + 1 }.emit (.close (c.failures + 1))
  if c.failures = -1 then c
  else
    let c := if c.state = .connected then c.setState .connecting else c
    { c with zmqClosing := c.zmqClosing || c.zmqOpen, timer := some (c.retryPause, 0) }

def setPool (c : Client) (pool : Pool) : Client := { c with pool }

def connect (c : Client) : Client :=
  let c := c.setState .connecting
  if c.pool.coin.isNone ∧ c.pool.algorithm = .invalid then c.retry
  else
    let algorithm :=
      if c.pool.algorithm = .invalid then c.pool.coin.getD .invalid else c.pool.algorithm
    let c := { c with pool := { c.pool with algorithm } }
    if c.apiVersion = .monero ∧ !c.pool.wallet then c.retry
    else if 0 ≤ c.pool.zmqPort then { c with lookup := true }
    else c.getBlockTemplate

def isOutdated (c : Client) (now height : Nat) (hash : Option String) : Bool :=
  c.height ≠ height ∨ c.prevHash ≠ hash ∨ c.jobSteadyMs + c.pool.jobTimeout ≤ now

/-- The test of `/getheight` and `/getinfo` replies: the job is outdated, and no template has
been requested for this height and hash. -/
def needsTemplate (c : Client) (now height : Nat) (hash : Option String) : Bool :=
  c.isOutdated now height hash ∧ (height ≠ c.requestHeight ∨ hash ≠ c.requestHash)

def onHeight (c : Client) (now height : Nat) (hash : Option String) : Client :=
  if c.needsTemplate now height hash then
    { c with requestHeight := height, requestHash := hash }.getBlockTemplate
  else c

/-- The checks of `parseJob`. -/
def acceptsJob (accepts : Pool → String → Option String → Bool) (c : Client) (params : Json) :
    Bool :=
  match params.getString "blocktemplate_blob" with
  | none => false
  | some blob => accepts c.pool blob (params.getString "blockhashing_blob")

/-- The rest of `parseJob`; `jobId` is made of random bytes. -/
def takeJob (c : Client) (now : Nat) (jobId : String) (params : Json) : Client :=
  let c := { c with
    currentJobId := some jobId
    height := params.getUint64 "height"
    prevHash := params.getString "prev_hash"
    jobSteadyMs := now }
  let c := if c.state = .connecting then c.setState .connected else c
  c.emit (.jobReceived jobId)

def handleSubmitResponse (c : Client) (id : Int) : Client × Bool :=
  if id ∈ c.results then
    ({ c with results := c.results.erase id }.emit (.resultAccepted id), true)
  else (c, false)

def parseResponse (accepts : Pool → String → Option String → Bool) (c : Client) (now : Nat)
    (jobId : String) (id : Int) (result error : Json) : Client × Bool :=
  if id = -1 then (c, false)
  else if error.isObject then ((c.handleSubmitResponse id).1, false)
  else if !result.isObject then (c, false)
  else if result.hasMember "top_block_hash" then
    (if c.prevHash ≠ result.getString "top_block_hash" then c.getBlockTemplate else c, true)
  else if result.hasMember "blocktemplate_blob" ∧ c.acceptsJob accepts result then
    (c.takeJob now jobId result, true)
  else
    let next := c.handleSubmitResponse id
    if next.2 then
      (if next.1.pool.zmqPort < 0 then next.1.getBlockTemplate else next.1, true)
    else (next.1, false)

def onHttpData (accepts : Pool → String → Option String → Bool) (c : Client) (r : Request)
    (data : HttpData) (now : Nat) (jobId : String) : Client :=
  if data.status ≠ 200 then c.retry
  else
    match data.body with
    | none => c.retry
    | some doc =>
      match r with
      | .getHeight =>
        if !doc.hasMember "hash" then
          { c with apiVersion := .cryptonoteDefault }.fetch .getInfo
        else c.onHeight now (doc.getUint64 "height") (doc.getString "hash")
      | .getInfo => c.onHeight now (doc.getUint64 "height") (doc.getString "top_block_hash")
      | .rpc .. =>
        let next := c.parseResponse accepts now jobId (doc.getInt64 "id" (-1))
          (doc.getObject "result") (doc.getObject "error")
        if next.2 then next.1 else next.1.retry

def poll (c : Client) : Client :=
  match c.state with
  | .connecting => c.connect
  | .connected => c.fetch (if c.apiVersion = .monero then .getHeight else .getInfo)
  | .unconnected => c

/-- `uv_timer` has fired, which stops it unless it repeats. -/
def onTimer (c : Client) (now : Nat) : Client :=
  if 0 ≤ c.pool.zmqPort then { c with prevHash := none, requestHash := none }.fetch .getHeight
  else
    let c := if c.jobSteadyMs + c.pool.jobTimeout ≤ now then
      { c with prevHash := none, requestHash := none } else c
    c.poll

def onResolved (c : Client) (ok : Bool) : Client :=
  let c := { c with lookup := false }
  if !ok then c.retry
  else if 0 < c.pool.zmqPort then { c with zmqClosing := false }
  else c

/-- `ZMQClose()` reaches `retry`. -/
def zmqCloses (c : Client) : Bool := c.zmqOpen ∧ !c.zmqClosing

def zmqClose (c : Client) : Client :=
  if c.zmqCloses then { c with zmq := .disconnecting, zmqClosing := true }.retry
  else if c.zmqOpen then { c with zmq := .disconnecting }
  else c

def zmqWrite (c : Client) (written : Bool) : Client := if written then c else c.zmqClose

end Client

/-- What a stage of the ZMQ dialogue finds in the receive buffer. -/
inductive Scan
  | incomplete
  | failed
  | complete (rest : List UInt8)
  deriving DecidableEq, Repr

def greetingSize1 : Nat := 11

/-- `kZMQGreeting`. -/
def greeting : List UInt8 :=
  [0xff, 0, 0, 0, 0, 0, 0, 0, 0, 0x7f, 3, 0, 0x4e, 0x55, 0x4c, 0x4c] ++ List.replicate 48 0

/-- `kZMQHandshake`: `READY` with `Socket-Type` `SUB`. -/
def handshake : List UInt8 :=
  [4, 0x19, 5, 0x52, 0x45, 0x41, 0x44, 0x59, 0xb, 0x53, 0x6f, 0x63, 0x6b, 0x65, 0x74, 0x2d,
    0x54, 0x79, 0x70, 0x65, 0, 0, 0, 3, 0x53, 0x55, 0x42]

def scanGreeting1 (buf : List UInt8) : Scan :=
  if buf.length < greetingSize1 then .incomplete
  else if buf[0]? = some 0xff ∧ buf[9]? = some 0x7f ∧ buf[10]? = some 3 then .complete buf
  else .failed

def scanGreeting2 (buf : List UInt8) : Scan :=
  if buf.length < greeting.length then .incomplete
  else if (buf.drop 12).take 20 = (greeting.drop 12).take 20 then
    .complete (buf.drop greeting.length)
  else .failed

def scanHandshake : List UInt8 → Scan
  | tag :: size :: rest =>
    if tag ≠ 4 ∨ size < 18 then .failed
    else if rest.length < size.toNat then .incomplete
    else if rest.take 18 = (handshake.drop 2).take 18 then .complete (rest.drop size.toNat)
    else .failed
  | _ => .incomplete

/-- The size field of a frame, big-endian if long, and the bytes after it. -/
def frameSize (flags : UInt8) (data : List UInt8) : Option (Nat × List UInt8) :=
  let width := if flags &&& 2 ≠ 0 then 8 else 1
  if data.length < width then none
  else some ((data.take width).foldl (fun n b => n * 256 + b.toNat) 0, data.drop width)

/-- The loop of `ZMQParse` over the frames of one message; `fuel` bounds the frames. -/
def scanFrames : (fuel : Nat) → (data : List UInt8) → (msgSize : Nat) → Scan
  | fuel + 1, flags :: data, msgSize =>
    match frameSize flags data with
    | none => .incomplete
    | some (size, data) =>
      if 1024 - msgSize < size then .failed
      else if data.length < size then .incomplete
      else if flags &&& 1 ≠ 0 then
        scanFrames fuel (data.drop size) (if flags &&& 4 = 0 then msgSize + size else msgSize)
      else .complete (data.drop size)
  | _, _, _ => .incomplete

/-- Every frame takes a byte at least, so the length of the buffer is fuel enough. -/
def scanMessage (buf : List UInt8) : Scan := scanFrames buf.length buf 0

namespace Client

def zmqParse (c : Client) : Client :=
  match scanMessage c.zmqRecvBuf with
  | .incomplete => c
  | .failed => c.zmqClose
  | .complete rest =>
    let c := { c with zmqRecvBuf := rest, prevHash := none, requestHash := none }.fetch .getHeight
    { c with timer := some (c.pool.jobTimeout, c.pool.jobTimeout) }

/-- The results of the writes that one read may lead to: the rest of the greeting, the
handshake, the subscription. -/
structure Writes where
  greeting : Bool
  handshake : Bool
  subscribe : Bool
  deriving DecidableEq, Repr

def zmqHandshake (c : Client) (w : Writes) : Client :=
  match scanHandshake c.zmqRecvBuf with
  | .incomplete => c
  | .failed => c.zmqClose
  | .complete rest =>
    { c.zmqWrite w.subscribe with zmq := .connected, zmqRecvBuf := rest }.getBlockTemplate.zmqParse

def zmqGreeting2 (c : Client) (w : Writes) : Client :=
  match scanGreeting2 c.zmqRecvBuf with
  | .incomplete => c
  | .failed => c.zmqClose
  | .complete rest =>
    let c := { c with zmq := .handshake, zmqRecvBuf := rest }
    if w.handshake then c.zmqHandshake w else c.zmqClose

def zmqGreeting1 (c : Client) (w : Writes) : Client :=
  match scanGreeting1 c.zmqRecvBuf with
  | .incomplete => c
  | .failed => c.zmqClose
  | .complete _ => { c.zmqWrite w.greeting with zmq := .greeting2 }.zmqGreeting2 w

def zmqStage (c : Client) (w : Writes) : Client :=
  match c.zmq with
  | .greeting1 => c.zmqGreeting1 w
  | .greeting2 => c.zmqGreeting2 w
  | .handshake => c.zmqHandshake w
  | .connected => c.zmqParse
  | .notConnected | .disconnecting => c

/-- `ZMQRead`; no bytes stand for `nread <= 0`. -/
def zmqRead (c : Client) (bytes : List UInt8) (w : Writes) : Client :=
  if bytes = [] then c.zmqClose
  else { c with zmqRecvBuf := c.zmqRecvBuf ++ bytes }.zmqStage w

def zmqConnected (c : Client) (written : Bool) : Client :=
  { c with zmq := .greeting1 }.zmqWrite written

def onZmqConnect (c : Client) (ok written : Bool) : Client :=
  if ok then c.zmqConnected written else c.retry

end Client

/-- `reply` answers the request in flight at that position. `zmqClosed` is `onZMQClose`,
`otherRequest` a request of another client: `m_sequence` is shared. -/
inductive Event
  | connect
  | connectTo (pool : Pool)
  | disconnect
  | submit (jobId : String)
  | reply (index : Nat) (data : HttpData) (now : Nat) (jobId : String)
  | timer (now : Nat)
  | resolved (ok : Bool)
  | zmqConnect (ok written : Bool)
  | zmqRead (bytes : List UInt8) (writes : Client.Writes)
  | zmqClosed
  | otherRequest

def Event.isConnect : Event → Bool
  | connect | connectTo _ => true
  | _ => false

namespace Client

def submit (c : Client) (jobId : String) : Client :=
  if c.currentJobId ≠ some jobId then c
  else { c with results := (c.sequence : Int) :: c.results }.rpcSend "submitblock"

variable (accepts : Pool → String → Option String → Bool)

def step (c : Client) : Event → Option Client
  | .connect => some c.connect
  | .connectTo pool => some (c.setPool pool).connect
  | .disconnect => some c.disconnect
  | .submit jobId => some (c.submit jobId)
  | .reply index data now jobId =>
    c.fetches[index]?.map fun r =>
      { c with fetches := c.fetches.eraseIdx index }.onHttpData accepts r data now jobId
  | .timer now =>
    c.timer.map fun t =>
      { c with timer := if t.2 = 0 then none else some (t.2, t.2) }.onTimer now
  | .resolved ok => if c.lookup then some (c.onResolved ok) else none
  | .zmqConnect ok written => some (c.onZmqConnect ok written)
  | .zmqRead bytes w => some (c.zmqRead bytes w)
  | .zmqClosed => some { c with zmq := .notConnected }
  | .otherRequest => some { c with sequence := c.sequence + 1 }

/-- The reply to an RPC leads neither to `retry` nor to a request or a job: it reports a top
block hash that is known, or it answers a submit while ZMQ announces the blocks. -/
def rpcHarmless (c : Client) (id : Int) (result error : Json) : Bool :=
  id ≠ -1 ∧ !error.isObject ∧ result.isObject ∧
    (if result.hasMember "top_block_hash" then c.prevHash = result.getString "top_block_hash"
    else !(result.hasMember "blocktemplate_blob" ∧ c.acceptsJob accepts result) ∧
      id ∈ c.results ∧ 0 ≤ c.pool.zmqPort)

def replyHarmless (c : Client) (r : Request) (data : HttpData) (now : Nat) : Bool :=
  data.status = 200 ∧ data.body.any fun doc =>
    match r with
    | .getHeight => doc.hasMember "hash" ∧
      !c.needsTemplate now (doc.getUint64 "height") (doc.getString "hash")
    | .getInfo => !c.needsTemplate now (doc.getUint64 "height") (doc.getString "top_block_hash")
    | .rpc .. => c.rpcHarmless accepts (doc.getInt64 "id" (-1)) (doc.getObject "result")
      (doc.getObject "error")

/-- The stages that a read may go through end without closing a socket in use, with the
handshake unfinished and no message complete. -/
def handshakeHarmless (closing : Bool) (buf : List UInt8) : Bool :=
  match scanHandshake buf with
  | .incomplete => true
  | .failed => closing
  | .complete _ => false

def greeting2Harmless (closing : Bool) (buf : List UInt8) (w : Writes) : Bool :=
  match scanGreeting2 buf with
  | .incomplete => true
  | .failed => closing
  | .complete rest => if w.handshake then handshakeHarmless closing rest else closing

def greeting1Harmless (closing : Bool) (buf : List UInt8) (w : Writes) : Bool :=
  match scanGreeting1 buf with
  | .incomplete => true
  | .failed => closing
  | .complete _ => (w.greeting || closing) && greeting2Harmless closing buf w

def messageHarmless (closing : Bool) (buf : List UInt8) : Bool :=
  match scanMessage buf with
  | .incomplete => true
  | .failed => closing
  | .complete _ => false

def stageHarmless (zmq : ZmqState) (closing : Bool) (buf : List UInt8) (w : Writes) : Bool :=
  match zmq with
  | .greeting1 => greeting1Harmless closing buf w
  | .greeting2 => greeting2Harmless closing buf w
  | .handshake => handshakeHarmless closing buf
  | .connected => messageHarmless closing buf
  | .notConnected | .disconnecting => true

def readHarmless (c : Client) (bytes : List UInt8) (w : Writes) : Bool :=
  if bytes = [] then !c.zmqCloses
  else stageHarmless c.zmq c.zmqClosing (c.zmqRecvBuf ++ bytes) w

/-- The event, if it meets the client disconnected, finds nothing to do. -/
def harmless (c : Client) (e : Event) : Bool :=
  c.state ≠ .unconnected ||
    match e with
    | .submit jobId => c.currentJobId ≠ some jobId
    | .reply index data now _ =>
      c.fetches[index]?.all fun r => c.replyHarmless accepts r data now
    | .resolved ok => ok
    | .zmqConnect ok written => ok && (written || c.zmqClosing)
    | .zmqRead bytes w => c.readHarmless bytes w
    | .connect | .connectTo _ | .disconnect | .timer _ | .zmqClosed | .otherRequest => true

/-- State and timer stay, and no call of a connected client is made. -/
structure Quiet (c c' : Client) : Prop where
  state : c'.state = c.state
  timer : c'.timer = c.timer
  calls : c'.calls.filter Call.isActive = c.calls.filter Call.isActive

theorem Quiet.refl (c : Client) : Quiet c c := ⟨rfl, rfl, rfl⟩

theorem Quiet.trans {c d e : Client} (h : Quiet c d) (h' : Quiet d e) : Quiet c e :=
  ⟨h'.state.trans h.state, h'.timer.trans h.timer, h'.calls.trans h.calls⟩

theorem disconnect_of_unconnected {c : Client} (h : c.state = .unconnected) :
    c.disconnect = c :=
  if_neg (not_not.mpr h)

theorem disconnect_of_ne {c : Client} (h : c.state ≠ .unconnected) :
    c.disconnect = { c with state := .unconnected, failures := -1, timer := none } := by
  rw [disconnect, if_pos h, setState, if_neg h]

theorem quiet_zmqClose {c : Client} (h : c.zmqCloses = false) : Quiet c c.zmqClose := by
  unfold zmqClose
  rw [if_neg (by simp [h])]
  split_ifs <;> exact ⟨rfl, rfl, rfl⟩

theorem zmqCloses_closing {c : Client} (h : c.zmqClosing = true) : c.zmqCloses = false := by
  simp [zmqCloses, h]

theorem zmqClose_closing {c : Client} (h : c.zmqClosing = true) :
    c.zmqClose.zmqClosing = c.zmqClosing ∧ c.zmqClose.zmqRecvBuf = c.zmqRecvBuf := by
  unfold zmqClose
  rw [if_neg (by simp [zmqCloses_closing h])]
  split_ifs <;> exact ⟨rfl, rfl⟩

/-- A write that succeeds, or whose failure finds the socket closing already. -/
theorem quiet_zmqWrite {c : Client} {written : Bool} (h : (written || c.zmqClosing) = true) :
    Quiet c (c.zmqWrite written) ∧ (c.zmqWrite written).zmqClosing = c.zmqClosing ∧
      (c.zmqWrite written).zmqRecvBuf = c.zmqRecvBuf := by
  cases written with
  | true => exact ⟨.refl c, rfl, rfl⟩
  | false =>
    have hc : c.zmqClosing = true := by simpa using h
    exact ⟨quiet_zmqClose (zmqCloses_closing hc), zmqClose_closing hc⟩

theorem quiet_zmqHandshake {c : Client} {w : Writes}
    (h : handshakeHarmless c.zmqClosing c.zmqRecvBuf = true) : Quiet c (c.zmqHandshake w) := by
  unfold handshakeHarmless at h
  unfold zmqHandshake
  cases hs : scanHandshake c.zmqRecvBuf with
  | incomplete => exact .refl c
  | failed => exact quiet_zmqClose (zmqCloses_closing (by simpa [hs] using h))
  | complete rest => simp [hs] at h

theorem quiet_zmqGreeting2 {c : Client} {w : Writes}
    (h : greeting2Harmless c.zmqClosing c.zmqRecvBuf w = true) : Quiet c (c.zmqGreeting2 w) := by
  unfold greeting2Harmless at h
  unfold zmqGreeting2
  cases hs : scanGreeting2 c.zmqRecvBuf with
  | incomplete => exact .refl c
  | failed => exact quiet_zmqClose (zmqCloses_closing (by simpa [hs] using h))
  | complete rest =>
    have hnext : Quiet c { c with zmq := .handshake, zmqRecvBuf := rest } := ⟨rfl, rfl, rfl⟩
    cases hw : w.handshake with
    | true => exact hnext.trans (quiet_zmqHandshake (by simpa [hs, hw] using h))
    | false => exact hnext.trans (quiet_zmqClose (zmqCloses_closing (by simpa [hs, hw] using h)))

theorem quiet_zmqGreeting1 {c : Client} {w : Writes}
    (h : greeting1Harmless c.zmqClosing c.zmqRecvBuf w = true) : Quiet c (c.zmqGreeting1 w) := by
  unfold greeting1Harmless at h
  unfold zmqGreeting1
  cases hs : scanGreeting1 c.zmqRecvBuf with
  | incomplete => exact .refl c
  | failed => exact quiet_zmqClose (zmqCloses_closing (by simpa [hs] using h))
  | complete rest =>
    obtain ⟨hw, hnext⟩ := (Bool.and_eq_true _ _).mp (hs ▸ h)
    obtain ⟨hquiet, hclosing, hbuf⟩ := quiet_zmqWrite hw
    have hstage : Quiet c { c.zmqWrite w.greeting with zmq := .greeting2 } :=
      ⟨hquiet.state, hquiet.timer, hquiet.calls⟩
    exact hstage.trans (quiet_zmqGreeting2 (by rwa [hclosing, hbuf]))

theorem quiet_zmqParse {c : Client} (h : messageHarmless c.zmqClosing c.zmqRecvBuf = true) :
    Quiet c c.zmqParse := by
  unfold messageHarmless at h
  unfold zmqParse
  cases hs : scanMessage c.zmqRecvBuf with
  | incomplete => exact .refl c
  | failed => exact quiet_zmqClose (zmqCloses_closing (by simpa [hs] using h))
  | complete rest => simp [hs] at h

theorem quiet_zmqStage {c : Client} {w : Writes}
    (h : stageHarmless c.zmq c.zmqClosing c.zmqRecvBuf w = true) : Quiet c (c.zmqStage w) := by
  unfold stageHarmless at h
  unfold zmqStage
  cases hz : c.zmq with
  | greeting1 => exact quiet_zmqGreeting1 (by simpa [hz] using h)
  | greeting2 => exact quiet_zmqGreeting2 (by simpa [hz] using h)
  | handshake => exact quiet_zmqHandshake (by simpa [hz] using h)
  | connected => exact quiet_zmqParse (by simpa [hz] using h)
  | notConnected => exact .refl c
  | disconnecting => exact .refl c

theorem quiet_zmqRead {c : Client} {bytes : List UInt8} {w : Writes}
    (h : c.readHarmless bytes w = true) : Quiet c (c.zmqRead bytes w) := by
  unfold readHarmless at h
  unfold zmqRead
  split_ifs at h ⊢ with hb
  · exact quiet_zmqClose (by simpa using h)
  · have hread : Quiet c { c with zmqRecvBuf := c.zmqRecvBuf ++ bytes } := ⟨rfl, rfl, rfl⟩
    exact hread.trans (quiet_zmqStage h)

theorem quiet_onZmqConnect {c : Client} {ok written : Bool}
    (h : (ok && (written || c.zmqClosing)) = true) : Quiet c (c.onZmqConnect ok written) := by
  obtain ⟨hok, hw⟩ := (Bool.and_eq_true _ _).mp h
  have hstage : Quiet c { c with zmq := .greeting1 } := ⟨rfl, rfl, rfl⟩
  rw [onZmqConnect, if_pos hok]
  exact hstage.trans (quiet_zmqWrite (c := { c with zmq := .greeting1 }) hw).1

theorem quiet_handleSubmitResponse (c : Client) (id : Int) :
    Quiet c (c.handleSubmitResponse id).1 := by
  unfold handleSubmitResponse
  split_ifs
  · exact ⟨rfl, rfl, rfl⟩
  · exact .refl c

theorem quiet_parseResponse {c : Client} (now : Nat) (jobId : String) {id : Int}
    {result error : Json} (h : c.rpcHarmless accepts id result error = true) :
    Quiet c (c.parseResponse accepts now jobId id result error).1 ∧
      (c.parseResponse accepts now jobId id result error).2 = true := by
  obtain ⟨hid, herror, hresult, h⟩ := of_decide_eq_true h
  unfold parseResponse
  rw [if_neg hid, if_neg (by simpa using herror), if_neg (by simpa using hresult)]
  by_cases htop : result.hasMember "top_block_hash" = true
  · rw [if_pos htop] at h ⊢
    rw [if_neg (not_not.mpr h)]
    exact ⟨.refl c, rfl⟩
  · rw [if_neg htop] at h ⊢
    obtain ⟨hjob, hres, hport⟩ := h
    have hquiet := quiet_handleSubmitResponse c id
    rw [if_neg (by simpa only [Bool.not_eq_true', decide_eq_false_iff_not] using hjob)]
    simp only [handleSubmitResponse, if_pos hres, emit] at hquiet ⊢
    rw [if_pos trivial, if_neg (by omega)]
    exact ⟨hquiet, rfl⟩

theorem quiet_onHttpData {c : Client} {r : Request} {data : HttpData} {now : Nat}
    {jobId : String} (h : c.replyHarmless accepts r data now = true) :
    Quiet c (c.onHttpData accepts r data now jobId) := by
  obtain ⟨hstatus, hbody⟩ := of_decide_eq_true h
  unfold onHttpData
  rw [if_neg (not_not.mpr hstatus)]
  cases hdoc : data.body with
  | none => simp [hdoc] at hbody
  | some doc =>
    rw [hdoc, Option.any_some] at hbody
    cases r with
    | getHeight =>
      obtain ⟨hhash, hnot⟩ := of_decide_eq_true hbody
      simp only [hhash, onHeight]
      rw [if_neg (by simp), if_neg (by simpa using hnot)]
      exact .refl c
    | getInfo =>
      simp only [onHeight]
      rw [if_neg (by simpa using hbody)]
      exact .refl c
    | rpc method id =>
      obtain ⟨hquiet, htrue⟩ := quiet_parseResponse accepts now jobId hbody
      simp only [htrue, if_true]
      exact hquiet

/-- A harmless event leaves a disconnected client as quiet as it finds it. -/
theorem quiet_step {c c' : Client} {e : Event} (hs : c.state = .unconnected)
    (ht : c.timer = none) (h : c.harmless accepts e = true) (he : e.isConnect = false)
    (hstep : c.step accepts e = some c') : Quiet c c' := by
  simp only [harmless, hs, ne_eq, not_true_eq_false, decide_false, Bool.false_or] at h
  cases e with
  | connect => simp [Event.isConnect] at he
  | connectTo pool => simp [Event.isConnect] at he
  | disconnect =>
    obtain rfl := Option.some.inj hstep
    rw [disconnect_of_unconnected hs]
    exact .refl c
  | submit jobId =>
    obtain rfl := Option.some.inj hstep
    rw [submit, if_pos (of_decide_eq_true h)]
    exact .refl c
  | reply index data now jobId =>
    obtain ⟨r, hr, rfl⟩ := Option.map_eq_some_iff.mp hstep
    have hfetch : Quiet c { c with fetches := c.fetches.eraseIdx index } := ⟨rfl, rfl, rfl⟩
    have hdata : c.replyHarmless accepts r data now = true := by simpa [hr] using h
    exact hfetch.trans (quiet_onHttpData accepts hdata)
  | timer now => simp [step, ht] at hstep
  | resolved ok =>
    obtain ⟨-, h'⟩ := Option.ite_none_right_eq_some.mp hstep
    obtain rfl := Option.some.inj h'
    unfold onResolved
    rw [if_neg (by simpa using h)]
    split_ifs <;> exact ⟨rfl, rfl, rfl⟩
  | zmqConnect ok written =>
    obtain rfl := Option.some.inj hstep
    exact quiet_onZmqConnect h
  | zmqRead bytes w =>
    obtain rfl := Option.some.inj hstep
    exact quiet_zmqRead h
  | zmqClosed =>
    obtain rfl := Option.some.inj hstep
    exact ⟨rfl, rfl, rfl⟩
  | otherRequest =>
    obtain rfl := Option.some.inj hstep
    exact ⟨rfl, rfl, rfl⟩

/-- Connected or about to be; only `disconnect` ends it. -/
def Live (c : Client) : Prop := c.state ≠ .unconnected

theorem setState_connecting (c : Client) : (c.setState .connecting).state = .connecting := by
  by_cases h : c.state = .connecting
  · rw [setState, if_pos h, h]
  · rw [setState, if_neg h]

theorem live_connecting (c : Client) : Live (c.setState .connecting) := by
  simp [Live, setState_connecting]

theorem live_retry {c : Client} (h : Live c) : Live c.retry := by
  unfold retry
  dsimp only
  split_ifs with _ hc
  · exact h
  · exact live_connecting _
  · exact h

theorem live_connect (c : Client) : Live c.connect := by
  have h := live_connecting c
  unfold connect
  dsimp only
  split_ifs
  all_goals first | exact h | exact live_retry h

theorem live_onHeight {c : Client} {now height : Nat} {hash : Option String} (h : Live c) :
    Live (c.onHeight now height hash) := by
  unfold onHeight
  split_ifs <;> exact h

theorem live_takeJob {c : Client} {now : Nat} {jobId : String} {params : Json} (h : Live c) :
    Live (c.takeJob now jobId params) := by
  unfold takeJob
  dsimp only
  split_ifs with hc
  · simp [Live, emit, setState, hc]
  · exact h

theorem live_handleSubmitResponse {c : Client} (h : Live c) (id : Int) :
    Live (c.handleSubmitResponse id).1 := by
  unfold handleSubmitResponse
  split_ifs <;> exact h

theorem live_parseResponse {c : Client} (h : Live c) (now : Nat) (jobId : String) (id : Int)
    (result error : Json) :
    Live (c.parseResponse accepts now jobId id result error).1 := by
  have hsubmit := live_handleSubmitResponse h id
  unfold parseResponse
  dsimp only
  split_ifs
  all_goals first | exact h | exact live_takeJob h | exact hsubmit

theorem live_onHttpData {c : Client} {r : Request} {data : HttpData} {now : Nat}
    {jobId : String} (h : Live c) : Live (c.onHttpData accepts r data now jobId) := by
  unfold onHttpData
  split_ifs
  · exact live_retry h
  cases data.body with
  | none => exact live_retry h
  | some doc =>
    cases r with
    | getHeight =>
      dsimp only
      split_ifs
      · exact h
      · exact live_onHeight h
    | getInfo => exact live_onHeight h
    | rpc method id =>
      have hnext := live_parseResponse accepts h now jobId (doc.getInt64 "id" (-1))
        (doc.getObject "result") (doc.getObject "error")
      dsimp only
      split_ifs
      · exact hnext
      · exact live_retry hnext

theorem live_poll {c : Client} (h : Live c) : Live c.poll := by
  unfold poll
  cases hs : c.state with
  | unconnected => exact absurd hs h
  | connecting => exact live_connect c
  | connected => exact h

theorem live_onTimer {c : Client} {now : Nat} (h : Live c) : Live (c.onTimer now) := by
  unfold onTimer
  dsimp only
  split_ifs
  · exact h
  · exact live_poll h
  · exact live_poll h

theorem live_zmqClose {c : Client} (h : Live c) : Live c.zmqClose := by
  unfold zmqClose
  split_ifs
  · exact live_retry h
  · exact h
  · exact h

theorem live_zmqWrite {c : Client} {written : Bool} (h : Live c) : Live (c.zmqWrite written) := by
  unfold zmqWrite
  split_ifs
  · exact h
  · exact live_zmqClose h

theorem live_zmqParse {c : Client} (h : Live c) : Live c.zmqParse := by
  unfold zmqParse
  cases scanMessage c.zmqRecvBuf with
  | incomplete => exact h
  | failed => exact live_zmqClose h
  | complete rest => exact h

theorem live_zmqHandshake {c : Client} {w : Writes} (h : Live c) : Live (c.zmqHandshake w) := by
  unfold zmqHandshake
  cases scanHandshake c.zmqRecvBuf with
  | incomplete => exact h
  | failed => exact live_zmqClose h
  | complete rest =>
    have hwrite : Live (c.zmqWrite w.subscribe) := live_zmqWrite h
    exact live_zmqParse hwrite

theorem live_zmqGreeting2 {c : Client} {w : Writes} (h : Live c) : Live (c.zmqGreeting2 w) := by
  unfold zmqGreeting2
  cases scanGreeting2 c.zmqRecvBuf with
  | incomplete => exact h
  | failed => exact live_zmqClose h
  | complete rest =>
    dsimp only
    split_ifs
    · exact live_zmqHandshake h
    · exact live_zmqClose h

theorem live_zmqGreeting1 {c : Client} {w : Writes} (h : Live c) : Live (c.zmqGreeting1 w) := by
  unfold zmqGreeting1
  cases scanGreeting1 c.zmqRecvBuf with
  | incomplete => exact h
  | failed => exact live_zmqClose h
  | complete rest =>
    have hwrite : Live (c.zmqWrite w.greeting) := live_zmqWrite h
    exact live_zmqGreeting2 hwrite

theorem live_zmqRead {c : Client} {bytes : List UInt8} {w : Writes} (h : Live c) :
    Live (c.zmqRead bytes w) := by
  unfold zmqRead
  split_ifs
  · exact live_zmqClose h
  · unfold zmqStage
    dsimp only
    cases c.zmq with
    | greeting1 => exact live_zmqGreeting1 h
    | greeting2 => exact live_zmqGreeting2 h
    | handshake => exact live_zmqHandshake h
    | connected => exact live_zmqParse h
    | notConnected => exact h
    | disconnecting => exact h

theorem live_step {c c' : Client} {e : Event} (h : Live c ∨ e.isConnect = true)
    (he : e ≠ .disconnect) (hstep : c.step accepts e = some c') : Live c' := by
  have live (hn : e.isConnect = false) : Live c := h.resolve_right (by simp [hn])
  cases e with
  | connect => exact Option.some.inj hstep ▸ live_connect c
  | connectTo pool => exact Option.some.inj hstep ▸ live_connect (c.setPool pool)
  | disconnect => exact (he rfl).elim
  | submit jobId =>
    obtain rfl := Option.some.inj hstep
    unfold submit
    split_ifs <;> exact live rfl
  | reply index data now jobId =>
    obtain ⟨r, -, rfl⟩ := Option.map_eq_some_iff.mp hstep
    have hc : Live { c with fetches := c.fetches.eraseIdx index } := live rfl
    exact live_onHttpData accepts hc
  | timer now =>
    obtain ⟨t, -, rfl⟩ := Option.map_eq_some_iff.mp hstep
    have hc : Live { c with timer := if t.2 = 0 then none else some (t.2, t.2) } := live rfl
    exact live_onTimer hc
  | resolved ok =>
    obtain ⟨-, h'⟩ := Option.ite_none_right_eq_some.mp hstep
    obtain rfl := Option.some.inj h'
    have hc : Live { c with lookup := false } := live rfl
    unfold onResolved
    dsimp only
    split_ifs
    · exact live_retry hc
    · exact hc
    · exact hc
  | zmqConnect ok written =>
    obtain rfl := Option.some.inj hstep
    have hc : Live { c with zmq := .greeting1 } := live rfl
    unfold onZmqConnect
    split_ifs
    · exact live_zmqWrite hc
    · exact live_retry (live rfl)
  | zmqRead bytes w => exact Option.some.inj hstep ▸ live_zmqRead (live rfl)
  | zmqClosed => exact Option.some.inj hstep ▸ live rfl
  | otherRequest => exact Option.some.inj hstep ▸ live rfl

/-- A disconnected client has no timer running. -/
def Stopped (c : Client) : Prop := c.state = .unconnected → c.timer = none

theorem stopped_step {c c' : Client} {e : Event} (h : c.harmless accepts e = true)
    (hc : c.Stopped) (hstep : c.step accepts e = some c') : c'.Stopped := by
  intro hs'
  by_cases hd : e = .disconnect
  · subst hd
    obtain rfl := Option.some.inj hstep
    by_cases hs : c.state = .unconnected
    · rw [disconnect_of_unconnected hs]
      exact hc hs
    · rw [disconnect_of_ne hs]
  · by_cases hlive : c.Live ∨ e.isConnect = true
    · exact absurd hs' (live_step accepts hlive hd hstep)
    · simp only [not_or, Live, not_not, Bool.not_eq_true] at hlive
      have hquiet := quiet_step accepts hlive.1 (hc hlive.1) h hlive.2 hstep
      rw [hquiet.timer]
      exact hc hlive.1

end Client

open Client

/-- Since `c` was disconnected, nothing has been announced or requested. -/
def Silent (c c' : Client) : Prop :=
  c'.timer = none ∧ c'.calls.filter Call.isActive = c.calls.filter Call.isActive

def monero : Pool :=
  { algorithm := .rx0, coin := none, wallet := true, zmqPort := -1, jobTimeout := 15000,
    pollInterval := 1000 }

/-- A request fails after `disconnect()`: `retry` counts up from -1 before it compares with -1,
and the timer runs again. -/
theorem disconnect_retried : ¬ ∀ (accepts : Pool → String → Option String → Bool) (pool : Pool)
    (retryPause : Nat) (before after : List Event) (c d c' : Client),
    exec (step accepts) { pool, retryPause } before = some c →
    c.step accepts .disconnect = some d → exec (step accepts) d after = some c' →
    (∀ e ∈ after, e.isConnect = false) → Silent c c' := by
  intro h
  have hrun := h (fun _ _ _ => true) monero 5000 [.connect]
    [.reply 0 { status := 500, body := none } 0 ""] _ _ _ rfl rfl rfl (by simp [Event.isConnect])
  exact absurd hrun.1 nofun

/-- From `disconnect()` to the next `connect()` the timer is stopped and no job, login or
request is announced, if every event that meets the client disconnected is harmless. -/
theorem disconnect_silent {accepts : Pool → String → Option String → Bool} {pool : Pool}
    {retryPause : Nat} {before after : List Event} {c d c' : Client}
    (hbefore : Run (step accepts) (fun c e => c.harmless accepts e = true)
      { pool, retryPause } before c)
    (hd : c.step accepts .disconnect = some d)
    (hafter : Run (step accepts) (fun c e => c.harmless accepts e = true ∧ e.isConnect = false)
      d after c') :
    Silent c c' := by
  have hstart : Stopped { pool, retryPause } := fun _ => rfl
  have hstopped : c.Stopped := hbefore.invariant
    (fun _ _ _ hp hi hst => stopped_step accepts hp hi hst) hstart
  obtain rfl := Option.some.inj hd
  have hd : c.disconnect.state = .unconnected ∧ c.disconnect.timer = none ∧
      c.disconnect.calls = c.calls := by
    by_cases hs : c.state = .unconnected
    · rw [disconnect_of_unconnected hs]
      exact ⟨hs, hstopped hs, rfl⟩
    · rw [disconnect_of_ne hs]
      exact ⟨rfl, rfl, rfl⟩
  obtain ⟨hs, ht, hcalls⟩ := hd
  have hquiet : Quiet c.disconnect c' :=
    hafter.invariant
      (fun _ _ _ hp hi hst => hi.trans
        (quiet_step accepts (hi.state.trans hs) (hi.timer.trans ht) hp.1 hp.2 hst))
      (.refl _)
  exact ⟨hquiet.timer.trans ht, hcalls ▸ hquiet.calls⟩

/-- A client at work asks for the daemon's height and is disconnected; the reply reports the
block of its job. -/
theorem disconnect_silent_run :
    let accepts : Pool → String → Option String → Bool := fun _ _ _ => true
    ∃ c d c' : Client,
      c.calls = [.request .getHeight, .jobReceived "job1", .loginSuccess,
        .request (.rpc "getblocktemplate" 1)] ∧
      c.step accepts .disconnect = some d ∧ c'.fetches = [] ∧ Silent c c' := by
  intro accepts
  have hrun : ((exec (guarded (harmless accepts) (step accepts)) { pool := monero }
      [.connect,
        .reply 0 { status := 200, body := some (.object [("id", .int 1), ("result", .object
          [("blocktemplate_blob", .string "0e0e"), ("blockhashing_blob", .string "0e"),
            ("height", .int 7), ("prev_hash", .string "ab")])]) } 100 "job1",
        .timer 1100]).bind fun c =>
      (exec (guarded (fun c e => c.harmless accepts e && !e.isConnect) (step accepts)) c.disconnect
        [.reply 0 { status := 200, body := some (.object
          [("hash", .string "ab"), ("height", .int 7)]) } 1200 ""]).map fun c' =>
        (c.calls, c'.fetches)) =
      some ([.request .getHeight, .jobReceived "job1", .loginSuccess,
        .request (.rpc "getblocktemplate" 1)], []) := by decide
  obtain ⟨c, hbefore, hrun⟩ := Option.bind_eq_some_iff.mp hrun
  obtain ⟨c', hafter, hc⟩ := Option.map_eq_some_iff.mp hrun
  obtain ⟨hcalls, hfetches⟩ := Prod.mk.inj hc
  refine ⟨c, c.disconnect, c', hcalls, rfl, hfetches, disconnect_silent
    (run_of_guarded (fun _ _ => id) hbefore) rfl (run_of_guarded (fun _ _ h => ?_) hafter)⟩
  simpa using h

end VeloxHash.DaemonClient
