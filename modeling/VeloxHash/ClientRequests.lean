import VeloxHash.Json

/-! What a stratum `Client` sends and what it makes of the replies: `m_sequence`, the maps
`m_results` and `m_callbacks` keyed by it, and the handling of one line after another. Of
the connection it keeps whether requests may be written and which sockets are read. The
ghost fields number the submitted shares and record what was sent and what was reported. -/

namespace VeloxHash.ClientRequests

/-- What `submit` reads of a `JobResult`. -/
structure JobResult where
  clientId : Option String
  diff : UInt64
  actualDiff : UInt64
  backend : UInt32
  deriving DecidableEq, Repr

structure SubmitResult where
  share : Nat
  seq : Int
  diff : UInt64
  actualDiff : UInt64
  reqId : Int
  backend : UInt32
  deriving DecidableEq, Repr

/-- How a send ends in a connected client: written, `-1` with the connection left open,
`-1` after a write error, or `-1` because the document is too long. -/
inductive SendOutcome
  | sent
  | failed
  | broken
  | tooLong
  deriving DecidableEq, Repr

/-- A line that decodes. `accepts` is what `parseJob` answers for the job in it, `memory`
what lies where a `message` that is no string points to. -/
structure Line where
  doc : Json
  accepts : Bool := true
  memory : String := ""

/-- One call of `onResultAccepted`, with whether the reply had an error object. -/
structure Report where
  result : SubmitResult
  message : Option String
  errorObject : Bool
  deriving DecidableEq, Repr

structure Client where
  id : Int
  sequence : Int
  rpcId : Option String := none
  results : Int → Option SubmitResult := fun _ => none
  callbacks : Int → Bool := fun _ => false
  connected : Bool := false
  listening : Bool := false
  leaked : Bool := false
  unparsed : List Line := []
  submitted : Nat := 0
  sent : List Nat := []
  reports : List Report := []

inductive Event
  | submit (result : JobResult) (outcome : SendOutcome)
  | ping (outcome : SendOutcome)
  | request (outcome : SendOutcome)
  | read (lines : List Line)
  | parse
  | close
  | resolve
  | connected
  | login (outcome : SendOutcome)
  | others (n : Nat)

def criticalErrors : List String :=
  ["unauthenticated", "your ip is banned", "ip address currently banned", "invalid job id"]

def isCriticalError : Option String → Bool
  | none => false
  | some message => criticalErrors.any fun error => message.toLower.startsWith error

namespace Client

/-- Some socket is read whose lines reach `parse`: that of the session, or one that
`m_socket` no longer denotes. -/
def hears (c : Client) : Bool := c.listening || c.leaked

def close (c : Client) : Client := { c with connected := false, listening := false }

/-- `send`, with whether the request was sent. -/
def send (c : Client) (outcome : SendOutcome) : Client × Bool :=
  match outcome with
  | .tooLong => (c.close, false)
  | .failed => (c, false)
  | .broken => if c.connected then (c.close, false) else (c, false)
  | .sent => if c.connected then ({ c with sequence := c.sequence + 1 }, true) else (c, false)

/-- The checks at the head of `submit`. -/
def refuses (c : Client) (result : JobResult) : Bool :=
  result.clientId != c.rpcId || c.rpcId.isNone || !c.connected

def register (c : Client) (result : JobResult) : Client :=
  { c with
    results := Function.update c.results c.sequence (some
      ⟨c.submitted, c.sequence, result.diff, result.actualDiff, 0, result.backend⟩)
    submitted := c.submitted + 1 }

def submit (c : Client) (result : JobResult) (outcome : SendOutcome) : Client :=
  if c.refuses result then { c with submitted := c.submitted + 1 }
  else if result.diff = 0 then { c.close with submitted := c.submitted + 1 }
  else
    let next := (c.register result).send outcome
    if next.2 then { next.1 with sent := c.submitted :: c.sent } else next.1

def ping (c : Client) (outcome : SendOutcome) : Client := (c.send outcome).1

/-- `send(obj, callback)`; `insert` keeps a callback that is already there. -/
def request (c : Client) (outcome : SendOutcome) : Client :=
  (send { c with callbacks := Function.update c.callbacks c.sequence true } outcome).1

/-- `login`, which is called once the connection is ready for lines. -/
def login (c : Client) (outcome : SendOutcome) : Client :=
  (send { c with results := fun _ => none, listening := true } outcome).1

def handleSubmitResponse (c : Client) (id : Int) (message : Option String)
    (errorObject : Bool) : Client :=
  match c.results id with
  | none => c
  | some result =>
    { c with
      results := Function.update c.results id none
      reports := ⟨result, message, errorObject⟩ :: c.reports }

def parseLogin (c : Client) (result : Json) (accepts : Bool) : Client :=
  let c := { c with rpcId := result.getString "id" }
  if c.rpcId.isNone || !accepts then c.close else c

/-- The reply is for a callback: `handleResponse`. -/
def isCallback (c : Client) (id : Int) : Bool := id != 1 && c.callbacks id

/-- `error["message"].GetString()`. -/
def errorMessage (line : Line) (error : Json) : Option String :=
  (error.getValue "message").rawString line.memory

def parseResponse (c : Client) (line : Line) (id : Int) (result error : Json) : Client :=
  if c.isCallback id then
    { c with callbacks := Function.update c.callbacks id false }
  else if error.isObject then
    let message := errorMessage line error
    let c := c.handleSubmitResponse id message true
    if c.id = 1 ∨ isCriticalError message then c.close else c
  else if !result.isObject then
    c
  else if id = 1 then
    c.parseLogin result line.accepts
  else
    c.handleSubmitResponse id none false

/-- `client.reconnect` with a host and a port. -/
def isReconnect (doc : Json) : Bool :=
  match doc.getValue "params" with
  | .array [host, port] => host.isString && port.isString
  | _ => false

/-- The state leaves `ConnectedState`, `m_socket` stays as it is. -/
def resolve (c : Client) : Client := { c with connected := false }

/-- A connection is made; a socket still read is left behind. -/
def onConnect (c : Client) : Client :=
  { c with connected := true, listening := false, leaked := c.hears }

/-- Other clients have sent `n` requests. -/
def advance (c : Client) (n : Nat) : Client := { c with sequence := c.sequence + n }

def parse (c : Client) (line : Line) : Client :=
  let method := line.doc.getString "method"
  if method = some "client.reconnect" then
    if isReconnect line.doc then c.resolve else c
  else
    match (line.doc.getValue "id").toInt64? with
    | some id => c.parseResponse line id (line.doc.getValue "result") (line.doc.getValue "error")
    | none =>
      if method = some "job" ∧ !(line.doc.getValue "error").isObject ∧ !line.accepts then c.close
      else c

end Client

/-- While lines of a read are left nothing else happens. -/
def step (c : Client) (e : Event) : Option Client :=
  match c.unparsed with
  | line :: rest =>
    match e with
    | .parse => some (Client.parse { c with unparsed := rest } line)
    | _ => none
  | [] =>
    match e with
    | .submit result outcome => some (c.submit result outcome)
    | .ping outcome => if outcome = .tooLong then none else some (c.ping outcome)
    | .request outcome => some (c.request outcome)
    | .read lines => if c.hears then some { c with unparsed := lines } else none
    | .parse => none
    | .close => some c.close
    | .resolve => some c.resolve
    | .connected => if c.connected then none else some c.onConnect
    | .login outcome =>
      if c.connected && !c.listening then some (c.login outcome) else none
    | .others n => some (c.advance n)

end VeloxHash.ClientRequests
