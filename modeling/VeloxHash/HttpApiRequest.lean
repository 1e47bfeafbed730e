import VeloxHash.HttpContext
import VeloxHash.Json

/-! `HttpApiRequest` and `Api::exec`: how the request of a client is put together, passed to the
listeners of the API, and answered. -/

namespace VeloxHash

/-- Code that is used as it is: the JSON parser (with comments and trailing commas), the writer,
and the names of status codes. -/
structure HttpLibrary where
  parse : String → Except String Json
  print : Json → String
  statusName : Int → String

namespace Json

/-- `AddMember`, which is only for objects. -/
def addMember (doc : Json) (key : String) (value : Json) : Json :=
  match doc with
  | object members => object (members ++ [(key, value)])
  | v => v

/-- The string up to its first zero, as the constructor of `String` reads it. -/
def zeroTerminated (s : String) : String := String.ofList (s.toList.takeWhile (· ≠ '\x00'))

end Json

/-- What a client is sent. -/
structure HttpAnswer where
  status : Int
  headers : HeaderMap
  doc : Option Json

structure HttpApiResponse where
  statusCode : Int := 200
  headers : HeaderMap := []
  doc : Json := .object []

namespace HttpApiResponse

variable (lib : HttpLibrary)

def setHeader (res : HttpApiResponse) (key value : String) : HttpApiResponse :=
  { res with headers := res.headers.insert key value }

def setStatus (res : HttpApiResponse) (code : Int) : HttpApiResponse :=
  { res with statusCode := code }

def addMember (res : HttpApiResponse) (key : String) (value : Json) : HttpApiResponse :=
  { res with doc := res.doc.addMember key value }

/-- `HttpResponse::end`. A client that is not alive gets nothing. -/
def endHttp (res : HttpApiResponse) (alive : Bool) (doc : Option Json) :
    HttpApiResponse × List HttpAnswer :=
  if !alive then (res, [])
  else
    let size := (doc.map fun d => (lib.print d).length).getD 0
    let res := if size ≠ 0 then res.setHeader "Content-Length" (toString size) else res
    let res := res.setHeader "Connection" "close"
    (res, [⟨res.statusCode, res.headers, doc⟩])

def addMissing (res : HttpApiResponse) (key : String) (value : Json) : HttpApiResponse :=
  if res.doc.hasMember key then res else res.addMember key value

def allowOrigins (res : HttpApiResponse) : HttpApiResponse :=
  let res := res.setHeader "Access-Control-Allow-Origin" "*"
  let res := res.setHeader "Access-Control-Allow-Methods" "GET, PUT, POST, DELETE"
  res.setHeader "Access-Control-Allow-Headers" "Authorization, Content-Type"

def nameError (res : HttpApiResponse) : HttpApiResponse :=
  if 400 ≤ res.statusCode then
    (res.addMissing "status" (.int res.statusCode)).addMissing "error"
      (.string (lib.statusName res.statusCode))
  else res

/-- `HttpApiResponse::end`. -/
def endApi (res : HttpApiResponse) (alive : Bool) : HttpApiResponse × List HttpAnswer :=
  let res := res.allowOrigins.nameError lib
  match res.doc with
  | .object [] => res.endHttp lib alive none
  | doc => (res.setHeader HttpData.kContentType HttpData.kApplicationJson).endHttp lib alive (some doc)

end HttpApiResponse

namespace HttpApiRequest

def RPC_PARSE_ERROR : Int := -32700

def RPC_INVALID_REQUEST : Int := -32600

def RPC_METHOD_NOT_FOUND : Int := -32601

def RPC_INVALID_PARAMS : Int := -32602

inductive RequestType
  | unknown
  | summary
  | jsonRpc
  deriving DecidableEq

inductive State
  | new
  | accepted
  | done
  deriving DecidableEq

/-- What a listener does besides the request. -/
inductive Action
  | getConfig
  | reload (json : Json)
  | setEnabled (enabled : Bool)
  | stop

/-- The ghosts `ends` and `actions` list what was sent, and what the listeners did. -/
structure Request where
  data : HttpData
  restricted : Bool
  alive : Bool
  version : Nat := 1
  type : RequestType := .unknown
  state : State := .new
  rpcMethod : String := ""
  parsed : Nat := 0
  body : Json := .null
  res : HttpApiResponse := {}
  ends : List HttpAnswer := []
  actions : List Action := []

/-- A call of a listener that leaves the request open. -/
inductive Call
  | accept
  | addMember (key : String) (value : Json)
  | setDoc (doc : Json)
  | act (action : Action)

/-- A call of a listener that ends the request. -/
inductive Final
  | done (status : Int)
  | setRpcError (code : Int) (message : Option String)
  | setRpcResult (result : Json)

/-- What a listener does with a request: it ends it at most once, at last. -/
structure Script where
  calls : List Call := []
  final : Option Final := none

variable (lib : HttpLibrary)

def rpcError (code : Int) : String :=
  if code = RPC_PARSE_ERROR then "Parse error"
  else if code = RPC_INVALID_REQUEST then "Invalid Request"
  else if code = RPC_METHOD_NOT_FOUND then "Method not found"
  else if code = RPC_INVALID_PARAMS then "Invalid params"
  else if 400 ≤ code ∧ code < 600 then lib.statusName code
  else "Internal error"

namespace Request

def hasParseError (r : Request) : Bool := r.parsed == 2

def isDone (r : Request) : Bool := r.state == .done

def isNew (r : Request) : Bool := r.state == .new

def addMember (r : Request) (key : String) (value : Json) : Request :=
  { r with res := r.res.addMember key value }

def accept (r : Request) : Request × Bool :=
  let r := { r with state := .accepted }
  if r.parsed = 0 ∧ r.data.body ≠ "" then
    match lib.parse r.data.body with
    | .ok body => ({ r with parsed := 1, body }, true)
    | .error text =>
      let r := { r with parsed := 2 }
      (if r.type = .jsonRpc then r else r.addMember "error" (.string text), false)
  else (r, r.hasParseError)

/-- What the listeners read of the body. -/
def json (r : Request) : Json :=
  if r.type = .jsonRpc then r.body.getValue "params" else r.body

/-- `m_res.end()`. -/
def endApi (r : Request) : Request :=
  let (res, answers) := r.res.endApi lib r.alive
  { r with res, ends := r.ends ++ answers }

def rpcDone (r : Request) (key : String) (value : Json) : Request :=
  let r := { r with state := .done }
  let r := r.addMember key value
  let r := r.addMember "jsonrpc" (.string "2.0")
  let r := r.addMember "id" (r.body.getValue "id")
  { r with res := r.res.setStatus 200 }.endApi lib

def setRpcError (r : Request) (code : Int) (message : Option String) : Request :=
  r.rpcDone lib "error"
    (.object [("code", .int code), ("message", .string (message.getD (rpcError lib code)))])

def setRpcResult (r : Request) (result : Json) : Request := r.rpcDone lib "result" result

def done (r : Request) (status : Int) : Request :=
  let r := { r with state := .done }
  let r :=
    if r.type = .jsonRpc then
      let r := { r with res := r.res.setStatus 200 }
      if status ≠ 200 then
        r.setRpcError lib (if status = 404 then RPC_METHOD_NOT_FOUND else status) none
      else if !r.res.doc.hasMember "result" then
        r.setRpcResult lib (.object [("status", .string "OK")])
      else r
    else { r with res := r.res.setStatus status }
  r.endApi lib

/-- The branch of the constructor for JSON-RPC. -/
def parseRpc (r : Request) : Request :=
  let r := ({ r with type := .jsonRpc }.accept lib).1
  if r.hasParseError then r.done lib RPC_PARSE_ERROR
  else
    let r := { r with rpcMethod := Json.zeroTerminated ((r.body.getString "method").getD "") }
    if r.rpcMethod = "" then r.done lib RPC_INVALID_REQUEST else { r with state := .new }

/-- The constructor. -/
def ofData (data : HttpData) (restricted alive : Bool) : Request :=
  let r : Request := { data, restricted, alive }
  let r :=
    if data.method = HttpData.HTTP_GET ∧ data.url ∈ ["/1/summary", "/2/summary", "/api.json"] then
      { r with type := .summary }
    else r
  if data.method = HttpData.HTTP_POST ∧ data.url = "/json_rpc" then r.parseRpc lib
  else if 4 < data.url.length ∧ data.url.toList.take 3 = ['/', '2', '/'] then { r with version := 2 }
  else r

def perform (r : Request) : Call → Request
  | .accept => (r.accept lib).1
  | .addMember key value => r.addMember key value
  | .setDoc doc => { r with res.doc := doc }
  | .act action => { r with actions := r.actions ++ [action] }

def conclude (r : Request) : Final → Request
  | .done status => r.done lib status
  | .setRpcError code message => r.setRpcError lib code message
  | .setRpcResult result => r.setRpcResult lib result

/-- `onRequest` of a listener. -/
def onRequest (r : Request) (script : Script) : Request :=
  let r := script.calls.foldl (perform lib) r
  match script.final with
  | some final => r.conclude lib final
  | none => r

/-- The listeners one after another, and whether one of them ended the request. -/
def offer (r : Request) : List Script → Request × Bool
  | [] => (r, false)
  | script :: rest =>
    let r := r.onRequest lib script
    if r.isDone then (r, true) else r.offer rest

end Request

/-- What `Api` says about the miner. -/
structure Api where
  id : String := ""
  workerId : Json := .null
  uptime : Nat := 0
  resources : Json := .null
  features : List String := []

namespace Api

def summary (api : Api) (r : Request) : Request :=
  let r := (r.accept lib).1
  let r := r.addMember "id" (.string api.id)
  let r := r.addMember "worker_id" api.workerId
  let r := r.addMember "uptime" (.int api.uptime)
  let r := r.addMember "restricted" (.bool r.restricted)
  let r := r.addMember "resources" api.resources
  r.addMember "features" (.array (api.features.map .string))

/-- `summary` in the calls that a listener would make. -/
def summaryCalls (api : Api) (restricted : Bool) : List Call :=
  [.accept, .addMember "id" (.string api.id), .addMember "worker_id" api.workerId,
    .addMember "uptime" (.int api.uptime), .addMember "restricted" (.bool restricted),
    .addMember "resources" api.resources, .addMember "features" (.array (api.features.map .string))]

theorem summary_eq (api : Api) (r : Request) : api.summary lib r =
    (api.summaryCalls (r.accept lib).1.restricted).foldl (Request.perform lib) r := rfl

def exec (api : Api) (r : Request) (scripts : List Script) : Request :=
  let r := if r.type = .summary then api.summary lib r else r
  let (r, ended) := r.offer lib scripts
  if ended then r else r.done lib (if r.isNew then 404 else 200)

/-- A request with what each listener does when it is offered it. -/
def request (api : Api) (data : HttpData) (restricted alive : Bool) (scripts : List Script) :
    Request :=
  api.exec lib (.ofData lib data restricted alive) scripts

end Api

section Listeners

/-- What `Base`, `Network`, `HwApi` and `Miner` with the backends read of the program. -/
structure Facts where
  config : Json := .object []
  reload : Json → Bool := fun _ => true
  network : Nat → List (String × Json) := fun _ => []
  dmi : Option (List (String × Json)) := none
  miner : Nat → List (String × Json) := fun _ => []
  backends : List Json := []
  hugePages : Nat → Json := fun _ => .null

variable (facts : Facts)

def isConfigPath (url : String) : Bool := url == "/1/config" || url == "/2/config"

def addMembers (members : List (String × Json)) : List Call :=
  members.map fun m => .addMember m.1 m.2

namespace Base

def onRequest (r : Request) : Script :=
  if r.data.method = HttpData.HTTP_GET then
    if isConfigPath r.data.url then
      if r.restricted then { final := some (.done 403) }
      else { calls := [.accept, .act .getConfig, .setDoc facts.config] }
    else {}
  else if r.data.method = HttpData.HTTP_PUT ∨ r.data.method = HttpData.HTTP_POST then
    if isConfigPath r.data.url then
      let json := (r.accept lib).1.json
      { calls := [.accept, .act (.reload json)]
        final := some (.done (if facts.reload json then 204 else 400)) }
    else {}
  else {}

end Base

namespace Network

def onRequest (r : Request) : Script :=
  if r.type = .summary then { calls := .accept :: addMembers (facts.network r.version) } else {}

end Network

namespace HwApi

def onRequest (r : Request) : Script :=
  match facts.dmi with
  | some members =>
    if r.data.method = HttpData.HTTP_GET ∧ r.data.url = "/2/dmi" then
      { calls := .accept :: addMembers members }
    else {}
  | none => {}

end HwApi

namespace Miner

/-- The requests that change the state of the miner. -/
def command (r : Request) : Option Action :=
  if r.data.method = HttpData.HTTP_GET then none
  else if r.type = .jsonRpc then
    if r.rpcMethod = "pause" then some (.setEnabled false)
    else if r.rpcMethod = "resume" then some (.setEnabled true)
    else if r.rpcMethod = "stop" then some .stop
    else none
  else none

/-- `handleRequest` of the backends, of which only that of the CPU does something. -/
def handleRequest (r : Request) : List Call :=
  if r.type = .summary then [.addMember "hugepages" (facts.hugePages r.version)] else []

def onRequest (r : Request) : Script :=
  let calls :=
    if r.data.method = HttpData.HTTP_GET then
      if r.type = .summary then .accept :: addMembers (facts.miner r.version)
      else if r.data.url = "/2/backends" then [.accept, .setDoc (.array facts.backends)]
      else []
    else
      match command r with
      | some action => [.accept, .act action]
      | none => []
  { calls := calls ++ handleRequest facts r }

end Miner

/-- What the listeners do, in the order in which they were added. -/
def scripts (r : Request) : List Script :=
  [Base.onRequest lib facts r, Network.onRequest facts r, HwApi.onRequest facts r,
    Miner.onRequest facts r]

end Listeners

end HttpApiRequest

end VeloxHash
