import VeloxHash.TransitionSystem
import Mathlib.Data.List.Basic

/-! `HttpContext`: how the callbacks of the HTTP parser become a message for the listener, when
the parser sees the message in any number of pieces. A `std::string` is a string with one
character for each byte. -/

namespace VeloxHash

/-- `std::map` with `insert`, which keeps what is there. -/
abbrev HeaderMap := List (String × String)

namespace HeaderMap

def find (key : String) : HeaderMap → Option String
  | [] => none
  | (name, value) :: rest => if name = key then some value else find key rest

def insert (headers : HeaderMap) (key value : String) : HeaderMap :=
  if (headers.find key).isSome then headers else headers ++ [(key, value)]

end HeaderMap

structure HttpData where
  method : Int := 0
  status : Int := 0
  headers : HeaderMap := []
  body : String := ""
  url : String := ""
  deriving DecidableEq

namespace HttpData

def kApplicationJson : String := "application/json"

def kContentType : String := "Content-Type"

def kContentTypeL : String := "content-type"

/-- Method numbers of the parser. -/
def HTTP_GET : Int := 1

def HTTP_POST : Int := 3

def HTTP_PUT : Int := 4

def HTTP_OPTIONS : Int := 6

end HttpData

/-- The callbacks that `attach` sets. A status is there for a response, a method for a request. -/
inductive HttpCallback
  | url (piece : String)
  | headerField (piece : String)
  | headerValue (piece : String)
  | headersComplete (status method : Int)
  | body (piece : String)
  | messageComplete
  deriving DecidableEq

/-- The listener is there while `m_listener` is neither reset nor expired, and `stored` means that
`storage` has the context. The ghost `handed` lists what `onHttpData` was called with. -/
structure HttpContext where
  isRequest : Bool
  data : HttpData := {}
  wasHeaderValue : Bool := false
  lastHeaderField : String := ""
  lastHeaderValue : String := ""
  listener : Bool := true
  stored : Bool := true
  closing : Bool := false
  handed : List HttpData := []
  deriving DecidableEq

namespace HttpContext

open TransitionSystem

def setHeader (c : HttpContext) : HttpContext :=
  { c with
    data.headers := c.data.headers.insert (c.lastHeaderField.map Char.toLower) c.lastHeaderValue
    lastHeaderField := ""
    lastHeaderValue := "" }

def onHeaderField (c : HttpContext) (piece : String) : HttpContext :=
  if c.wasHeaderValue then
    let c := if c.lastHeaderField ≠ "" then c.setHeader else c
    { c with lastHeaderField := piece, wasHeaderValue := false }
  else { c with lastHeaderField := c.lastHeaderField ++ piece }

def onHeaderValue (c : HttpContext) (piece : String) : HttpContext :=
  if !c.wasHeaderValue then { c with lastHeaderValue := piece, wasHeaderValue := true }
  else { c with lastHeaderValue := c.lastHeaderValue ++ piece }

def onHeadersComplete (c : HttpContext) (status method : Int) : HttpContext :=
  let c := { c with data.status := status }
  let c := if c.isRequest then { c with data.method := method } else c
  if c.lastHeaderField ≠ "" then c.setHeader else c

/-- `listener->onHttpData(*this)`, if there is a listener. -/
def hand (c : HttpContext) : HttpContext :=
  if c.listener then { c with handed := c.handed ++ [c.data] } else c

def onMessageComplete (c : HttpContext) : HttpContext := { c.hand with listener := false }

def callback (c : HttpContext) : HttpCallback → HttpContext
  | .url piece => { c with data.url := piece }
  | .headerField piece => c.onHeaderField piece
  | .headerValue piece => c.onHeaderValue piece
  | .headersComplete status method => c.onHeadersComplete status method
  | .body piece => { c with data.body := c.data.body ++ piece }
  | .messageComplete => c.onMessageComplete

def feed (c : HttpContext) (callbacks : List HttpCallback) : HttpContext :=
  callbacks.foldl callback c

def close (c : HttpContext) (status : Int) : HttpContext :=
  if !c.stored then c
  else
    let c := if status < 0 ∧ c.listener then { c with data.status := status }.hand else c
    { c with stored := false, closing := true }

inductive Event
  | callback (callback : HttpCallback)
  | close (status : Int)
  | expire

/-- A closed connection reads nothing more. -/
def step (c : HttpContext) : Event → Option HttpContext
  | .callback callback => if c.closing then none else some (c.callback callback)
  | .close status => some (c.close status)
  | .expire => some { c with listener := false }

end HttpContext

end VeloxHash
