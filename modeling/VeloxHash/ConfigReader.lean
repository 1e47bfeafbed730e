import VeloxHash.PoolConfig
import VeloxHash.EthStratumClient

/-! `JsonReader` and `JsonChain`, and the settings that read themselves from them: `DnsConfig`,
`Http`, `BenchConfig` and `Pools`. -/

namespace VeloxHash

open PoolConfig

/-- `JsonReader` on a value, or `JsonChain` with the document added last at the end. -/
inductive ConfigReader
  | value (object : Json)
  | chain (documents : List Json)

namespace ConfigReader

/-- The members that a value is searched for. -/
def membersOf : Json → List (String × Json)
  | .object members => members
  | _ => []

def isEmpty : ConfigReader → Bool
  | value object => (membersOf object).isEmpty
  | chain documents => documents.isEmpty

/-- The documents in the order in which they are searched. -/
def searched : ConfigReader → List Json
  | value object => [object]
  | chain documents => documents.reverse

/-- The value of `key` in the first document in which it has the type asked for. -/
def find? {α : Type} (asked : Json → Option α) (key : String) (reader : ConfigReader) : Option α :=
  reader.searched.findSome? fun document => (Json.findMember key (membersOf document)).bind asked

def asBool : Json → Option Bool
  | .bool b => some b
  | _ => none

def asString : Json → Option String
  | .string s => some (cString s)
  | _ => none

def asInt : Json → Option Int
  | .int i => if -2 ^ 31 ≤ i ∧ i < 2 ^ 31 then some i else none
  | _ => none

def asUint : Json → Option Nat
  | .int i => if 0 ≤ i ∧ i < 2 ^ 32 then some i.toNat else none
  | _ => none

def asObject : Json → Option Json
  | .object members => some (.object members)
  | _ => none

def asArray : Json → Option (List Json)
  | .array values => some values
  | _ => none

variable (reader : ConfigReader)

def getBool (key : String) (default : Bool) : Bool := (reader.find? asBool key).getD default

def getString (key : String) : Option String := reader.find? asString key

def getInt (key : String) (default : Int) : Int := (reader.find? asInt key).getD default

def getUint (key : String) (default : Nat) : Nat := (reader.find? asUint key).getD default

def getObject (key : String) : Json := (reader.find? asObject key).getD .null

def getValue (key : String) : Json := (reader.find? some key).getD .null

/-- `JsonChain::add`. -/
def add (documents : List Json) (document : Json) : List Json :=
  if (membersOf document).isEmpty then documents else documents ++ [document]

end ConfigReader

structure DnsConfig where
  ttl : Nat := 30
  ipv : Nat := 0
  deriving DecidableEq

def DnsConfig.ofJson (value : Json) : DnsConfig :=
  let object := ConfigReader.value value
  let ipv := object.getUint "ip_version" 0
  { ipv := if ipv = 0 ∨ ipv = 4 ∨ ipv = 6 then ipv else 0
    ttl := max (object.getUint "ttl" 30) 1 }

structure HttpConfig where
  enabled : Bool := false
  restricted : Bool := true
  host : Option String := some "127.0.0.1"
  token : Option String := none
  port : UInt16 := 0

/-- `Http::load`. -/
def HttpConfig.load (http : HttpConfig) : Json → HttpConfig
  | .object members =>
    let object := ConfigReader.value (.object members)
    let port := object.getInt "port" 0
    { enabled := object.getBool "enabled" false
      restricted := object.getBool "restricted" true
      host := (object.getString "host").or (some "127.0.0.1")
      token := object.getString "access-token"
      port := if 0 ≤ port ∧ port ≤ 65536 then UInt16.ofNat port.toNat else http.port }
  | _ => http

structure BenchConfig where
  algorithm : Algorithm
  dmi : Bool
  submit : Bool
  id : Option String
  seed : Option String
  token : Option String
  user : Option String
  size : Nat
  rotation : Nat
  hash : UInt64

namespace BenchConfig

/-- `strtoul` in base 10. -/
def strtoul (text : String) : Nat :=
  match text.toList.dropWhile fun c => c = ' ' ∨ (9 ≤ c.toNat ∧ c.toNat ≤ 13) with
  | '-' :: cs => if digitsValue cs < 2 ^ 64 then (2 ^ 64 - digitsValue cs) % 2 ^ 64 else 2 ^ 64 - 1
  | '+' :: cs => min (2 ^ 64 - 1) (digitsValue cs)
  | cs => min (2 ^ 64 - 1) (digitsValue cs)

/-- `strcasecmp` finds no difference. -/
def sameText (a b : String) : Bool := a.toList.map Char.toLower = b.toList.map Char.toLower

/-- `getSize` in a release build. -/
def getSize : Option String → Nat
  | none => 0
  | some benchmark =>
    let size := strtoul benchmark
    if 1 ≤ size ∧ size ≤ 10 then
      if sameText benchmark (toString size ++ "M") then size * 1000000 else 0
    else if size = 250 ∨ size = 500 then
      if sameText benchmark (toString size ++ "K") then size * 1000 else 0
    else 0

def create (names : Names) (value : Json) (dmi : Bool) : Option BenchConfig :=
  let object := ConfigReader.value value
  let size := getSize (object.getString "size")
  let id := object.getString "verify"
  if object.isEmpty then none
  else if size = 0 ∧ id.getD "" = "" then none
  else
    let algorithm := names.algorithm (object.getString "algo")
    some {
      algorithm := if algorithm.isRandomX || algorithm.isGhostrider then algorithm else .rx0
      dmi
      submit := object.getBool "submit" false
      id
      seed := object.getString "seed"
      token := object.getString "token"
      user := object.getString "user"
      size
      rotation := ((object.getString "rotation").elim 0 strtoul) % 2 ^ 32
      hash := (object.getString "hash").elim 0 fun hash => strtoull (bytesOf hash) }

end BenchConfig

inductive ProxyDonate
  | none
  | auto
  | always

structure PoolSettings where
  pools : Pools := { data := [], retries := 5, retryPause := 5 }
  donateLevel : Int := 0
  proxyDonate : ProxyDonate := .auto
  benchmark : Option BenchConfig := none

namespace PoolSettings

def setProxyDonate (settings : PoolSettings) (value : Int) : PoolSettings :=
  if value = 0 then { settings with proxyDonate := .none }
  else if value = 1 then { settings with proxyDonate := .auto }
  else if value = 2 then { settings with proxyDonate := .always }
  else settings

/-- The valid pools among the elements of `pools`. -/
def readPools (names : Names) (values : List Json) : List Pool :=
  (values.filterMap ConfigReader.asObject).map (Pool.ofJson names) |>.filter (·.url.isValid)

/-- `Pools::load`. -/
def load (names : Names) (settings : PoolSettings) (reader : ConfigReader) : PoolSettings :=
  match BenchConfig.create names (reader.getObject "benchmark") (reader.getBool "dmi" true) with
  | some benchmark =>
    let pool : Pool := { url := Url.ofString (some "benchmark".toList), mode := .benchmark }
    { settings with pools := { settings.pools with data := [pool] }, benchmark := some benchmark }
  | none =>
    match reader.find? ConfigReader.asArray "pools" with
    | none => { settings with pools := { settings.pools with data := [] }, benchmark := none }
    | some values =>
      let level := reader.getInt "donate-level" 0
      let retries := reader.getInt "retries" 0
      let retryPause := reader.getInt "retry-pause" 0
      let pools := {
        data := readPools names values
        retries := if 0 < retries ∧ retries ≤ 1000 then retries else settings.pools.retries
        retryPause :=
          if 0 < retryPause ∧ retryPause ≤ 3600 then retryPause else settings.pools.retryPause }
      setProxyDonate
        { settings with
          pools
          benchmark := none
          donateLevel := if 0 ≤ level ∧ level ≤ 99 then level else settings.donateLevel }
        (reader.getInt "donate-over-proxy" 1)

end PoolSettings

end VeloxHash
