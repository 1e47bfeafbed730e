import VeloxHash.Json
import VeloxHash.BlockTemplate

/-! The pools of the configuration: `Pool` as it is read from JSON, written to JSON and compared,
and the use that `Network` makes of the comparison. Before them the names of the algorithms, in a
build with all of them. -/

namespace VeloxHash

/-- `kAlgorithmNames`. -/
def Algorithm.name : Algorithm → Option String
  | .cn0 => some "cn/0"
  | .cn1 => some "cn/1"
  | .cn2 => some "cn/2"
  | .cnR => some "cn/r"
  | .cnFast => some "cn/fast"
  | .cnHalf => some "cn/half"
  | .cnXao => some "cn/xao"
  | .cnRto => some "cn/rto"
  | .cnRwz => some "cn/rwz"
  | .cnZls => some "cn/zls"
  | .cnDouble => some "cn/double"
  | .cnCcx => some "cn/ccx"
  | .cnLite0 => some "cn-lite/0"
  | .cnLite1 => some "cn-lite/1"
  | .cnHeavy0 => some "cn-heavy/0"
  | .cnHeavyTube => some "cn-heavy/tube"
  | .cnHeavyXhv => some "cn-heavy/xhv"
  | .cnPico0 => some "cn-pico"
  | .cnPicoTlo => some "cn-pico/tlo"
  | .cnUpx2 => some "cn/upx2"
  | .ghostriderRtm => some "ghostrider"
  | .rx0 => some "rx/0"
  | .rxWow => some "rx/wow"
  | .rxArq => some "rx/arq"
  | .rxGraft => some "rx/graft"
  | .rxSfx => some "rx/sfx"
  | .rxYada => some "rx/yada"
  | .ar2Chukwa => some "argon2/chukwa"
  | .ar2ChukwaV2 => some "argon2/chukwav2"
  | .ar2Wrkz => some "argon2/ninja"
  | .kawpowRvn => some "kawpow"
  | .invalid | .cnGr0 | .cnGr1 | .cnGr2 | .cnGr3 | .cnGr4 | .cnGr5 => none

namespace Algorithm

/-- The text that `Algorithm::name` returns: `kINVALID` for what has no name. -/
def nameText (a : Algorithm) : String := a.name.getD "invalid"

/-- `kAlgorithmAliases`. -/
def aliases : List (String × Algorithm) := [
  ("cn/0", cn0), ("cryptonight/0", cn0), ("cryptonight", cn0), ("cn", cn0), ("cn/1", cn1),
  ("cryptonight/1", cn1), ("cryptonight-monerov7", cn1), ("cryptonight_v7", cn1),
  ("cn/2", cn2), ("cryptonight/2", cn2), ("cryptonight-monerov8", cn2),
  ("cryptonight_v8", cn2), ("cn/fast", cnFast), ("cryptonight/fast", cnFast),
  ("cryptonight/msr", cnFast), ("cn/msr", cnFast), ("cn/r", cnR), ("cryptonight/r", cnR),
  ("cryptonight_r", cnR), ("cn/xao", cnXao), ("cryptonight/xao", cnXao),
  ("cryptonight_alloy", cnXao), ("cn/half", cnHalf), ("cryptonight/half", cnHalf),
  ("cn/rto", cnRto), ("cryptonight/rto", cnRto), ("cn/rwz", cnRwz), ("cryptonight/rwz", cnRwz),
  ("cn/zls", cnZls), ("cryptonight/zls", cnZls), ("cn/double", cnDouble),
  ("cryptonight/double", cnDouble), ("cn/ccx", cnCcx), ("cryptonight/ccx", cnCcx),
  ("cryptonight/conceal", cnCcx), ("cn/conceal", cnCcx), ("cn-lite/0", cnLite0),
  ("cryptonight-lite/0", cnLite0), ("cryptonight-lite", cnLite0),
  ("cryptonight-light", cnLite0), ("cn-lite", cnLite0), ("cn-light", cnLite0),
  ("cryptonight_lite", cnLite0), ("cn-lite/1", cnLite1), ("cryptonight-lite/1", cnLite1),
  ("cryptonight-aeonv7", cnLite1), ("cryptonight_lite_v7", cnLite1), ("cn-heavy/0", cnHeavy0),
  ("cryptonight-heavy/0", cnHeavy0), ("cryptonight-heavy", cnHeavy0), ("cn-heavy", cnHeavy0),
  ("cryptonight_heavy", cnHeavy0), ("cn-heavy/xhv", cnHeavyXhv),
  ("cryptonight-heavy/xhv", cnHeavyXhv), ("cryptonight_haven", cnHeavyXhv),
  ("cn-heavy/tube", cnHeavyTube), ("cryptonight-heavy/tube", cnHeavyTube),
  ("cryptonight-bittube2", cnHeavyTube), ("cn-pico", cnPico0), ("cryptonight-pico", cnPico0),
  ("cn-pico/0", cnPico0), ("cryptonight-pico/trtl", cnPico0), ("cn-pico/trtl", cnPico0),
  ("cryptonight-turtle", cnPico0), ("cn-trtl", cnPico0), ("cryptonight-ultralite", cnPico0),
  ("cn-ultralite", cnPico0), ("cryptonight_turtle", cnPico0), ("cn_turtle", cnPico0),
  ("cn-pico/tlo", cnPicoTlo), ("cryptonight-pico/tlo", cnPicoTlo),
  ("cryptonight/ultra", cnPicoTlo), ("cn/ultra", cnPicoTlo), ("cryptonight-talleo", cnPicoTlo),
  ("cn-talleo", cnPicoTlo), ("cryptonight_talleo", cnPicoTlo), ("cn_talleo", cnPicoTlo),
  ("cn/upx2", cnUpx2), ("cryptonight/upx2", cnUpx2), ("cn-extremelite/upx2", cnUpx2),
  ("cryptonight-upx/2", cnUpx2), ("rx/0", rx0), ("randomx/0", rx0), ("randomx/test", rx0),
  ("rx/test", rx0), ("randomx", rx0), ("rx", rx0), ("rx/wow", rxWow), ("randomx/wow", rxWow),
  ("randomwow", rxWow), ("rx/arq", rxArq), ("randomx/arq", rxArq), ("randomarq", rxArq),
  ("rx/graft", rxGraft), ("randomx/graft", rxGraft), ("randomgraft", rxGraft),
  ("rx/sfx", rxSfx), ("randomx/sfx", rxSfx), ("randomsfx", rxSfx), ("rx/yada", rxYada),
  ("randomx/yada", rxYada), ("randomyada", rxYada), ("argon2/chukwa", ar2Chukwa),
  ("chukwa", ar2Chukwa), ("argon2/chukwav2", ar2ChukwaV2), ("chukwav2", ar2Chukwa),
  ("argon2/ninja", ar2Wrkz), ("argon2/wrkz", ar2Wrkz), ("kawpow", kawpowRvn),
  ("kawpow/rvn", kawpowRvn), ("ghostrider", ghostriderRtm), ("ghostrider/rtm", ghostriderRtm),
  ("gr", ghostriderRtm)]

/-- `strcasecmp` finds no difference. -/
def sameName (a b : String) : Bool := a.toList.map Char.toLower = b.toList.map Char.toLower

def parse (name : String) : Algorithm :=
  if name = "" then invalid
  else ((aliases.find? fun entry => sameName entry.1 name).map Prod.snd).getD invalid

/-- `INVALID` is the only algorithm that is not valid. -/
def isValid (a : Algorithm) : Bool := a != invalid

/-- The algorithms that have a name of their own. -/
def isNamed (a : Algorithm) : Bool := a.nameText != "invalid"

/-- All algorithms in the order of their ids, which is that of a `std::map`. -/
def byId : List Algorithm := [
  invalid, ar2Wrkz, ar2Chukwa, ar2ChukwaV2, cnUpx2, cnGr4, cnGr5, cnPico0, cnPicoTlo, cnGr0, cnGr1,
  cnLite0, cnLite1, cnGr3, cn0, cnCcx, cnXao, cn1, cnGr2, cnFast, cnRto, cn2, cnDouble, cnHalf, cnR,
  cnRwz, cnZls, cnHeavy0, cnHeavyXhv, cnHeavyTube, kawpowRvn, ghostriderRtm, rxArq, rxWow, rx0,
  rxGraft, rxSfx, rxYada]

theorem mem_byId (a : Algorithm) : a ∈ byId := by cases a <;> decide

/-- An algorithm is found by its name. -/
theorem parse_nameText {a : Algorithm} (h : a.isNamed = true) : parse a.nameText = a := by
  have hall : ∀ a ∈ byId, a.isNamed = true → parse a.nameText = a := by decide +kernel
  exact hall a (mem_byId a) h

/-- What is found by a name has one. -/
theorem isNamed_parse {s : String} (h : (parse s).isValid = true) : (parse s).isNamed = true := by
  have htable : ∀ entry ∈ aliases, entry.2.isNamed = true := by decide +kernel
  unfold parse at h ⊢
  split at h
  next => exact absurd h (by decide)
  next hs =>
    rw [if_neg hs]
    cases hfind : aliases.find? fun entry => sameName entry.1 s with
    | none =>
      rw [hfind] at h
      exact absurd h (by decide)
    | some entry => exact htable entry (List.mem_of_find?_eq_some hfind)

end Algorithm

/-- The code and the name of `coinInfo`. -/
def Coin.info : Coin → Option (String × String)
  | .invalid => none
  | .monero => some ("XMR", "Monero")
  | .sumo => some ("SUMO", "Sumokoin")
  | .arqma => some ("ARQ", "ArQmA")
  | .graft => some ("GRFT", "Graft")
  | .raven => some ("RVN", "Ravencoin")
  | .wownero => some ("WOW", "Wownero")
  | .zephyr => some ("ZEPH", "Zephyr")
  | .townforge => some ("Townforge", "Townforge")
  | .yada => some ("YDA", "YadaCoin")

namespace PoolConfig

/-- What the constructors find in the text of a setting. `kAlgorithmAliases` and the comparison
that ignores case are behind `algorithm` and `coin`. -/
structure Names where
  algorithm : Option String → Algorithm
  coin : Option String → Coin

inductive Scheme
  | unspecified
  | stratum
  | daemon
  | socks5
  deriving DecidableEq

/-- A null string is none. -/
structure Url where
  tls : Bool := false
  scheme : Scheme := .unspecified
  host : Option String := none
  url : Option String := none
  port : UInt16 := 3333
  deriving DecidableEq

inductive Mode
  | pool
  | daemon
  | selfSelect
  | autoEth
  | benchmark
  deriving DecidableEq

structure Flags where
  enabled : Bool := true
  nicehash : Bool := false
  tls : Bool := false
  sni : Bool := false
  deriving DecidableEq

structure Pool where
  algorithm : Algorithm := .invalid
  submitToOrigin : Bool := false
  coin : Coin := .invalid
  keepAlive : Int := 0
  mode : Mode := .pool
  proxy : Url := { port := 0 }
  flags : Flags := {}
  fingerprint : Option String := none
  password : Option String := none
  rigId : Option String := none
  user : Option String := none
  spendSecretKey : Option String := none
  pollInterval : Nat := 1000
  jobTimeout : Nat := 15000
  daemon : Url := {}
  url : Url
  zmqPort : Int := -1

/-- A text up to the first null character, as a `const char *` has it. -/
def cString (s : String) : List Char := s.toList.takeWhile (· ≠ '\x00')

/-- `Json::getString`. -/
def getString (key : String) (object : Json) : Option (List Char) :=
  (object.getString key).map cString

/-- `Json::getBool`. -/
def getBool (key : String) (object : Json) (default : Bool) : Bool :=
  match object.getValue key with
  | .bool b => b
  | _ => default

/-- `Json::getInt`. -/
def getInt (key : String) (object : Json) (default : Int) : Int :=
  match object.getValue key with
  | .int i => if -2 ^ 31 ≤ i ∧ i < 2 ^ 31 then i else default
  | _ => default

/-- `Json::getUint64`. -/
def getUint64 (key : String) (object : Json) (default : Nat) : Nat :=
  match object.getValue key with
  | .int i => if 0 ≤ i ∧ i < 2 ^ 64 then i.toNat else default
  | _ => default

/-- `strncasecmp` with a text in lower case. -/
def startsWith (text start : List Char) : Bool := (text.take start.length).map Char.toLower = start

/-- What follows the first `://`. -/
def afterScheme : List Char → Option (List Char)
  | [] => none
  | c :: cs => if (c :: cs).take 3 = "://".toList then some ((c :: cs).drop 3) else afterScheme cs

def digitsValue (text : List Char) : Nat :=
  (text.takeWhile Char.isDigit).foldl (fun n c => 10 * n + (c.toNat - 48)) 0

/-- `strtol` in base 10. -/
def strtol (text : List Char) : Int :=
  match text.dropWhile fun c => c = ' ' ∨ (9 ≤ c.toNat ∧ c.toNat ≤ 13) with
  | '-' :: cs => max (-2 ^ 63) (-digitsValue cs)
  | '+' :: cs => min (2 ^ 63 - 1) (digitsValue cs)
  | cs => min (2 ^ 63 - 1) (digitsValue cs)

def toPort (text : List Char) : UInt16 := UInt16.ofNat (strtol text % 2 ^ 16).toNat

namespace Url

def isValid (u : Url) : Bool := u.host.isSome && 0 < u.port

def parseIPv6 (addr : List Char) (u : Url) : Url :=
  match addr.dropWhile (· ≠ ']') with
  | [] => u
  | last =>
    match last.dropWhile (· ≠ ':') with
    | [] => u
    | _ :: port =>
      let host := (addr.takeWhile (· ≠ ']')).drop 1
      { u with host := some (String.ofList host), port := toPort port }

/-- From the end of the scheme on. -/
def parseBase (text base : List Char) (u : Url) : Url :=
  if base.head?.all (· = '/') then u
  else
    let u := { u with url := some (String.ofList text) }
    if base.head? = some '[' then parseIPv6 base u
    else match base.dropWhile (· ≠ ':') with
      | [] => { u with host := some (String.ofList base) }
      | _ :: port =>
        let host := base.takeWhile (· ≠ ':')
        { u with host := some (String.ofList host), port := toPort port }

/-- `parse`, whose result is not used. -/
def parse (text : List Char) (u : Url) : Url :=
  match afterScheme text with
  | none => parseBase text text u
  | some base =>
    if startsWith text "stratum+tcp://".toList then
      parseBase text base { u with scheme := .stratum, tls := false }
    else if startsWith text "stratum+ssl://".toList then
      parseBase text base { u with scheme := .stratum, tls := true }
    else if startsWith text "socks5://".toList then
      parseBase text base { u with scheme := .socks5, tls := false }
    else if startsWith text "daemon+https://".toList then
      parseBase text base { u with scheme := .daemon, tls := true }
    else if startsWith text "daemon+http://".toList then
      parseBase text base { u with scheme := .daemon, tls := false }
    else u

def ofString (text : Option (List Char)) : Url :=
  match text with
  | none => {}
  | some text => parse text {}

def isEqual (u other : Url) : Bool :=
  u.tls == other.tls && u.scheme == other.scheme && u.host == other.host && u.url == other.url &&
    u.port == other.port

end Url

namespace ProxyUrl

def isValid (u : Url) : Bool := 0 < u.port && (u.scheme == .unspecified || u.scheme == .socks5)

def ofJson : Json → Url
  | .string s => Url.parse (cString s) { port := 0 }
  | .int i => if 0 ≤ i ∧ i < 2 ^ 32 then { port := UInt16.ofNat i.toNat } else { port := 0 }
  | _ => { port := 0 }

end ProxyUrl

/-- `String::toJSON`. -/
def stringToJSON : Option String → Json
  | some s => .string s
  | none => .null

def ProxyUrl.toJSON (u : Url) : Json :=
  if !ProxyUrl.isValid u then .null
  else if u.host.isSome then stringToJSON u.url
  else .int u.port.toNat

namespace Pool

def kKeepAliveTimeout : Int := 60

/-- `setKeepAlive`. -/
def readKeepAlive : Json → Int
  | .int i => if 0 ≤ i ∧ i < 2 ^ 31 then i else 0
  | .bool b => if b then kKeepAliveTimeout else 0
  | _ => 0

/-- The constructor from JSON. -/
def ofJson (names : Names) (object : Json) : Pool :=
  let url := Url.ofString (getString "url" object)
  if !url.isValid then { url }
  else
    let string key := (getString key object).map String.ofList
    let daemon := Url.ofString (getString "self-select" object)
    let nicehash := url.host.any fun host => "nicehash.com".toList <:+: host.toList
    { url
      user := string "user"
      spendSecretKey := string "spend-secret-key"
      password := string "pass"
      rigId := string "rig-id"
      fingerprint := string "tls-fingerprint"
      pollInterval := getUint64 "daemon-poll-interval" object 1000
      jobTimeout := getUint64 "daemon-job-timeout" object 15000
      algorithm := names.algorithm (string "algo")
      coin := names.coin (string "coin")
      daemon
      proxy := ProxyUrl.ofJson (object.getValue "socks5")
      zmqPort := getInt "daemon-zmq-port" object (-1)
      flags := {
        enabled := getBool "enabled" object true
        nicehash := getBool "nicehash" object false || nicehash
        tls := getBool "tls" object false || url.tls
        sni := getBool "sni" object false }
      keepAlive := readKeepAlive (object.getValue "keepalive")
      mode :=
        if daemon.isValid then .selfSelect
        else if getBool "daemon" object false then .daemon
        else .pool
      submitToOrigin := daemon.isValid && getBool "submit-to-origin" object false }

variable (p : Pool)

def isTLS : Bool := p.flags.tls || p.url.tls

def isEnabled : Bool := p.flags.enabled && p.url.isValid

def isEqual (other : Pool) : Bool :=
  p.flags == other.flags && p.keepAlive == other.keepAlive && p.algorithm == other.algorithm &&
    p.coin == other.coin && p.mode == other.mode && p.fingerprint == other.fingerprint &&
      p.password == other.password && p.rigId == other.rigId && p.url.isEqual other.url &&
        p.user == other.user && p.pollInterval == other.pollInterval &&
          p.jobTimeout == other.jobTimeout && p.daemon.isEqual other.daemon &&
            p.proxy.isEqual other.proxy

def secretMembers : List (String × Json) :=
  match p.spendSecretKey with
  | none => []
  | some key => if key = "" then [] else [("spend-secret-key", .string key)]

def loginMembers : List (String × Json) :=
  if p.mode = .daemon then []
  else
    [ ("pass", stringToJSON p.password),
      ("rig-id", stringToJSON p.rigId),
      ("nicehash", .bool p.flags.nicehash),
      ("keepalive",
        if p.keepAlive = 0 ∨ p.keepAlive = kKeepAliveTimeout then .bool (0 < p.keepAlive)
        else .int p.keepAlive) ]

def modeMembers : List (String × Json) :=
  if p.mode = .daemon then
    [ ("daemon-poll-interval", .int p.pollInterval),
      ("daemon-job-timeout", .int p.jobTimeout),
      ("daemon-zmq-port", .int p.zmqPort) ]
  else
    [ ("self-select", stringToJSON p.daemon.url),
      ("submit-to-origin", .bool p.submitToOrigin) ]

def toJSON : Json :=
  .object ([ ("algo", stringToJSON p.algorithm.name),
      ("coin", stringToJSON (p.coin.info.map Prod.fst)),
      ("url", stringToJSON p.url.url),
      ("user", stringToJSON p.user) ] ++ p.secretMembers ++ p.loginMembers ++
    [ ("enabled", .bool p.flags.enabled),
      ("tls", .bool p.isTLS),
      ("sni", .bool p.flags.sni),
      ("tls-fingerprint", stringToJSON p.fingerprint),
      ("daemon", .bool (p.mode = .daemon)),
      ("socks5", ProxyUrl.toJSON p.proxy) ] ++ p.modeMembers)

end Pool

structure Pools where
  data : List Pool
  retries : Int
  retryPause : Int

namespace Pools

def isEqual (pools other : Pools) : Bool :=
  if pools.data.length ≠ other.data.length ∨ pools.retries ≠ other.retries ∨
      pools.retryPause ≠ other.retryPause then false
  else (pools.data.zip other.data).all fun (p, q) => p.isEqual q

def toJSON (pools : Pools) : Json := .array (pools.data.map Pool.toJSON)

def active (pools : Pools) : Nat := pools.data.countP Pool.isEnabled

end Pools

/-- `Network::onConfigChanged`: whether it makes a new strategy and connects again. -/
def onConfigChanged (config previousConfig : Pools) : Bool :=
  !(config.isEqual previousConfig || config.active == 0)

section Comparison

variable {a b : Pool}

/-- The settings that `isEqual` leaves out, as far as they are written to JSON. An empty secret
key is none. -/
structure SameUncompared (a b : Pool) : Prop where
  spendSecretKey : a.spendSecretKey.getD "" = b.spendSecretKey.getD ""
  zmqPort : a.mode = .daemon → a.zmqPort = b.zmqPort
  submitToOrigin : a.mode ≠ .daemon → a.submitToOrigin = b.submitToOrigin

theorem Url.eq_of_isEqual {u v : Url} (h : u.isEqual v = true) : u = v := by
  obtain ⟨tls, scheme, host, url, port⟩ := u
  simp only [Url.isEqual, Bool.and_eq_true, beq_iff_eq] at h
  obtain ⟨⟨⟨⟨rfl, rfl⟩, rfl⟩, rfl⟩, rfl⟩ := h
  rfl

/-- Pools that compare equal differ in three settings at most. -/
theorem Pool.eq_of_isEqual (h : a.isEqual b = true) :
    b = { a with
      submitToOrigin := b.submitToOrigin
      spendSecretKey := b.spendSecretKey
      zmqPort := b.zmqPort } := by
  obtain ⟨algorithm, submit, coin, keepAlive, mode, proxy, flags, fingerprint, password, rigId,
    user, secret, pollInterval, jobTimeout, daemon, url, zmqPort⟩ := a
  simp only [Pool.isEqual, Bool.and_eq_true, beq_iff_eq] at h
  obtain ⟨⟨⟨⟨⟨⟨⟨⟨⟨⟨⟨⟨⟨rfl, rfl⟩, rfl⟩, rfl⟩, rfl⟩, rfl⟩, rfl⟩, rfl⟩, hurl⟩, rfl⟩, rfl⟩, rfl⟩,
    hdaemon⟩, hproxy⟩ := h
  obtain rfl := Url.eq_of_isEqual hurl
  obtain rfl := Url.eq_of_isEqual hdaemon
  obtain rfl := Url.eq_of_isEqual hproxy
  rfl

theorem Pool.secretMembers_eq (p : Pool) : p.secretMembers =
    if p.spendSecretKey.getD "" = "" then []
    else [("spend-secret-key", .string (p.spendSecretKey.getD ""))] := by
  unfold secretMembers
  cases p.spendSecretKey with
  | none => rfl
  | some key => rfl

theorem secretMembers_inj : a.secretMembers = b.secretMembers ↔
    a.spendSecretKey.getD "" = b.spendSecretKey.getD "" := by
  rw [Pool.secretMembers_eq, Pool.secretMembers_eq]
  constructor
  · intro h
    split at h
    · next hnone =>
      split at h
      · next hnone' => rw [hnone, hnone']
      · exact nomatch h
    · split at h
      · exact nomatch h
      · exact Json.string.inj (Prod.mk.inj (List.singleton_inj.mp h)).2
  · intro h
    rw [h]

theorem modeMembers_inj (hmode : a.mode = b.mode) (hpoll : a.pollInterval = b.pollInterval)
    (hjob : a.jobTimeout = b.jobTimeout) (hdaemon : a.daemon = b.daemon) :
    a.modeMembers = b.modeMembers ↔ (a.mode = .daemon → a.zmqPort = b.zmqPort) ∧
      (a.mode ≠ .daemon → a.submitToOrigin = b.submitToOrigin) := by
  unfold Pool.modeMembers
  rw [← hmode, hpoll, hjob, hdaemon]
  by_cases h : a.mode = .daemon
  · rw [if_pos h, if_pos h]
    simp [h]
  · rw [if_neg h, if_neg h]
    simp [h]

/-- The JSON of pools that compare equal tells the settings apart that were not compared. -/
theorem toJSON_eq_iff (h : a.isEqual b = true) : a.toJSON = b.toJSON ↔ SameUncompared a b := by
  have hb := Pool.eq_of_isEqual h
  have hmode : a.mode = b.mode := by rw [hb]
  have hpoll : a.pollInterval = b.pollInterval := by rw [hb]
  have hjob : a.jobTimeout = b.jobTimeout := by rw [hb]
  have hdaemon : a.daemon = b.daemon := by rw [hb]
  have hlast := modeMembers_inj hmode hpoll hjob hdaemon
  have hlength : a.modeMembers.length = b.modeMembers.length := by
    unfold Pool.modeMembers
    rw [hmode]
    split <;> rfl
  have hlogin : a.loginMembers = b.loginMembers := by rw [hb]; rfl
  constructor
  · intro hjson
    obtain ⟨hfront, hmembers⟩ := List.append_inj' (Json.object.inj hjson) hlength
    obtain ⟨hkeys, -⟩ := List.append_inj' hfront rfl
    obtain ⟨hkeys, -⟩ := List.append_inj' hkeys (congrArg List.length hlogin)
    obtain ⟨-, hsecret⟩ := List.append_inj hkeys rfl
    obtain ⟨hport, hsubmit⟩ := hlast.mp hmembers
    exact ⟨secretMembers_inj.mp hsecret, hport, hsubmit⟩
  · intro hsame
    have hsecret := secretMembers_inj.mpr hsame.spendSecretKey
    have hmembers := hlast.mpr ⟨hsame.zmqPort, hsame.submitToOrigin⟩
    unfold Pool.toJSON
    rw [hsecret, hmembers, hlogin, hb]
    rfl

end Comparison

section Network

variable {pools other : Pools}

theorem Pools.isEqual_iff : pools.isEqual other = true ↔
    pools.data.length = other.data.length ∧ pools.retries = other.retries ∧
      pools.retryPause = other.retryPause ∧
        ∀ pair ∈ pools.data.zip other.data, pair.1.isEqual pair.2 = true := by
  unfold Pools.isEqual
  rw [Bool.ite_eq_true_distrib, List.all_eq_true]
  simp only [ne_eq, Bool.false_eq_true, if_false_left]
  tauto

theorem map_eq_map_iff_zip {α β : Type*} (f : α → β) {as bs : List α}
    (h : as.length = bs.length) :
    as.map f = bs.map f ↔ ∀ pair ∈ as.zip bs, f pair.1 = f pair.2 := by
  induction as generalizing bs with
  | nil =>
    obtain rfl := List.length_eq_zero_iff.mp h.symm
    exact ⟨fun _ => nofun, fun _ => rfl⟩
  | cons a as ih =>
    cases bs with
    | nil => exact nomatch h
    | cons b bs =>
      rw [List.map_cons, List.map_cons, List.cons.injEq, ih (Nat.succ.inj h), List.zip_cons_cons,
        List.forall_mem_cons]

/-- With an active pool, the only configurations that are passed over compare equal. -/
theorem onConfigChanged_eq_false (hactive : 0 < pools.active) :
    onConfigChanged pools other = false ↔ pools.isEqual other = true := by
  unfold onConfigChanged
  rw [Bool.not_eq_false', Bool.or_eq_true, beq_iff_eq]
  exact ⟨fun h => h.resolve_right hactive.ne', .inl⟩

theorem Pools.toJSON_eq_iff (h : pools.isEqual other = true) : pools.toJSON = other.toJSON ↔
    ∀ pair ∈ pools.data.zip other.data, SameUncompared pair.1 pair.2 := by
  obtain ⟨hlength, -, -, hpairs⟩ := Pools.isEqual_iff.mp h
  unfold Pools.toJSON
  rw [Json.array.injEq, map_eq_map_iff_zip _ hlength]
  exact forall₂_congr fun pair hpair => PoolConfig.toJSON_eq_iff (hpairs pair hpair)

/-- Equal pools have equal JSON exactly if they agree on the secret key and on the port for ZMQ
or the submission to the origin, and exactly then is no changed setting passed over. -/
theorem isEqual_respects_iff (a b : Pool) (config previousConfig : Pools) :
    ((a.isEqual b = true → a.toJSON = b.toJSON) ↔
      (a.isEqual b = true → SameUncompared a b)) ∧
    ((0 < config.active → onConfigChanged config previousConfig = false →
        config.toJSON = previousConfig.toJSON) ↔
      (0 < config.active → config.isEqual previousConfig = true →
        ∀ pair ∈ config.data.zip previousConfig.data, SameUncompared pair.1 pair.2)) := by
  constructor
  · exact forall_congr' fun h => toJSON_eq_iff h
  · refine forall_congr' fun hactive => ?_
    rw [onConfigChanged_eq_false hactive]
    exact forall_congr' fun h => Pools.toJSON_eq_iff h

/-- A solo pool whose secret key is `key`. -/
def soloPool (key : String) : Pool :=
  Pool.ofJson ⟨fun _ => .invalid, fun _ => .invalid⟩ (.object
    [("url", .string "node:18081"), ("daemon", .bool true), ("spend-secret-key", .string key)])

/-- A changed secret key is passed over. -/
theorem secretKey_ignored : (soloPool "01").isEqual (soloPool "02") = true ∧
    (soloPool "01").toJSON ≠ (soloPool "02").toJSON ∧
      onConfigChanged ⟨[soloPool "01"], 5, 5⟩ ⟨[soloPool "02"], 5, 5⟩ = false := by
  have hequal : (soloPool "01").isEqual (soloPool "02") = true := by decide +kernel
  refine ⟨hequal, fun hjson => ?_, by decide +kernel⟩
  exact absurd ((toJSON_eq_iff hequal).mp hjson).spendSecretKey (by decide +kernel)

end Network

end PoolConfig

end VeloxHash
