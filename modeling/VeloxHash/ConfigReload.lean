import VeloxHash.ConfigReader

/-! How `Base` takes a new configuration, from the API or from the file, and what is left of one
that is rejected. -/

namespace VeloxHash.ConfigReload

open PoolConfig

/-- The settings of the process as a whole that a configuration changes as it is read. -/
structure ProcessSettings where
  colors : Bool := true
  verbose : Nat := 0
  dns : DnsConfig := {}
  deriving DecidableEq

/-- What `setVerbose` takes from a value. -/
def verbosity : Json → Option Nat
  | .bool b => some (if b then 1 else 0)
  | value => ConfigReader.asUint value

structure Title where
  enabled : Bool := true
  value : Option String := none

def Title.ofJson : Json → Title
  | .bool enabled => { enabled }
  | .string s => { value := some (cString s) }
  | _ => {}

/-- `BaseConfig`; `tls` is the value that `TlsConfig` is made of. -/
structure BaseConfig where
  autoSave : Bool := true
  background : Bool := false
  dryRun : Bool := false
  syslog : Bool := false
  watch : Bool := true
  http : HttpConfig := {}
  pools : PoolSettings := {}
  apiId : Option String := none
  apiWorkerId : Option String := none
  fileName : Option String := none
  logFile : Option String := none
  userAgent : Option String := none
  title : Title := {}
  printTime : Nat := 60
  tls : Json := .null

namespace BaseConfig

def isWatch (c : BaseConfig) : Bool := c.watch && c.fileName.isSome

/-- `save`, where `written` is what becomes of the file. -/
def save (c : BaseConfig) (written : Bool) : Bool := c.fileName.isSome && written

def readSettings (s : ProcessSettings) (reader : ConfigReader) : ProcessSettings where
  colors := reader.getBool "colors" s.colors
  verbose := (verbosity (reader.getValue "verbose")).getD s.verbose
  dns := .ofJson (reader.getObject "dns")

def readFields (names : Names) (c : BaseConfig) (reader : ConfigReader) : BaseConfig :=
  let api := reader.getObject "api"
  let given (key : String) (before : Option String) : Option String :=
    if api.isObject then (ConfigReader.value api).getString key else before
  { c with
    autoSave := reader.getBool "autosave" c.autoSave
    background := reader.getBool "background" c.background
    dryRun := reader.getBool "dry-run" c.dryRun
    syslog := reader.getBool "syslog" c.syslog
    watch := reader.getBool "watch" c.watch
    logFile := reader.getString "log-file"
    userAgent := reader.getString "user-agent"
    printTime := min (reader.getUint "print-time" c.printTime) 3600
    title := .ofJson (reader.getValue "title")
    tls := reader.getValue "tls"
    apiId := given "id" c.apiId
    apiWorkerId := given "worker-id" c.apiWorkerId
    http := c.http.load (reader.getObject "http")
    pools := c.pools.load names reader }

/-- The configuration and the settings after it, and whether it is good. -/
def read (names : Names) (c : BaseConfig) (s : ProcessSettings) (reader : ConfigReader)
    (fileName : Option String) : BaseConfig × ProcessSettings × Bool :=
  let c := { c with fileName }
  if reader.isEmpty then (c, s, false)
  else
    let c := c.readFields names reader
    (c, readSettings s reader, 0 < c.pools.pools.active)

end BaseConfig

/-- `Config`, where `rest` is what it reads when `BaseConfig` has been good. -/
structure Config (Rest : Type) where
  base : BaseConfig := {}
  pauseOnBattery : Bool := false
  idleTime : Nat := 0
  rest : Option Rest := none

namespace Config

variable {Rest : Type}

def setIdleTime (before : Nat) : Json → Nat
  | .bool b => if b then 60 else 0
  | value => (ConfigReader.asUint value).getD before

/-- A new configuration that reads; `readRest` reads for the backends. -/
def read (names : Names) (readRest : ConfigReader → PoolSettings → Rest) (s : ProcessSettings)
    (reader : ConfigReader) (fileName : Option String) : Config Rest × ProcessSettings × Bool :=
  match BaseConfig.read names {} s reader fileName with
  | (base, s, false) => ({ base }, s, false)
  | (base, s, true) =>
    let config := {
      base
      pauseOnBattery := reader.getBool "pause-on-battery" false
      idleTime := setIdleTime 0 (reader.getValue "pause-on-active")
      rest := some (readRest reader base.pools) }
    (config, s, true)

end Config

/-- A running process; `calls` are those of `onConfigChanged`, with the listener and both
configurations. -/
structure Base (Rest : Type) where
  settings : ProcessSettings := {}
  config : Config Rest
  listeners : List Nat := []
  watcher : Bool := false
  calls : List (Nat × Config Rest × Config Rest) := []

namespace Base

/-- A new configuration: a document from the API, with what becomes of the file when it is saved,
or the file that was changed, with the document in it if it can be read and parsed. -/
inductive Request
  | reload (json : Json) (written : Bool)
  | fileChanged (fileName : String) (content : Option Json)

section Process

variable {Rest : Type} (names : Names) (readRest : ConfigReader → PoolSettings → Rest)
  (b : Base Rest)

def replace (config : Config Rest) : Base Rest :=
  { b with config, calls := b.calls ++ b.listeners.map fun listener => (listener, config, b.config) }

/-- Whether `Json::get` takes a document. -/
def isDocument : Json → Bool
  | .object _ | .array _ => true
  | _ => false

/-- `JsonChain::addFile` on a new chain: the chain and its file name. -/
def addFile (fileName : String) (content : Option Json) : ConfigReader × Option String :=
  match content.filter isDocument with
  | none => (.chain [], none)
  | some document => (.chain (ConfigReader.add [] document), some fileName)

def reload (json : Json) (written : Bool) : Base Rest × Bool :=
  let reader := ConfigReader.value json
  if reader.isEmpty then (b, false)
  else
    match Config.read names readRest b.settings reader b.config.base.fileName with
    | (_, settings, false) => ({ b with settings }, false)
    | (config, settings, true) =>
      let b := { b with settings }
      if config.base.isWatch && b.watcher && config.base.save written then (b, true)
      else (b.replace config, true)

def onFileChanged (fileName : String) (content : Option Json) : Base Rest :=
  let file := addFile fileName content
  match Config.read names readRest b.settings file.1 file.2 with
  | (_, settings, false) => { b with settings }
  | (config, settings, true) => { b with settings }.replace config

def handle : Request → Base Rest
  | .reload json written => (b.reload names readRest json written).1
  | .fileChanged fileName content => b.onFileChanged names readRest fileName content

/-- What `Config::read` is called with. -/
def Request.reader : Request → ConfigReader
  | .reload json _ => .value json
  | .fileChanged fileName content => (addFile fileName content).1

def Request.fileName : Request → Option String
  | .reload _ _ => b.config.base.fileName
  | .fileChanged fileName content => (addFile fileName content).2

def Request.isRejected (request : Request) : Prop :=
  (Config.read names readRest b.settings request.reader (request.fileName b)).2.2 = false

end Process

/-- The settings that a document gives are those of the process already; the DNS settings that it
does not give are the defaults. -/
structure InForce (s : ProcessSettings) (reader : ConfigReader) : Prop where
  colors : ∀ b, reader.find? ConfigReader.asBool "colors" = some b → b = s.colors
  verbose : ∀ n, verbosity (reader.getValue "verbose") = some n → n = s.verbose
  dns : DnsConfig.ofJson (reader.getObject "dns") = s.dns

theorem getD_eq_iff {α : Type} {given : Option α} {a : α} :
    given.getD a = a ↔ ∀ b, given = some b → b = a := by
  cases given with
  | none => exact ⟨fun _ _ => nofun, fun _ => rfl⟩
  | some b => exact ⟨fun h c hc => (Option.some.inj hc).symm.trans h, fun h => h b rfl⟩

theorem readSettings_eq_iff (s : ProcessSettings) (reader : ConfigReader) :
    BaseConfig.readSettings s reader = s ↔ InForce s reader := by
  constructor
  · intro h
    exact ⟨getD_eq_iff.mp (congrArg ProcessSettings.colors h),
      getD_eq_iff.mp (congrArg ProcessSettings.verbose h), congrArg ProcessSettings.dns h⟩
  · intro h
    obtain ⟨colors, verbose, dns⟩ := s
    exact (ProcessSettings.mk.injEq ..).mpr
      ⟨getD_eq_iff.mpr h.colors, getD_eq_iff.mpr h.verbose, h.dns⟩

section Rejected

variable {Rest : Type} {names : Names} {readRest : ConfigReader → PoolSettings → Rest}
  {b : Base Rest} {request : Request}

/-- A document with nothing in it is rejected before a setting is touched, every other one after
all of them. -/
theorem read_settings (s : ProcessSettings) (reader : ConfigReader) (fileName : Option String) :
    (Config.read names readRest s reader fileName).2.1 =
      if reader.isEmpty then s else BaseConfig.readSettings s reader := by
  unfold Config.read BaseConfig.read
  by_cases hempty : reader.isEmpty = true
  · rw [if_pos hempty, if_pos hempty]
  · rw [if_neg hempty, if_neg hempty]
    split
    next hread => exact congrArg (·.2.1) hread.symm
    next hread => exact congrArg (·.2.1) hread.symm

/-- What is left of a rejected configuration. -/
theorem handle_rejected (h : request.isRejected names readRest b) :
    b.handle names readRest request =
      { b with
        settings :=
          if request.reader.isEmpty then b.settings
          else BaseConfig.readSettings b.settings request.reader } := by
  have hsettings : (Config.read names readRest b.settings request.reader (request.fileName b)).2.1 =
      _ := read_settings b.settings request.reader (request.fileName b)
  unfold Request.isRejected at h
  rw [← hsettings]
  generalize hread : Config.read names readRest b.settings request.reader (request.fileName b) =
    result at h
  obtain ⟨config, settings, accepted⟩ := result
  obtain rfl : accepted = false := h
  cases request with
  | reload json written =>
    change (b.reload names readRest json written).1 = { b with settings }
    unfold reload
    by_cases hempty : (ConfigReader.value json).isEmpty = true
    · rw [hread] at hsettings
      obtain rfl : settings = b.settings := hsettings.trans (if_pos hempty)
      rw [if_pos hempty]
    · have hvalue : Config.read names readRest b.settings (.value json) b.config.base.fileName =
          (config, settings, false) := hread
      rw [if_neg hempty, hvalue]
  | fileChanged fileName content =>
    change b.onFileChanged names readRest fileName content = { b with settings }
    have hfile : Config.read names readRest b.settings (addFile fileName content).1
        (addFile fileName content).2 = (config, settings, false) := hread
    simp only [onFileChanged, hfile]

/-- A request with the verbosity and no pools, which is answered with an error. -/
theorem verbosity_kept : ¬ ∀ (names : Names) (readRest : ConfigReader → PoolSettings → Unit)
    (b : Base Unit) (request : Request), request.isRejected names readRest b →
      b.handle names readRest request = b := by
  intro h
  have hkept := h { algorithm := fun _ => .invalid, coin := fun _ => .invalid } (fun _ _ => ())
    { config := {} } (.reload (.object [("verbose", .int 3)]) true) rfl
  have hverbose : (3 : Nat) = 0 := congrArg (fun b : Base Unit => b.settings.verbose) hkept
  exact absurd hverbose (by decide)

/-- A rejected configuration changes nothing exactly if there was nothing to change. -/
theorem unchanged_iff (h : request.isRejected names readRest b) :
    b.handle names readRest request = b ↔
      request.reader.isEmpty = true ∨ InForce b.settings request.reader := by
  rw [handle_rejected h, ← readSettings_eq_iff]
  by_cases hempty : request.reader.isEmpty = true
  · rw [if_pos hempty]
    exact ⟨fun _ => .inl hempty, fun _ => rfl⟩
  · rw [if_neg hempty]
    constructor
    · intro hsame
      exact .inr (congrArg Base.settings hsame)
    · intro hkept
      rw [hkept.resolve_left hempty]

theorem unchanged_iff_quiet :
    let names : Names := { algorithm := fun _ => .invalid, coin := fun _ => .invalid }
    let b : Base Unit := { config := {} }
    let request : Request := .reload (.object [("verbose", .int 0)]) true
    b.handle names (fun _ _ => ()) request = b ↔
      request.reader.isEmpty = true ∨ InForce b.settings request.reader :=
  unchanged_iff rfl

example : ¬ Request.isRejected { algorithm := fun _ => .invalid, coin := fun _ => .invalid }
    (fun _ _ => ()) { config := {} }
    (.reload (.object [("pools", .array [.object [("url", .string "localhost:3333")]])]) true) := by
  unfold Request.isRejected
  decide +kernel

end Rejected

end Base

end VeloxHash.ConfigReload
