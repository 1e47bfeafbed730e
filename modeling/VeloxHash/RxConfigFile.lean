import VeloxHash.ConfigReader
import VeloxHash.MsrItemText
import VeloxHash.RxQueue

/-! `RxConfig::read` and `RxConfig::toJSON`. -/

namespace VeloxHash

open RxMsr (MsrItem)

namespace RxConfig

def modeName : Mode → String
  | .auto => "auto"
  | .fast => "fast"
  | .light => "light"

inductive ScratchpadPrefetchMode
  | off
  | t0
  | nta
  | mov
  deriving DecidableEq

namespace ScratchpadPrefetchMode

def toInt : ScratchpadPrefetchMode → Int
  | off => 0
  | t0 => 1
  | nta => 2
  | mov => 3

/-- A number below `ScratchpadPrefetchMax`. -/
def ofInt? : Int → Option ScratchpadPrefetchMode
  | 0 => some off
  | 1 => some t0
  | 2 => some nta
  | 3 => some mov
  | _ => none

end ScratchpadPrefetchMode

end RxConfig

open RxConfig in
structure RxConfig where
  wrmsr : Bool := true
  msrPreset : List MsrItem := []
  cacheQoS : Bool := false
  oneGbPages : Bool := false
  rdmsr : Bool := true
  threads : Int32 := -1
  initDatasetAVX2 : Int32 := -1
  mode : Mode := .auto
  scratchpadPrefetchMode : ScratchpadPrefetchMode := .t0
  numa : Bool := true
  nodeset : List UInt32 := []
  deriving DecidableEq

namespace RxConfig

def readMode : Json → Mode
  | .int i =>
    match ConfigReader.asUint (.int i) with
    | some 0 => .auto
    | some 1 => .fast
    | some _ => .light
    | none => .auto
  | .string s =>
    (([.auto, .fast, .light] : List Mode).find? fun mode =>
      BenchConfig.sameText (cString s) (modeName mode)).getD .auto
  | _ => .auto

/-- `intel` is what the vendor of the CPU is compared with. -/
def readMSR (intel : Bool) (config : RxConfig) : Json → RxConfig
  | .bool b => { config with wrmsr := b }
  | .int i =>
    match ConfigReader.asInt (.int i) with
    | none => config
    | some i =>
      if 0 ≤ min i 15 then
        if intel then
          { config with
            msrPreset := config.msrPreset ++ [⟨0x1a4, .ofNat (min i 15).toNat, RxMsr.kNoMask⟩] }
        else config
      else { config with wrmsr := false }
  | .array values =>
    let msrPreset := config.msrPreset ++ (values.map MsrItem.ofJson).filter MsrItem.isValid
    { config with msrPreset, wrmsr := !msrPreset.isEmpty }
  | _ => config

def readNuma (config : RxConfig) : Json → RxConfig
  | .array nodes =>
    { config with nodeset := config.nodeset ++ (nodes.filterMap ConfigReader.asUint).map .ofNat }
  | .bool b => { config with numa := b }
  | _ => config

def readPrefetch (config : RxConfig) (mode : Int) : RxConfig :=
  match ScratchpadPrefetchMode.ofInt? mode with
  | some mode => { config with scratchpadPrefetchMode := mode }
  | none => config

def read (intel : Bool) (config : RxConfig) : Json → Option RxConfig
  | .object members =>
    let object := ConfigReader.value (.object members)
    let config := { config with
      threads := .ofInt (object.getInt "init" config.threads.toInt)
      initDatasetAVX2 := .ofInt (object.getInt "init-avx2" config.initDatasetAVX2.toInt)
      mode := readMode (object.getValue "mode")
      rdmsr := object.getBool "rdmsr" config.rdmsr }
    let config := config.readMSR intel (object.getValue "wrmsr")
    let config := { config with
      cacheQoS := object.getBool "cache_qos" config.cacheQoS
      oneGbPages := object.getBool "1gb-pages" config.oneGbPages }
    if config.mode = .light then some { config with numa := false }
    else
      let config := config.readNuma (object.getValue "numa")
      some (config.readPrefetch
        (object.getInt "scratchpad_prefetch_mode" config.scratchpadPrefetchMode.toInt))
  | _ => none

def wrmsrJson (config : RxConfig) : Json :=
  if config.msrPreset.isEmpty then .bool config.wrmsr
  else .array (config.msrPreset.map MsrItem.toJson)

def numaJson (config : RxConfig) : Json :=
  if config.nodeset.isEmpty then .bool config.numa
  else .array (config.nodeset.map fun node => .int node.toNat)

def members (config : RxConfig) : List (String × Json) :=
  [("init", .int config.threads.toInt),
    ("init-avx2", .int config.initDatasetAVX2.toInt),
    ("mode", .string (modeName config.mode)),
    ("1gb-pages", .bool config.oneGbPages),
    ("rdmsr", .bool config.rdmsr),
    ("wrmsr", config.wrmsrJson),
    ("cache_qos", .bool config.cacheQoS),
    ("numa", config.numaJson),
    ("scratchpad_prefetch_mode", .int config.scratchpadPrefetchMode.toInt)]

def toJson (config : RxConfig) : Json := .object config.members

/-- What holds of a configuration that has been read. -/
structure Formed (config : RxConfig) : Prop where
  valid : ∀ item ∈ config.msrPreset, item.isValid
  wrmsr : config.msrPreset ≠ [] → config.wrmsr = true
  light : config.mode = .light →
    config.numa = false ∧ config.nodeset = [] ∧ config.scratchpadPrefetchMode = .t0
  numa : config.mode ≠ .light → config.nodeset ≠ [] → config.numa = true

section Formed

variable (intel : Bool) (config : RxConfig) (value : Json)

end Formed

section RoundTrip

variable {intel : Bool} {c : RxConfig}

end RoundTrip

end RxConfig

end VeloxHash
