import VeloxHash.RxQueue

/-! `RxBasicStorage` with the cache and the dataset under it. Memory is modelled by where
its content came from: a cache by the key and the configuration `randomx_init_cache` ran
with, a dataset item by the cache content and the configuration it was computed under. -/

namespace VeloxHash

/-- The configurations `RxAlgo::base` chooses from. -/
inductive RandomXConfiguration
  | monero
  | wownero
  | arqma
  | graft
  | safex
  | yada
  deriving DecidableEq, Repr

def RxAlgo.base : Algorithm → RandomXConfiguration
  | .rxWow => .wownero
  | .rxArq => .arqma
  | .rxGraft => .graft
  | .rxSfx => .safex
  | .rxYada => .yada
  | _ => .monero

namespace RxBasicStorage

/-- `none` for `RandomX_CurrentConfig` before the first `randomx_apply_config`. -/
abbrev CurrentConfig := Option RandomXConfiguration

structure CacheContent where
  key : List UInt8
  config : CurrentConfig
  deriving DecidableEq, Repr

/-- `none` for memory no `randomx_init_cache` has run over. -/
structure RandomxCache where
  content : Option CacheContent := none
  deriving DecidableEq, Repr

structure ItemContent where
  cache : Option CacheContent
  config : CurrentConfig
  deriving DecidableEq, Repr

abbrev Items := Nat → Option ItemContent

structure RxCache where
  seed : List UInt8 := []
  cache : Option RandomxCache := none
  deriving DecidableEq, Repr

structure RxDataset where
  dataset : Option Items
  cache : Option RxCache

/-- What the processor offers to `init_dataset_wrapper`. -/
structure Platform where
  avx2 : Bool
  riscv : Bool

/-- What the system grants to `createDataset`. -/
structure Allocation where
  enoughMemory : Bool
  datasetMemory : Bool
  oneGbPages : Bool
  cacheMemory : Bool
  jitCache : Bool
  defaultCache : Bool

/-- `(DatasetBaseSize + DatasetExtraSize) / RANDOMX_DATASET_ITEM_SIZE`. -/
def datasetItemCount : Nat := (2147483648 + 33554368) / 64

def RxCache.create (memory : Bool) (a : Allocation) : RxCache where
  cache := if memory && (a.jitCache || a.defaultCache) then some {} else none

def RxCache.init (c : RxCache) (config : CurrentConfig) (seed : List UInt8) : RxCache :=
  if c.seed = seed then c
  else { seed, cache := c.cache.map fun _ => ⟨some ⟨seed, config⟩⟩ }

/-- `randomx_init_dataset`; `none` when one of its assertions fails. -/
def randomxInitDataset (item : ItemContent) (startItem itemCount : Nat) (items : Items) :
    Option Items :=
  if startItem < datasetItemCount ∧ itemCount ≤ datasetItemCount ∧
      startItem + itemCount ≤ datasetItemCount then
    some fun i => if startItem ≤ i ∧ i < startItem + itemCount then some item else items i
  else
    none

/-- Whole batches from the start, then the last batch counted from the end. -/
def initBatches (batch : Nat) (item : ItemContent) (startItem itemCount : Nat)
    (items : Items) : Option Items :=
  (randomxInitDataset item startItem (itemCount - itemCount % batch) items).bind
    (randomxInitDataset item ((startItem + itemCount + (2 ^ 32 - batch)) % 2 ^ 32) batch)

def initDatasetWrapper (p : Platform) (item : ItemContent) (startItem itemCount : Nat)
    (items : Items) : Option Items :=
  if p.avx2 ∧ itemCount % 5 ≠ 0 then
    initBatches 5 item startItem itemCount items
  else if p.riscv ∧ itemCount % 4 ≠ 0 then
    initBatches 4 item startItem itemCount items
  else
    randomxInitDataset item startItem itemCount items

/-- First item of thread `i`. -/
def sliceStart (numThreads i : Nat) : Nat := datasetItemCount * i / numThreads

/-- The first `k` of the `numThreads` threads; all write one content. -/
def initSlices (p : Platform) (item : ItemContent) (numThreads : Nat) :
    Nat → Items → Option Items
  | 0, items => some items
  | k + 1, items =>
    (initSlices p item numThreads k items).bind
      (initDatasetWrapper p item (sliceStart numThreads k)
        (sliceStart numThreads (k + 1) - sliceStart numThreads k))

def initItems (p : Platform) (item : ItemContent) (numThreads : UInt32) (items : Items) :
    Option Items :=
  if numThreads.toNat > 1 then initSlices p item numThreads.toNat numThreads.toNat items
  else initDatasetWrapper p item 0 datasetItemCount items

/-- `RxDataset::RxDataset(hugePages, oneGbPages, true, mode, 0)`; huge pages change where
memory comes from only. -/
def RxDataset.create (oneGbPages : Bool) (mode : RxConfig.Mode) (a : Allocation) : RxDataset :=
  let allocates := mode != .light && !(mode == .auto && !a.enoughMemory)
  let isOneGbPages := allocates && oneGbPages && a.oneGbPages
  { dataset := if allocates && (a.datasetMemory || isOneGbPages) then some fun _ => none
      else none
    cache := some (RxCache.create (a.cacheMemory || isOneGbPages) a) }

/-- `RxDataset::init`: its answer and the dataset after it. -/
def RxDataset.init (p : Platform) (d : RxDataset) (config : CurrentConfig) (seed : List UInt8)
    (numThreads : UInt32) : Option (Bool × RxDataset) :=
  match d.cache with
  | none => some (false, d)
  | some cache =>
    if cache.cache.isNone then some (false, d)
    else
      let cache := cache.init config seed
      match d.dataset with
      | none => some (true, { d with cache := some cache })
      | some items =>
        (initItems p ⟨cache.cache.bind (·.content), config⟩ numThreads items).map fun items =>
          (true, ⟨some items, some cache⟩)

/-- `RxBasicStoragePrivate`, with the global `RandomX_CurrentConfig`. -/
structure Storage where
  ready : Bool := false
  dataset : Option RxDataset := none
  seed : RxSeed := {}
  config : CurrentConfig := none

namespace Storage

def isReady (s : Storage) (job : RxSeed) : Bool := s.ready && s.seed == job

/-- `RxBasicStorage::dataset`; the node is not looked at. -/
def datasetFor (s : Storage) (job : RxSeed) : Option RxDataset :=
  if s.isReady job then s.dataset else none

def isAllocated (s : Storage) : Bool :=
  (s.dataset.bind (·.cache)).any (·.cache.isSome)

def setSeed (s : Storage) (seed : RxSeed) : Storage :=
  { s with
    ready := false
    config := if s.seed.algorithm ≠ seed.algorithm then some (RxAlgo.base seed.algorithm)
      else s.config
    seed }

/-- The dataset `createDataset` keeps, if its cache was allocated. -/
def created (item : RxQueueItem) (a : Allocation) : Option RxDataset :=
  let d := RxDataset.create item.oneGbPages item.mode a
  if (d.cache.bind (·.cache)).isSome then some d else none

/-- The dataset an init works on. -/
def target (s : Storage) (item : RxQueueItem) (a : Allocation) : Option RxDataset :=
  s.dataset.orElse fun _ => created item a

def initDataset (p : Platform) (s : Storage) (d : RxDataset) (threads : UInt32) :
    Option Storage :=
  (d.init p s.config s.seed.data threads).map fun result =>
    { s with ready := result.1, dataset := some result.2 }

def init (p : Platform) (s : Storage) (item : RxQueueItem) (a : Allocation) : Option Storage :=
  match s.target item a with
  | none => some (s.setSeed item.seed)
  | some d => (s.setSeed item.seed).initDataset p d item.threads

end Storage

end RxBasicStorage

end VeloxHash
