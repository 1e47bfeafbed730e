import Mathlib.Algebra.Order.Round
import VeloxHash.CpuThreads
import VeloxHash.HwlocTopology
import VeloxHash.RoundRobin

/-! The threads that `HwlocCpuInfo` places on the units of a topology, where `none` is a counter
that is decremented below zero. -/

namespace VeloxHash

open HwlocObj (findByType isPU isCore units)
open RoundRobin (above deal level level_cons_none level_cons_some)

namespace HwlocCpuInfo

inductive Vendor
  | unknown
  | intel
  | amd
  deriving DecidableEq

inductive Arch
  | unknown
  | zen
  | zenPlus
  | zen2
  | zen3
  | zen4
  | zen5
  deriving DecidableEq

end HwlocCpuInfo

open HwlocCpuInfo in
/-- The CPU, with the children of the root of its topology. -/
structure HwlocCpuInfo where
  vendor : Vendor
  arch : Arch
  threadCount : Nat
  topology : List HwlocObj

namespace HwlocCpuInfo

def oneMiB : UInt64 := 1024 * 1024

/-- The second-level caches below a third-level one. -/
structure L2Caches where
  size : UInt64 := 0
  associativity : Int := 0
  extra : UInt64 := 0

section Plan

variable (cpu : HwlocCpuInfo) (cache : HwlocCache) (algorithm : Algorithm)

def scratchpad : UInt64 := .ofNat algorithm.l3

def processL2 (caches : L2Caches) : HwlocObj → L2Caches
  | .inner (.cache attr) .. =>
    { size := caches.size + attr.size
      associativity := attr.associativity
      extra :=
        if cache.exclusive then
          if cpu.vendor = .amd ∧ (cpu.arch = .zen4 ∨ cpu.arch = .zen5) then
            caches.extra + min (attr.size / 2) (scratchpad algorithm)
          else if scratchpad algorithm ≤ attr.size then caches.extra + scratchpad algorithm
          else caches.extra
        else caches.extra }
  | _ => caches

def processChild (caches : L2Caches) : HwlocObj → L2Caches
  | .inner .group _ _ children => children.foldl (processL2 cpu cache algorithm) caches
  | child => processL2 cpu cache algorithm caches child

def l2Caches : L2Caches :=
  if cache.attr.depth = 3 then cache.children.foldl (processChild cpu cache algorithm) {} else {}

/-- Without the cores of one unit for GhostRider on a CPU that has both kinds. -/
def selectedCores : List HwlocObj :=
  let cores := cache.cores
  if algorithm = .ghostriderRtm ∧ cache.exclusive ∧ cores.length < cache.units.length ∧
      cache.units.length < cores.length * 2 then
    let large := cores.filter fun core => core.cpusetWeight ≠ 1
    if large.isEmpty then cores else large
  else cores

/-- The sizes that count, after the correction for Intel. -/
def sizes : UInt64 × UInt64 :=
  let l2 := l2Caches cpu cache algorithm
  if cpu.vendor = .intel ∧ scratchpad algorithm = 2 * oneMiB ∧ l2.size ≠ 0 ∧
      .ofNat (selectedCores cache algorithm).length * oneMiB = l2.size ∧ l2.associativity = 16 ∧
      l2.size ≤ cache.attr.size then
    (l2.size, l2.size)
  else (cache.attr.size, l2.extra)

def l2Size : Nat :=
  if algorithm.isRandomX then 1 <<< ((algorithm.id >>> 8) &&& 0xff).toNat else 0

/-- The first value of `cacheHashes`. -/
def scratchpads : Nat :=
  let (l3, extra) := sizes cpu cache algorithm
  ((l3 + extra + scratchpad algorithm / 2) / scratchpad algorithm).toNat

def cacheHashes (limit : Nat) : Nat :=
  let (l3, extra) := sizes cpu cache algorithm
  let l2 := (l2Caches cpu cache algorithm).size
  let cores := (selectedCores cache algorithm).length
  let hashes := scratchpads cpu cache algorithm
  let hashes :=
    if cpu.vendor = .intel ∧ algorithm.isRandomX ∧ cache.exclusive ∧
        cache.units.length < cores * 2 then ((l3 + l2) / scratchpad algorithm).toNat
    else hashes
  let hashes :=
    if extra = 0 ∧ 0 < l2Size algorithm then min (max (l2.toNat / l2Size algorithm) cores) hashes
    else hashes
  let hashes := if 0 < limit then min hashes limit else hashes
  if algorithm = .ghostriderRtm then min hashes cores else hashes

def maxIntensity : Nat :=
  if algorithm.isCN then 5 else if algorithm = .ghostriderRtm then 8 else 1

def intensity : Nat :=
  if algorithm = .ghostriderRtm then 8
  else if maxIntensity algorithm = 1 then 0
  else if (algorithm.family = 0x63120000 ∨ algorithm.family = 0x63110000) ∧
      2 ≤ scratchpads cpu cache algorithm / cache.units.length then 2
  else 1

end Plan

/-- `--` on a `size_t`. -/
def decrement : Nat → Option Nat
  | 0 => none
  | n + 1 => some n

/-- The loop over the cores: what is left of `cacheHashes` and `PUs`, and `threads_data`. -/
def allocate (puId : Nat) : List HwlocObj → Nat → Nat → Option (Nat × Nat × List HwlocObj)
  | [], hashes, pus => some (hashes, pus, [])
  | core :: cores, hashes, pus =>
    match (units core)[puId]? with
    | none => allocate puId cores hashes pus
    | some unit => do
      let hashes ← decrement hashes
      let pus ← decrement pus
      if hashes = 0 then some (hashes, pus, [unit])
      else
        let (hashes, pus, data) ← allocate puId cores hashes pus
        some (hashes, pus, unit :: data)

def arrange (puId : Nat) (data : List HwlocObj) : List HwlocObj :=
  if puId % 2 = 1 then data.reverse else data

theorem decrement_eq {n m : Nat} (h : decrement n = some m) : n = m + 1 := by
  cases n with
  | zero => cases h
  | succ n => exact congrArg (· + 1) (Option.some.inj h)

theorem allocate_counts {puId : Nat} {cores : List HwlocObj} {hashes pus hashes' pus' : Nat}
    {data : List HwlocObj} (h : allocate puId cores hashes pus = some (hashes', pus', data)) :
    hashes = hashes' + data.length ∧ pus = pus' + data.length := by
  induction cores generalizing hashes pus hashes' pus' data with
  | nil =>
    cases h
    exact ⟨rfl, rfl⟩
  | cons core cores ih =>
    rw [allocate] at h
    split at h
    case h_1 => exact ih h
    case h_2 unit _ =>
      obtain ⟨hashes₁, hhashes, h⟩ := Option.bind_eq_some_iff.mp h
      obtain ⟨pus₁, hpus, h⟩ := Option.bind_eq_some_iff.mp h
      have hh := decrement_eq hhashes
      have hp := decrement_eq hpus
      split at h
      case isTrue =>
        cases h
        exact ⟨hh, hp⟩
      case isFalse =>
        obtain ⟨⟨hashes₂, pus₂, data₂⟩, hrest, h⟩ := Option.bind_eq_some_iff.mp h
        cases h
        obtain ⟨hh', hp'⟩ := ih hrest
        rw [List.length_cons]
        omega

/-- The loop over the rounds. -/
def assign (puId : Nat) (cores : List HwlocObj) (hashes pus : Nat) (data : List HwlocObj) :
    Option (List HwlocObj) :=
  if 0 < hashes ∧ 0 < pus then
    match _h : allocate puId cores hashes pus with
    | none => none
    | some (hashes', pus', round) =>
      if _hround : round = [] then some data
      else assign (puId + 1) cores.reverse hashes' pus' (data ++ arrange puId round)
  else some data
termination_by hashes
decreasing_by
  have := List.length_pos_iff.mpr _hround
  have := (allocate_counts _h).1
  omega

def addThreads (intensity : Nat) (threads : List CpuThread) (data : List HwlocObj) :
    List CpuThread := threads ++ data.map fun unit => ⟨unit.osIndex, intensity⟩

/-- The units that `processTopLevelCache` chooses, in its order. -/
def chosen (cpu : HwlocCpuInfo) (cache : HwlocCache) (algorithm : Algorithm) (limit : Nat) :
    Option (List HwlocObj) :=
  if cache.units.length = 0 then some []
  else if cache.units.length ≤ cacheHashes cpu cache algorithm limit then
    some ((selectedCores cache algorithm).flatMap units)
  else assign 0 (selectedCores cache algorithm) (cacheHashes cpu cache algorithm limit)
    cache.units.length []

def processTopLevelCache (cpu : HwlocCpuInfo) (cache : HwlocCache) (algorithm : Algorithm)
    (threads : List CpuThread) (limit : Nat) : Option (List CpuThread) :=
  (chosen cpu cache algorithm limit).map (addThreads (intensity cpu cache algorithm) threads)

theorem arrange_perm (puId : Nat) (data : List HwlocObj) : (arrange puId data).Perm data := by
  unfold arrange
  split
  · exact List.reverse_perm data
  · exact .refl data

/-- One round takes the next unit of each core that has one, while there are hashes left. -/
theorem allocate_eq {puId : Nat} {cores : List HwlocObj} {hashes pus : Nat} (hpos : 0 < hashes)
    (hle : hashes ≤ pus) :
    ∃ data, data = (level puId (cores.map units)).take hashes ∧
      allocate puId cores hashes pus = some (hashes - data.length, pus - data.length, data) := by
  refine ⟨_, rfl, ?_⟩
  induction cores generalizing hashes pus with
  | nil =>
    rw [allocate, List.map_nil, level, List.filterMap_nil, List.take_nil]
    rfl
  | cons core cores ih =>
    rw [allocate]
    cases h : (units core)[puId]? with
    | none =>
      rw [List.map_cons, level_cons_none h]
      exact ih hpos hle
    | some unit =>
      cases hashes with
      | zero => cases hpos
      | succ hashes =>
        cases pus with
        | zero => cases hle
        | succ pus =>
          rw [List.map_cons, level_cons_some h, List.take_succ_cons, List.length_cons,
            Nat.add_sub_add_right, Nat.add_sub_add_right]
          cases hashes with
          | zero => rfl
          | succ hashes =>
            have hrest := ih (Nat.succ_pos hashes) (Nat.le_of_succ_le_succ hle)
            simp only [decrement, Option.bind_eq_bind, Option.bind_some, hrest,
              if_neg (Nat.succ_ne_zero hashes)]

theorem assign_eq {puId : Nat} {cores : List HwlocObj} {hashes pus : Nat} (data : List HwlocObj)
    (hle : hashes ≤ pus) :
    assign puId cores hashes pus data =
      some (data ++ deal arrange puId (cores.map units) hashes) := by
  induction hashes using Nat.strongRecOn generalizing puId cores pus data with
  | ind hashes ih =>
    rw [assign, deal]
    by_cases hpos : 0 < hashes
    · obtain ⟨round, hround, hallocate⟩ := @allocate_eq puId cores hashes pus hpos hle
      rw [if_pos ⟨hpos, by omega⟩, ← hround]
      split
      case h_1 h => cases h.symm.trans hallocate
      case h_2 h =>
        cases h.symm.trans hallocate
        by_cases hempty : round = []
        · rw [dif_pos hempty, if_pos hempty, List.append_nil]
        · have := List.length_pos_iff.mpr hempty
          rw [dif_neg hempty, if_neg hempty, ih _ (by omega) _ (by omega), List.map_reverse,
            List.append_assoc]
    · obtain rfl : hashes = 0 := by omega
      rw [if_neg (by omega), List.take_zero, if_pos rfl, List.append_nil]

/-- `m_cache` of a depth. -/
def cacheSize (cpu : HwlocCpuInfo) (depth : Nat) : UInt64 :=
  ((HwlocCache.find 2 3 cpu.topology).filter (·.attr.depth = depth)).foldl (· + ·.attr.size) 0

def topLevelCaches (cpu : HwlocCpuInfo) : List HwlocCache :=
  let depth := if 0 < cpu.cacheSize 3 then 3 else 2
  HwlocCache.find depth depth cpu.topology

/-- Over the rationals. No cast to `int` changes a value, as `m_threads` counts what `hwloc`
counts in an `int`. -/
def maxTotalThreads (cpu : HwlocCpuInfo) (limit : Nat) : Int :=
  round ((cpu.threadCount : ℚ) * limit / 100)

def maxPerCache (total : Int) (caches : Nat) : Int := max (round ((total : ℚ) / caches)) 1

/-- The loop over the caches under a limit. -/
def limitedThreads (cpu : HwlocCpuInfo) (algorithm : Algorithm) (perCache : Int) :
    List HwlocCache → Int → List CpuThread → Option (List CpuThread)
  | [], _, threads => some threads
  | cache :: caches, remaining, threads => do
    let threads ←
      processTopLevelCache cpu cache algorithm threads (min perCache remaining).toNat
    if remaining - perCache ≤ 0 then some threads
    else limitedThreads cpu algorithm perCache caches (remaining - perCache) threads

/-- The threads of the caches, before the test for none. -/
def cacheThreads (cpu : HwlocCpuInfo) (algorithm : Algorithm) (limit : Nat) :
    Option (List CpuThread) :=
  let caches := cpu.topLevelCaches
  if 0 < limit ∧ limit < 100 ∧ caches.isEmpty = false then
    let total := maxTotalThreads cpu limit
    limitedThreads cpu algorithm (maxPerCache total caches.length) caches (max total 1) []
  else caches.foldlM (fun threads cache => processTopLevelCache cpu cache algorithm threads 0) []

/-- `BasicCpuInfo::threads`, from `hardware_concurrency`. -/
def basicThreads (count : Nat) (algorithm : Algorithm) : List CpuThread :=
  if count = 1 then List.replicate 1 {}
  else if algorithm.family = 0x63140000 then List.replicate count ⟨-1, 1⟩
  else if algorithm.family = 0x63120000 ∨ algorithm.family = 0x63110000 then
    List.replicate count ⟨-1, 2⟩
  else if algorithm.family = 0x63160000 then List.replicate (max (count / 4) 1) ⟨-1, 1⟩
  else if algorithm.isRandomX then
    List.replicate (if algorithm = .rxWow then count else max (count / 2) 1) {}
  else if algorithm.family = 0x61000000 then List.replicate count {}
  else List.replicate (max (count / 2) 1) ⟨-1, if algorithm.isGhostrider then 8 else 1⟩

def threads (cpu : HwlocCpuInfo) (count : Nat) (algorithm : Algorithm) (limit : Nat) :
    Option (List CpuThread) :=
  if cpu.cacheSize 2 = 0 ∧ cpu.cacheSize 3 = 0 then some (basicThreads count algorithm)
  else do
    let threads ← cacheThreads cpu algorithm limit
    if threads.isEmpty then some (basicThreads count algorithm) else some threads

section Placement

variable (cpu : HwlocCpuInfo) (cache : HwlocCache) (algorithm : Algorithm) (limit : Nat)

theorem selectedCores_sublist : (selectedCores cache algorithm).Sublist cache.cores := by
  rw [selectedCores]
  split
  · dsimp only
    split
    · exact .refl _
    · exact List.filter_sublist
  · exact .refl _

theorem selectedUnits_sublist :
    ((selectedCores cache algorithm).flatMap units).Sublist cache.units :=
  ((selectedCores_sublist cache algorithm).flatMap units).trans
    (HwlocObj.units_sublist cache.children)

theorem cacheHashes_le (hpos : 0 < limit) : cacheHashes cpu cache algorithm limit ≤ limit := by
  rw [cacheHashes]
  dsimp only
  rw [if_pos hpos]
  split
  · exact (min_le_left _ _).trans (min_le_right _ _)
  · exact min_le_right _ _

theorem chosen_eq : ∃ data, chosen cpu cache algorithm limit = some data ∧
    data.Subperm cache.units ∧
    data.length = min (cacheHashes cpu cache algorithm limit)
      ((selectedCores cache algorithm).flatMap units).length := by
  have hsublist := selectedUnits_sublist cache algorithm
  have hlength := hsublist.length_le
  rw [chosen]
  by_cases hnone : cache.units.length = 0
  · refine ⟨[], if_pos hnone, List.nil_subperm, ?_⟩
    rw [List.length_nil]
    omega
  · rw [if_neg hnone]
    by_cases hall : cache.units.length ≤ cacheHashes cpu cache algorithm limit
    · exact ⟨_, if_pos hall, hsublist.subperm, (min_eq_right (hlength.trans hall)).symm⟩
    · have hle : cacheHashes cpu cache algorithm limit ≤ cache.units.length := by omega
      have hrows : above 0 ((selectedCores cache algorithm).map units) =
          (selectedCores cache algorithm).flatMap units := RoundRobin.above_zero _
      refine ⟨_, (if_neg hall).trans (assign_eq [] hle), ?_, ?_⟩
      · rw [List.nil_append]
        exact (RoundRobin.deal_subperm arrange_perm).trans (hrows ▸ hsublist.subperm)
      · rw [List.nil_append, RoundRobin.length_deal arrange_perm, hrows]

theorem processTopLevelCache_eq (threads : List CpuThread) : ∃ data,
    processTopLevelCache cpu cache algorithm threads limit =
      some (addThreads (intensity cpu cache algorithm) threads data) ∧
    data.Subperm cache.units ∧
    data.length = min (cacheHashes cpu cache algorithm limit)
      ((selectedCores cache algorithm).flatMap units).length := by
  obtain ⟨data, hdata, hplaced⟩ := chosen_eq cpu cache algorithm limit
  exact ⟨data, congrArg (Option.map _) hdata, hplaced⟩

theorem length_processTopLevelCache (hpos : 0 < limit) (threads : List CpuThread) :
    ∃ threads', processTopLevelCache cpu cache algorithm threads limit = some threads' ∧
      threads'.length ≤ threads.length + limit := by
  obtain ⟨data, heq, -, hlength⟩ := processTopLevelCache_eq cpu cache algorithm limit threads
  have hle := cacheHashes_le cpu cache algorithm limit hpos
  refine ⟨_, heq, ?_⟩
  rw [addThreads, List.length_append, List.length_map]
  omega

/-- No cache gets more than what remains. -/
theorem length_limitedThreads {perCache remaining : Int} (hper : 0 < perCache)
    (hremaining : 0 < remaining) (caches : List HwlocCache) (threads : List CpuThread) :
    ∃ threads', limitedThreads cpu algorithm perCache caches remaining threads = some threads' ∧
      (threads'.length : Int) ≤ threads.length + remaining := by
  induction caches generalizing remaining threads with
  | nil => exact ⟨threads, rfl, by omega⟩
  | cons cache caches ih =>
    obtain ⟨threads', heq, hlength⟩ := length_processTopLevelCache cpu cache algorithm
      (min perCache remaining).toNat (by omega) threads
    rw [limitedThreads, heq]
    by_cases hlast : remaining - perCache ≤ 0
    · exact ⟨threads', if_pos hlast, by omega⟩
    · obtain ⟨threads'', heq', hlength'⟩ := @ih (remaining - perCache) (by omega) threads'
      exact ⟨threads'', (if_neg hlast).trans heq', by omega⟩

theorem length_cacheThreads (hpos : 0 < limit) (hlt : limit < 100) :
    ∃ threads, cacheThreads cpu algorithm limit = some threads ∧
      (threads.length : Int) ≤ max 1 (maxTotalThreads cpu limit) := by
  rw [cacheThreads]
  by_cases hempty : cpu.topLevelCaches.isEmpty
  · rw [if_neg (by simp [hempty]), List.isEmpty_iff.mp hempty]
    exact ⟨[], rfl, (by decide : (0 : Int) ≤ 1).trans (le_max_left _ _)⟩
  · have hone (i : Int) : 0 < max i 1 := lt_of_lt_of_le Int.one_pos (le_max_right _ _)
    obtain ⟨threads, heq, hlength⟩ := length_limitedThreads cpu algorithm (hone _) (hone _)
      cpu.topLevelCaches []
    refine ⟨threads, (if_pos ⟨hpos, hlt, by simpa using hempty⟩).trans heq, ?_⟩
    rw [max_comm]
    simpa using hlength

end Placement

/-- For every topology: a cache gets each of its units at most once and as many as it has hashes
for, and all caches together no more than their share of the threads. -/
theorem placement (cpu : HwlocCpuInfo) (algorithm : Algorithm) :
    (∀ (cache : HwlocCache) (threads : List CpuThread) (limit : Nat), ∃ data,
      processTopLevelCache cpu cache algorithm threads limit =
        some (addThreads (intensity cpu cache algorithm) threads data) ∧
      data.Subperm cache.units ∧
      data.length = min (cacheHashes cpu cache algorithm limit)
        ((selectedCores cache algorithm).flatMap units).length) ∧
    ∀ limit : Nat, 1 ≤ limit → limit ≤ 99 → ∃ threads,
      cacheThreads cpu algorithm limit = some threads ∧
      (threads.length : Int) ≤ max 1 (round ((cpu.threadCount : ℚ) * limit / 100)) :=
  ⟨fun cache threads limit => processTopLevelCache_eq cpu cache algorithm limit threads,
    fun limit hpos hlt => length_cacheThreads cpu algorithm limit hpos (Nat.lt_succ_of_le hlt)⟩

/-- Two cores of two units below one cache. -/
def twoCores : HwlocCpuInfo where
  vendor := .amd
  arch := .zen3
  threadCount := 4
  topology := [.inner (.cache ⟨0x400000, 3, 16⟩) 4 none
    [.inner .core 2 none [.pu 0, .pu 1], .inner .core 2 none [.pu 2, .pu 3]]]

theorem placement_twoCores : ∃ threads, cacheThreads twoCores .rx0 50 = some threads ∧
    (threads.length : Int) ≤ max 1 (round (((4 : Nat) : ℚ) * (50 : Nat) / 100)) :=
  (placement twoCores .rx0).2 50 (by decide) (by decide)

end HwlocCpuInfo

end VeloxHash
