import VeloxHash.TransitionSystem
import Mathlib.Tactic

/-! `RxNUMAStorage`: one RandomX dataset for each NUMA node that could get one. What the
machine answers to the allocations is a parameter of each step, and what RandomX writes into
memory a parameter of the section. -/

namespace VeloxHash.RxNUMAStorage

open Std TransitionSystem

structure RxSeed where
  algorithm : Nat
  data : List UInt8
  deriving DecidableEq

/-- `created` says whether `get()` is set, `key` what the cache was last initialised with. -/
structure RxCache where
  created : Bool
  seed : List UInt8 := []
  key : Option (List UInt8) := none

/-- The memory of a dataset, as it is mapped and as `randomx_init_dataset` leaves it. -/
structure RandomX where
  Memory : Type
  mapped : Memory
  initDataset : RxSeed → Option (List UInt8) → Nat → Memory → Memory

/-- `memory` is what `m_dataset` gives access to. -/
structure RxDataset (x : RandomX) where
  memory : Option x.Memory := none
  cache : Option RxCache := none
  oneGbPages : Bool := false

/-- The nodes of a storage; `RxQueue` makes none for an empty list. -/
structure NodeSet where
  front : UInt32
  rest : List UInt32

def NodeSet.nodes (nodeset : NodeSet) : List UInt32 := nodeset.front :: nodeset.rest

/-- What the machine answers the thread that allocates for one node. -/
structure Answers where
  bind : Bool
  oneGbPages : Bool
  memory : Bool
  /-- Whether the cache behind a dataset in 1 GB pages could be created. -/
  cache : Bool

/-- The threads of `createDatasets` in the order in which they take the mutex, and whether
`allocateCache` succeeds. -/
structure Allocations (nodeset : NodeSet) where
  threads : List (UInt32 × Answers)
  perm : (threads.map Prod.fst).Perm nodeset.nodes
  cache : Bool

variable {x : RandomX} {nodeset : NodeSet}

namespace RxCache

def init (cache : RxCache) (seed : List UInt8) : RxCache :=
  if cache.seed = seed then cache
  else { cache with seed, key := if cache.created then some seed else cache.key }

end RxCache

namespace RxDataset

/-- The constructor, called with `cache` false. -/
def new (oneGbPages : Bool) (answers : Answers) : RxDataset x :=
  if oneGbPages && answers.oneGbPages then
    { memory := some x.mapped, cache := some { created := answers.cache }, oneGbPages := true }
  else
    { memory := if answers.memory then some x.mapped else none }

/-- The constructor for slow mode. -/
def ofCache (cache : Option RxCache) : RxDataset x := { cache }

def setCache (cache : RxCache) (dataset : RxDataset x) : RxDataset x :=
  { dataset with cache := some cache }

def init (dataset : RxDataset x) (seed : RxSeed) (threads : Nat) : Bool × RxDataset x :=
  match dataset.cache with
  | none => (false, dataset)
  | some cache =>
    if !cache.created then (false, dataset)
    else
      let cache := cache.init seed.data
      match dataset.memory with
      | none => (true, { dataset with cache := some cache })
      | some memory =>
        (true, { dataset with
          cache := some cache, memory := some (x.initDataset seed cache.key threads memory) })

/-- A null `raw` is undefined behaviour; `copies_initDatasets` shows that it does not come up. -/
def setRaw (raw : Option x.Memory) (dataset : RxDataset x) : RxDataset x :=
  match dataset.memory, raw with
  | some _, some memory => { dataset with memory := some memory }
  | _, _ => dataset

end RxDataset

/-- `RxNUMAStoragePrivate`. Its `m_cache` is handed to one dataset, which owns it from then on. -/
structure Storage (x : RandomX) where
  allocated : Bool := false
  ready : Bool := false
  cache : Option RxCache := none
  seed : RxSeed := ⟨0, []⟩
  datasets : TreeMap UInt32 (RxDataset x) := ∅

/-- A thread of `createDatasets`. -/
def allocate (oneGbPages : Bool) (datasets : TreeMap UInt32 (RxDataset x))
    (thread : UInt32 × Answers) : TreeMap UInt32 (RxDataset x) :=
  if !thread.2.bind then datasets
  else
    let dataset := RxDataset.new oneGbPages thread.2
    if dataset.memory.isNone then datasets
    else datasets.insertIfNew thread.1 dataset

namespace Storage

variable (s : Storage x)

/-- `dataset(nodeId)`; `none` is `std::out_of_range`. -/
def dataset (nodeset : NodeSet) (nodeId : UInt32) : Option (RxDataset x) :=
  if s.datasets.contains nodeId then s.datasets[nodeId]? else s.datasets[nodeset.front]?

def setSeed (seed : RxSeed) : Storage x := { s with ready := false, seed }

def isCacheRequired : Bool :=
  if s.datasets.isEmpty then true
  else !s.datasets.toList.any fun kv => kv.2.oneGbPages

/-- After `join`, what the allocation threads have left. -/
def joined (oneGbPages : Bool) (allocations : Allocations nodeset) : Storage x :=
  { s with datasets := allocations.threads.foldl (allocate oneGbPages) s.datasets }

/-- `allocateCache`. -/
def allocateCache (succeeds : Bool) : Storage x :=
  if succeeds then { s with cache := some { created := true } } else s

/-- The rest of `createDatasets`, once the cache is there where one is needed. -/
def finish (nodeset : NodeSet) : Option (Storage x) :=
  if s.datasets.isEmpty then
    some { s with
      datasets := s.datasets.insertIfNew nodeset.front (.ofCache s.cache), allocated := true }
  else
    match s.cache with
    | some cache =>
      if s.datasets.contains nodeset.front then
        some { s with
          datasets := s.datasets.modify nodeset.front (RxDataset.setCache cache)
          allocated := true }
      else none
    | none => some { s with allocated := true }

/-- `createDatasets`; `none` when it throws. -/
def createDatasets (oneGbPages : Bool) (allocations : Allocations nodeset) :
    Option (Bool × Storage x) :=
  let s := s.joined oneGbPages allocations
  if s.isCacheRequired then
    let s := s.allocateCache allocations.cache
    if s.cache.isNone then some (false, s) else (s.finish nodeset).map (true, ·)
  else
    (s.finish nodeset).map (true, ·)

/-- The loop of `initDatasets` that picks the node whose dataset is built. -/
def primaryId : UInt32 :=
  s.datasets.foldl (fun id node dataset => if dataset.cache.isSome then node else id) 0

/-- `initDatasets`; `none` when it throws. -/
def initDatasets (nodeset : NodeSet) (threads : Nat) : Option (Storage x) := do
  let id := s.primaryId
  let primary := (← s.dataset nodeset id).init s.seed threads |>.2
  let datasets := s.datasets.insert (if s.datasets.contains id then id else nodeset.front) primary
  return { s with
    ready := true
    datasets :=
      if datasets.size > 1 then
        datasets.map fun node item => if node = id then item else item.setRaw primary.memory
      else datasets }

/-- `RxNUMAStorage::init`; `none` when it throws. -/
def init (seed : RxSeed) (threads : Nat) (oneGbPages : Bool) (allocations : Allocations nodeset) :
    Option (Storage x) :=
  let s := s.setSeed seed
  if s.allocated then s.initDatasets nodeset threads
  else do
    let (created, s) ← s.createDatasets oneGbPages allocations
    if created then s.initDatasets nodeset threads else return s

end Storage

section Allocation

variable {oneGbPages : Bool} {allocations : Allocations nodeset} {s : Storage x} {node : UInt32}

/-- Whether a thread gets a dataset. -/
def Answers.granted (answers : Answers) (oneGbPages : Bool) : Bool :=
  answers.bind && (oneGbPages && answers.oneGbPages || answers.memory)

/-- What the first thread of a node that gets a dataset was answered. -/
def grant (threads : List (UInt32 × Answers)) (oneGbPages : Bool) (node : UInt32) :
    Option Answers :=
  (threads.find? fun thread => thread.1 == node && thread.2.granted oneGbPages).map Prod.snd

theorem allocate_getElem? (datasets : TreeMap UInt32 (RxDataset x)) (thread : UInt32 × Answers) :
    (allocate oneGbPages datasets thread)[node]? = datasets[node]?.or
      (if thread.1 == node && thread.2.granted oneGbPages then some (.new oneGbPages thread.2)
        else none) := by
  have hmemory : (RxDataset.new (x := x) oneGbPages thread.2).memory.isNone =
      !(oneGbPages && thread.2.oneGbPages || thread.2.memory) := by
    unfold RxDataset.new
    cases oneGbPages && thread.2.oneGbPages <;> cases thread.2.memory <;> rfl
  unfold allocate Answers.granted
  cases thread.2.bind with
  | false => simp
  | true =>
    simp only [Bool.not_true, Bool.false_eq_true, if_false, hmemory, Bool.true_and]
    cases oneGbPages && thread.2.oneGbPages || thread.2.memory with
    | false => simp
    | true =>
      simp only [Bool.not_true, Bool.false_eq_true, if_false, Bool.and_true, beq_iff_eq]
      simp only [TreeMap.getElem?_insertIfNew, LawfulEqCmp.compare_eq_iff_eq]
      by_cases hnode : thread.1 = node
      · subst hnode
        rw [if_pos rfl]
        by_cases hmem : thread.1 ∈ datasets
        · rw [if_neg fun h => h.2 hmem,
            Option.or_of_isSome (TreeMap.mem_iff_isSome_getElem?.mp hmem)]
        · rw [if_pos ⟨rfl, hmem⟩, TreeMap.getElem?_eq_none hmem, Option.none_or]
      · rw [if_neg fun h => hnode h.1, if_neg hnode, Option.or_none]

/-- A node keeps the dataset it had, or gets the first one that a thread could allocate. -/
theorem joined_getElem? (s : Storage x) (allocations : Allocations nodeset) :
    (s.joined oneGbPages allocations).datasets[node]? = s.datasets[node]?.or
      ((grant allocations.threads oneGbPages node).map (.new oneGbPages)) := by
  unfold Storage.joined grant
  dsimp only
  induction allocations.threads generalizing s with
  | nil => simp
  | cons thread rest ih =>
    have hrest := ih { s with datasets := allocate oneGbPages s.datasets thread }
    rw [List.foldl_cons, hrest, allocate_getElem?, List.find?_cons, Option.or_assoc]
    cases thread.1 == node && thread.2.granted oneGbPages <;> rfl

/-- A storage whose `createDatasets` has not succeeded yet. -/
structure Pending (s : Storage x) : Prop where
  cache : s.cache = none
  memory : ∀ (node : UInt32) (d : RxDataset x), s.datasets[node]? = some d → d.memory.isSome
  pages : ∀ (node : UInt32) (d : RxDataset x), s.datasets[node]? = some d → d.oneGbPages = false

theorem new_oneGbPages (answers : Answers) :
    (RxDataset.new (x := x) oneGbPages answers).oneGbPages =
      (oneGbPages && answers.oneGbPages) := by
  unfold RxDataset.new
  cases oneGbPages && answers.oneGbPages <;> rfl

theorem new_sound {answers : Answers} (h : answers.granted oneGbPages = true) :
    (RxDataset.new (x := x) oneGbPages answers).memory.isSome ∧
      ((RxDataset.new (x := x) oneGbPages answers).oneGbPages = true →
        (RxDataset.new (x := x) oneGbPages answers).cache.isSome) := by
  obtain ⟨-, hgot⟩ := Bool.and_eq_true_iff.mp h
  unfold RxDataset.new
  cases hpages : oneGbPages && answers.oneGbPages with
  | true => exact ⟨rfl, fun _ => rfl⟩
  | false =>
    rw [hpages, Bool.false_or] at hgot
    rw [hgot]
    exact ⟨rfl, nofun⟩

theorem granted_of_grant {threads : List (UInt32 × Answers)} {answers : Answers}
    (h : grant threads oneGbPages node = some answers) : answers.granted oneGbPages = true := by
  obtain ⟨thread, hfind, rfl⟩ := Option.map_eq_some_iff.mp h
  have hboth : (thread.1 == node && thread.2.granted oneGbPages) = true := by
    simpa using List.find?_some hfind
  exact (Bool.and_eq_true_iff.mp hboth).2

/-- Every dataset has memory, and those in 1 GB pages a cache of their own. -/
theorem joined_sound (hs : Pending s) {d : RxDataset x}
    (h : (s.joined oneGbPages allocations).datasets[node]? = some d) :
    d.memory.isSome ∧ (d.oneGbPages = true → d.cache.isSome) := by
  rw [joined_getElem?] at h
  rcases Option.or_eq_some_iff.mp h with hold | ⟨-, hnew⟩
  · refine ⟨hs.memory _ _ hold, fun hpages => ?_⟩
    rw [hs.pages _ _ hold] at hpages
    exact nomatch hpages
  · obtain ⟨answers, hgrant, rfl⟩ := Option.map_eq_some_iff.mp hnew
    exact new_sound (granted_of_grant hgrant)

theorem isCacheRequired_iff (s : Storage x) : s.isCacheRequired = true ↔
    ∀ (node : UInt32) (d : RxDataset x), s.datasets[node]? = some d → d.oneGbPages = false := by
  unfold Storage.isCacheRequired
  split
  case isTrue hempty =>
    refine ⟨fun _ node d hget => ?_, fun _ => rfl⟩
    have hmem := TreeMap.mem_iff_isSome_getElem?.mpr (Option.isSome_of_eq_some hget)
    exact absurd hmem (TreeMap.isEmpty_iff_forall_not_mem.mp hempty node)
  case isFalse =>
    rw [Bool.not_eq_true', List.any_eq_false]
    constructor
    · intro hall node d hget
      have hmem := TreeMap.mem_toList_iff_getElem?_eq_some.mpr hget
      exact Bool.eq_false_iff.mpr (hall (node, d) hmem)
    · rintro hall ⟨node, d⟩ hmem
      exact Bool.eq_false_iff.mp (hall node d (TreeMap.mem_toList_iff_getElem?_eq_some.mp hmem))

end Allocation

section Primary

variable {s t u : Storage x} {d : RxDataset x} {node : UInt32}

/-- The loop ends at the last of the nodes whose dataset has a cache. -/
theorem primaryId_spec (hget : s.datasets[node]? = some d) (hcache : d.cache.isSome) :
    ∃ primary, s.datasets[s.primaryId]? = some primary ∧ primary.cache.isSome := by
  have hloop (items : List (UInt32 × RxDataset x)) (id : UInt32) :
      (∃ kv ∈ items, kv.2.cache.isSome = true ∧ items.foldl (fun id kv =>
        if kv.2.cache.isSome then kv.1 else id) id = kv.1) ∨
      (∀ kv ∈ items, ¬kv.2.cache.isSome = true) ∧ items.foldl (fun id kv =>
        if kv.2.cache.isSome then kv.1 else id) id = id := by
    induction items generalizing id with
    | nil => exact .inr ⟨nofun, rfl⟩
    | cons kv rest ih =>
      rw [List.foldl_cons]
      rcases ih (if kv.2.cache.isSome then kv.1 else id) with ⟨last, hmem, hlast⟩ | ⟨hnone, hid⟩
      · exact .inl ⟨last, List.mem_cons_of_mem _ hmem, hlast⟩
      · by_cases hkv : kv.2.cache.isSome = true
        · exact .inl ⟨kv, List.mem_cons_self, hkv, by rw [hid, if_pos hkv]⟩
        · exact .inr ⟨List.forall_mem_cons.mpr ⟨hkv, hnone⟩, by rw [hid, if_neg hkv]⟩
  unfold Storage.primaryId
  rw [TreeMap.foldl_eq_foldl_toList]
  rcases hloop s.datasets.toList 0 with ⟨⟨id, primary⟩, hmem, hsome, hid⟩ | ⟨hnone, -⟩
  · refine ⟨primary, ?_, hsome⟩
    rw [hid]
    exact TreeMap.mem_toList_iff_getElem?_eq_some.mp hmem
  · exact absurd hcache (hnone (node, d) (TreeMap.mem_toList_iff_getElem?_eq_some.mpr hget))

theorem init_memory_isSome (d : RxDataset x) (seed : RxSeed) (threads : Nat) :
    (d.init seed threads).2.memory.isSome = d.memory.isSome := by
  unfold RxDataset.init
  split
  · rfl
  · split
    · rfl
    · dsimp only
      split <;> simp [*]

/-- A map with two keys has size two at least. -/
theorem one_lt_size {datasets : TreeMap UInt32 (RxDataset x)} {id : UInt32} {primary : RxDataset x}
    (hid : datasets[id]? = some primary) (hget : datasets[node]? = some d) (hne : node ≠ id) :
    1 < datasets.size := by
  rw [← TreeMap.mem_toList_iff_getElem?_eq_some] at hid hget
  rw [← TreeMap.length_toList]
  rcases hlist : datasets.toList with _ | ⟨first, _ | ⟨second, rest⟩⟩
  · rw [hlist] at hget
    exact nomatch hget
  · rw [hlist, List.mem_singleton] at hid hget
    exact absurd (congrArg Prod.fst (hget.trans hid.symm)) hne
  · simp

/-- `initDatasets` builds the primary dataset and copies it to all the others. -/
theorem copies_initDatasets {primary : RxDataset x} (hid : t.datasets[t.primaryId]? = some primary)
    (hmemory : 1 < t.datasets.size →
      ∀ (node : UInt32) (d : RxDataset x), t.datasets[node]? = some d → d.memory.isSome)
    (threads : Nat) :
    ∃ u, t.initDatasets nodeset threads = some u ∧
      u.datasets[t.primaryId]? = some (primary.init t.seed threads).2 ∧
      ∀ (node : UInt32) (d : RxDataset x), node ≠ t.primaryId → u.datasets[node]? = some d →
        d.memory.isSome ∧ d.memory = (primary.init t.seed threads).2.memory := by
  have hcontains : t.datasets.contains t.primaryId = true := by
    rw [TreeMap.contains_eq_isSome_getElem?, hid, Option.isSome_some]
  have hinsert (node : UInt32) :
      (t.datasets.insert t.primaryId (primary.init t.seed threads).2)[node]? =
        if t.primaryId = node then some (primary.init t.seed threads).2 else t.datasets[node]? := by
    simp only [TreeMap.getElem?_insert, LawfulEqCmp.compare_eq_iff_eq]
  have hsize : (t.datasets.insert t.primaryId (primary.init t.seed threads).2).size =
      t.datasets.size := by
    rw [TreeMap.size_insert, if_pos hcontains]
  unfold Storage.initDatasets Storage.dataset
  dsimp only
  rw [if_pos hcontains, if_pos hcontains, hid]
  refine ⟨_, rfl, ?_, fun node d hne hget => ?_⟩
  · dsimp only
    split
    case isTrue => rw [TreeMap.getElem?_map, hinsert, if_pos rfl, Option.map_some, if_pos rfl]
    case isFalse => rw [hinsert, if_pos rfl]
  · dsimp only at hget
    split at hget
    case isTrue hmany =>
      rw [gt_iff_lt, hsize] at hmany
      rw [TreeMap.getElem?_map, hinsert, if_neg hne.symm] at hget
      obtain ⟨item, hitem, rfl⟩ := Option.map_eq_some_iff.mp hget
      obtain ⟨old, hold⟩ := Option.isSome_iff_exists.mp (hmemory hmany _ _ hitem)
      obtain ⟨memory, hraw⟩ := Option.isSome_iff_exists.mp
        ((init_memory_isSome primary t.seed threads).trans (hmemory hmany _ _ hid))
      simp only [if_neg hne, RxDataset.setRaw, hold, hraw, Option.isSome_some, and_self]
    case isFalse hfew =>
      rw [gt_iff_lt, hsize] at hfew
      rw [hinsert, if_neg hne.symm] at hget
      exact absurd (one_lt_size hid hget hne) hfew

end Primary

section Creation

variable {oneGbPages : Bool} {allocations : Allocations nodeset} {s t : Storage x} {node : UInt32}

theorem createDatasets_eq (hs : Pending s) :
    s.createDatasets oneGbPages allocations =
      if (s.joined oneGbPages allocations).isCacheRequired = true then
        if allocations.cache = true then
          (((s.joined oneGbPages allocations).allocateCache true).finish nodeset).map (true, ·)
        else some (false, s.joined oneGbPages allocations)
      else some (true, { s.joined oneGbPages allocations with allocated := true }) := by
  have hcache : (s.joined oneGbPages allocations).cache = none := hs.cache
  unfold Storage.createDatasets
  dsimp only
  split
  case isTrue =>
    unfold Storage.allocateCache
    cases allocations.cache with
    | true => rfl
    | false => simp only [Bool.false_eq_true, if_false, hcache, Option.isNone_none, if_true]
  case isFalse hpages =>
    unfold Storage.finish
    rw [hcache, if_neg fun hempty => hpages (by
      unfold Storage.isCacheRequired
      rw [if_pos hempty])]
    rfl

/-- When `createDatasets` succeeds, it is in slow mode, has given the cache it allocated to the
front node, or has a cache behind a dataset in 1 GB pages. -/
theorem createDatasets_cases (hs : Pending s)
    (h : s.createDatasets oneGbPages allocations = some (true, t)) :
    t.allocated = true ∧
    ((s.joined oneGbPages allocations).datasets.isEmpty = true ∧
        t.datasets = (s.joined oneGbPages allocations).datasets.insertIfNew nodeset.front
          (.ofCache (some { created := true })) ∨
      (s.joined oneGbPages allocations).datasets.contains nodeset.front = true ∧
        t.datasets = (s.joined oneGbPages allocations).datasets.modify nodeset.front
          (RxDataset.setCache { created := true }) ∨
      (s.joined oneGbPages allocations).isCacheRequired = false ∧
        t.datasets = (s.joined oneGbPages allocations).datasets) := by
  rw [createDatasets_eq hs] at h
  split at h
  case isTrue =>
    split at h
    case isTrue =>
      obtain ⟨t', hfinish, ht⟩ := Option.map_eq_some_iff.mp h
      obtain rfl : t' = t := congrArg Prod.snd ht
      unfold Storage.finish Storage.allocateCache at hfinish
      simp only [if_true] at hfinish
      split at hfinish
      case isTrue hempty =>
        obtain rfl := Option.some.inj hfinish
        exact ⟨rfl, .inl ⟨hempty, rfl⟩⟩
      case isFalse =>
        split at hfinish
        case isTrue hfront =>
          obtain rfl := Option.some.inj hfinish
          exact ⟨rfl, .inr (.inl ⟨hfront, rfl⟩)⟩
        case isFalse => exact nomatch hfinish
    case isFalse => exact nomatch congrArg Prod.fst (Option.some.inj h)
  case isFalse hpages =>
    obtain rfl := congrArg Prod.snd (Option.some.inj h)
    exact ⟨rfl, .inr (.inr ⟨Bool.eq_false_iff.mpr hpages, rfl⟩)⟩

/-- A call of `RxNUMAStorage::init` and what the machine answers to it. -/
structure Call (nodeset : NodeSet) where
  seed : RxSeed
  threads : Nat
  oneGbPages : Bool
  allocations : Allocations nodeset

def step (s : Storage x) (call : Call nodeset) : Option (Storage x) :=
  s.init call.seed call.threads call.oneGbPages call.allocations

theorem initDatasets_allocated {threads : Nat} (h : s.initDatasets nodeset threads = some t) :
    t.allocated = s.allocated := by
  obtain ⟨primary, -, ht⟩ := Option.bind_eq_some_iff.mp h
  obtain rfl := Option.some.inj ht
  rfl

/-- Until the datasets are there, failed calls leave datasets in ordinary pages only. -/
theorem pending_of_exec {calls : List (Call nodeset)} (h : exec step {} calls = some s)
    (hs : s.allocated = false) : Pending s := by
  refine (run_of_exec h).invariant (I := fun s => s.allocated = false → Pending s)
    (fun s call t _ ih hstep ht => ?_) (fun _ => ⟨rfl, ?_, ?_⟩) hs
  · unfold step Storage.init at hstep
    dsimp only at hstep
    split at hstep
    case isTrue hallocated =>
      rw [initDatasets_allocated hstep, hallocated] at ht
      exact nomatch ht
    case isFalse hnew =>
      have hpending : Pending (s.setSeed call.seed) := by
        obtain ⟨hcache, hmemory, hpages⟩ := ih (Bool.eq_false_iff.mpr hnew)
        exact ⟨hcache, hmemory, hpages⟩
      obtain ⟨⟨created, t'⟩, hcreate, hrest⟩ := Option.bind_eq_some_iff.mp hstep
      cases created with
      | true =>
        have hinit : t'.initDatasets nodeset call.threads = some t := hrest
        rw [initDatasets_allocated hinit, (createDatasets_cases hpending hcreate).1] at ht
        exact nomatch ht
      | false =>
        obtain rfl : t' = t := Option.some.inj hrest
        rw [createDatasets_eq hpending] at hcreate
        split at hcreate
        case isTrue hrequired =>
          split at hcreate
          case isTrue =>
            obtain ⟨_, -, hbad⟩ := Option.map_eq_some_iff.mp hcreate
            exact nomatch congrArg Prod.fst hbad
          case isFalse =>
            obtain rfl := congrArg Prod.snd (Option.some.inj hcreate)
            exact ⟨hpending.cache, fun _ _ hget => (joined_sound hpending hget).1,
              (isCacheRequired_iff _).mp hrequired⟩
        case isFalse => exact nomatch congrArg Prod.fst (Option.some.inj hcreate)
  · exact fun node d hget => nomatch TreeMap.getElem?_emptyc.symm.trans hget
  · exact fun node d hget => nomatch TreeMap.getElem?_emptyc.symm.trans hget

/-- What a successful `createDatasets` promises: one dataset with a cache is primary, the others
become copies of it, and every node is served. -/
def Served (nodeset : NodeSet) (t : Storage x) : Prop :=
  t.datasets.isEmpty = false ∧
  (∃ primary, t.datasets[t.primaryId]? = some primary ∧ primary.cache.isSome ∧
    ∀ threads, ∃ u, t.initDatasets nodeset threads = some u ∧
      u.datasets[t.primaryId]? = some (primary.init t.seed threads).2 ∧
      ∀ (node : UInt32) (d : RxDataset x), node ≠ t.primaryId → u.datasets[node]? = some d →
        d.memory.isSome ∧ d.memory = (primary.init t.seed threads).2.memory) ∧
  ∀ nodeId, (t.dataset nodeset nodeId).isSome

/-- The front node has a dataset or gets one, or no node gets one in 1 GB pages. -/
def FrontServed (oneGbPages : Bool) (allocations : Allocations nodeset) (s : Storage x) : Prop :=
  s.datasets.contains nodeset.front = true ∨
  (grant allocations.threads oneGbPages nodeset.front).isSome ∨
  ∀ node answers, s.datasets.contains node = false →
    grant allocations.threads oneGbPages node = some answers →
      (oneGbPages && answers.oneGbPages) = false

theorem contains_joined_iff : (s.joined oneGbPages allocations).datasets.contains node = true ↔
    s.datasets.contains node = true ∨ (grant allocations.threads oneGbPages node).isSome := by
  rw [TreeMap.contains_eq_isSome_getElem?, TreeMap.contains_eq_isSome_getElem?, joined_getElem?,
    Option.isSome_or, Option.isSome_map, Bool.or_eq_true]

/-- The datasets in 1 GB pages are new ones. -/
theorem isCacheRequired_joined_iff (hs : Pending s) :
    (s.joined oneGbPages allocations).isCacheRequired = true ↔
      ∀ node answers, s.datasets.contains node = false →
        grant allocations.threads oneGbPages node = some answers →
          (oneGbPages && answers.oneGbPages) = false := by
  rw [isCacheRequired_iff]
  constructor
  · intro hall node answers hnot hgrant
    rw [TreeMap.contains_eq_isSome_getElem?, Option.isSome_eq_false_iff, Option.isNone_iff_eq_none]
      at hnot
    refine (new_oneGbPages answers).symm.trans (hall node (.new oneGbPages answers) ?_)
    rw [joined_getElem?, hnot, hgrant, Option.none_or, Option.map_some]
  · intro hall node d hget
    rw [joined_getElem?] at hget
    rcases Option.or_eq_some_iff.mp hget with hold | ⟨hnone, hnew⟩
    · exact hs.pages _ _ hold
    · obtain ⟨answers, hgrant, rfl⟩ := Option.map_eq_some_iff.mp hnew
      rw [new_oneGbPages]
      refine hall node answers ?_ hgrant
      rw [TreeMap.contains_eq_isSome_getElem?, hnone, Option.isSome_none]

theorem served_of_cache {d : RxDataset x} (hget : t.datasets[node]? = some d)
    (hcache : d.cache.isSome) (hfront : t.datasets.contains nodeset.front = true)
    (hmemory : 1 < t.datasets.size →
      ∀ (node : UInt32) (d : RxDataset x), t.datasets[node]? = some d → d.memory.isSome) :
    Served nodeset t := by
  obtain ⟨primary, hid, hprimary⟩ := primaryId_spec hget hcache
  refine ⟨?_, ⟨primary, hid, hprimary, copies_initDatasets hid hmemory⟩, fun nodeId => ?_⟩
  · exact Bool.eq_false_iff.mpr fun hempty =>
      TreeMap.isEmpty_iff_forall_not_mem.mp hempty _ (TreeMap.mem_iff_contains.mpr hfront)
  · unfold Storage.dataset
    split
    case isTrue hcontains => rwa [← TreeMap.contains_eq_isSome_getElem?]
    case isFalse => rwa [← TreeMap.contains_eq_isSome_getElem?]

/-- What `createDatasets` builds serves every node as long as the front node is served. -/
theorem served_of_frontServed (hs : Pending s) (hfront : FrontServed oneGbPages allocations s)
    (h : s.createDatasets oneGbPages allocations = some (true, t)) : Served nodeset t := by
  obtain ⟨-, ⟨hempty, ht⟩ | ⟨hcontains, ht⟩ | ⟨hrequired, ht⟩⟩ := createDatasets_cases hs h
  · have hnone (node : UInt32) : node ∉ (s.joined oneGbPages allocations).datasets :=
      TreeMap.isEmpty_iff_forall_not_mem.mp hempty node
    have hslow : t.datasets[nodeset.front]? = some (.ofCache (some { created := true })) := by
      rw [ht, TreeMap.getElem?_insertIfNew, if_pos ⟨ReflCmp.compare_self, hnone _⟩]
    refine served_of_cache hslow rfl ?_ fun hsize => ?_
    · rw [TreeMap.contains_eq_isSome_getElem?, hslow, Option.isSome_some]
    · rw [TreeMap.isEmpty_eq_size_eq_zero, beq_iff_eq] at hempty
      rw [ht, TreeMap.size_insertIfNew, if_neg (hnone _), hempty] at hsize
      exact absurd hsize (by decide)
  · rw [TreeMap.contains_eq_isSome_getElem?] at hcontains
    obtain ⟨d, hd⟩ := Option.isSome_iff_exists.mp hcontains
    have hprimary : t.datasets[nodeset.front]? = some (d.setCache { created := true }) := by
      rw [ht, TreeMap.getElem?_modify, if_pos ReflCmp.compare_self, hd, Option.map_some]
    refine served_of_cache hprimary rfl ?_ fun _ node d hget => ?_
    · rw [TreeMap.contains_eq_isSome_getElem?, hprimary, Option.isSome_some]
    · rw [ht, TreeMap.getElem?_modify] at hget
      split at hget
      case isTrue =>
        obtain ⟨old, hold, rfl⟩ := Option.map_eq_some_iff.mp hget
        exact (joined_sound hs hold).1
      case isFalse => exact (joined_sound hs hget).1
  · have hnot := Bool.eq_false_iff.mp hrequired
    have hserved : (s.joined oneGbPages allocations).datasets.contains nodeset.front = true := by
      rw [contains_joined_iff]
      rw [Ne, isCacheRequired_joined_iff hs] at hnot
      exact (or_assoc.mpr hfront).resolve_right hnot
    rw [Ne, isCacheRequired_iff] at hnot
    obtain ⟨node, hnode⟩ := not_forall.mp hnot
    obtain ⟨d, hd⟩ := not_forall.mp hnode
    obtain ⟨hget, hpages⟩ := Classical.not_imp.mp hd
    rw [← ht] at hserved
    refine served_of_cache (ht ▸ hget)
      ((joined_sound hs hget).2 (Bool.not_eq_false _ ▸ hpages)) hserved fun _ node d hget => ?_
    exact (joined_sound hs (ht ▸ hget)).1

/-- In every storage that has no datasets yet, whatever the machine answers, a `createDatasets`
that returns true serves every node exactly when the front node has a dataset or none got 1 GB
pages. -/
theorem createDatasets_serves_iff {calls : List (Call nodeset)}
    (hcalls : exec step ({} : Storage x) calls = some s) (hs : s.allocated = false)
    (oneGbPages : Bool) (allocations : Allocations nodeset) :
    (∀ t, s.createDatasets oneGbPages allocations = some (true, t) → Served nodeset t) ↔
      FrontServed oneGbPages allocations s := by
  have hpending := pending_of_exec hcalls hs
  refine ⟨fun hall => ?_, fun hfront t => served_of_frontServed hpending hfront⟩
  by_contra hnot
  unfold FrontServed at hnot
  rw [← or_assoc, ← contains_joined_iff, ← isCacheRequired_joined_iff hpending, not_or] at hnot
  have hcreate : s.createDatasets oneGbPages allocations =
      some (true, { s.joined oneGbPages allocations with allocated := true }) :=
    (createDatasets_eq hpending).trans (if_neg hnot.2)
  have hserved := (hall _ hcreate).2.2 nodeset.front
  unfold Storage.dataset at hserved
  rw [if_neg hnot.1, ← TreeMap.contains_eq_isSome_getElem?] at hserved
  exact hnot.1 hserved

end Creation

section Instances

/-- Datasets of one number each. -/
def numbers : RandomX where
  Memory := Nat
  mapped := 0
  initDataset seed _ threads _ := seed.data.length + threads

def twoNodes : NodeSet := ⟨0, [1]⟩

/-- Both nodes get ordinary pages and no cache. -/
def noCache : Allocations twoNodes where
  threads := [(1, ⟨true, false, true, false⟩), (0, ⟨true, false, true, false⟩)]
  perm := by decide
  cache := false

/-- The memory of the front node cannot be bound, the other node gets 1 GB pages. -/
def skippedFront : Allocations twoNodes where
  threads := [(0, ⟨false, false, false, false⟩), (1, ⟨true, true, true, true⟩)]
  perm := by decide
  cache := true

theorem createDatasets_serves_iff_retry : ∃ s : Storage numbers,
    s.allocated = false ∧ s.datasets.size = 2 ∧
      ((∀ t, s.createDatasets true skippedFront = some (true, t) → Served twoNodes t) ↔
        FrontServed true skippedFront s) := by
  have hrun : (exec step ({} : Storage numbers) [⟨⟨1, [7]⟩, 4, true, noCache⟩]).map
      (fun s => (s.allocated, s.datasets.size)) = some (false, 2) := by decide +kernel
  obtain ⟨s, hs, hmap⟩ := Option.map_eq_some_iff.mp hrun
  have hallocated : s.allocated = false := congrArg Prod.fst hmap
  exact ⟨s, hallocated, congrArg Prod.snd hmap,
    createDatasets_serves_iff hs hallocated true skippedFront⟩

theorem unserved_front : ¬∀ t : Storage numbers,
    ({} : Storage numbers).createDatasets true skippedFront = some (true, t) →
      Served twoNodes t := by
  intro hall
  have hrun : (({} : Storage numbers).createDatasets true skippedFront).map
      (fun result => (result.1, (result.2.dataset twoNodes 0).isSome)) = some (true, false) := by
    decide +kernel
  obtain ⟨⟨created, t⟩, ht, hmap⟩ := Option.map_eq_some_iff.mp hrun
  obtain rfl : created = true := congrArg Prod.fst hmap
  exact nomatch ((hall t ht).2.2 0).symm.trans (congrArg Prod.snd hmap)

end Instances

end VeloxHash.RxNUMAStorage
