import VeloxHash.RxBasicStorage
import VeloxHash.TransitionSystem
import Mathlib.Tactic

/-! Where the content of a dataset handed out comes from. Three memos decide what an init
recomputes: the seed of the storage, the algorithm the configuration was applied for, and
the seed of the cache, which knows nothing of the algorithm. -/

namespace VeloxHash.RxBasicStorage

open TransitionSystem

section Items

variable {p : Platform} {item : ItemContent} {items r : Items}

/-- The items from `lo` to `hi` hold `item`, and no other item lost it. -/
structure Writes (item : ItemContent) (lo hi : Nat) (items r : Items) : Prop where
  filled : ∀ i, lo ≤ i → i < hi → r i = some item
  keeps : ∀ i, items i = some item → r i = some item

theorem randomxInitDataset_writes {start count : Nat}
    (h : randomxInitDataset item start count items = some r) :
    Writes item start (start + count) items r ∧ start + count ≤ datasetItemCount := by
  obtain ⟨⟨-, -, hbound⟩, hr⟩ := Option.ite_none_right_eq_some.mp h
  obtain rfl := Option.some.inj hr
  refine ⟨⟨fun i hlo hhi => by simp [hlo, hhi], fun i hi => ?_⟩, hbound⟩
  by_cases hin : start ≤ i ∧ i < start + count
  · simp [hin]
  · simp [hin, hi]

/-- The last batch of a range that ends below the batch size would start beyond the end. -/
theorem initBatches_writes {batch start count : Nat} (hbatch : 0 < batch ∧ batch ≤ 5)
    (hbound : start + count ≤ datasetItemCount)
    (h : initBatches batch item start count items = some r) :
    Writes item start (start + count) items r := by
  obtain ⟨m, hm, hr⟩ := Option.bind_eq_some_iff.mp h
  obtain ⟨hwhole, -⟩ := randomxInitDataset_writes hm
  obtain ⟨htail, hlast⟩ := randomxInitDataset_writes hr
  have hsmall : datasetItemCount < 2 ^ 32 - 5 := by decide
  have hmod := Nat.mod_lt count hbatch.1
  have hle := Nat.mod_le count batch
  have hlong : batch ≤ start + count := by
    by_contra hshort
    rw [Nat.mod_eq_of_lt (show start + count + (2 ^ 32 - batch) < 2 ^ 32 by omega)] at hlast
    omega
  rw [show (start + count + (2 ^ 32 - batch)) % 2 ^ 32 = start + count - batch by omega] at htail
  refine ⟨fun i hlo hhi => ?_, fun i hi => htail.keeps i (hwhole.keeps i hi)⟩
  by_cases hi : i < start + (count - count % batch)
  · exact htail.keeps i (hwhole.filled i hlo hi)
  · exact htail.filled i (by omega) (by omega)

theorem initDatasetWrapper_writes {start count : Nat} (hbound : start + count ≤ datasetItemCount)
    (h : initDatasetWrapper p item start count items = some r) :
    Writes item start (start + count) items r := by
  unfold initDatasetWrapper at h
  split_ifs at h
  · exact initBatches_writes (by decide) hbound h
  · exact initBatches_writes (by decide) hbound h
  · exact (randomxInitDataset_writes h).1

theorem sliceStart_mono (n k : Nat) : sliceStart n k ≤ sliceStart n (k + 1) :=
  Nat.div_le_div_right (Nat.mul_le_mul_left _ (Nat.le_succ k))

theorem sliceStart_le {n k : Nat} (hk : k ≤ n) : sliceStart n k ≤ datasetItemCount :=
  Nat.div_le_of_le_mul (by rw [Nat.mul_comm n]; exact Nat.mul_le_mul_left _ hk)

theorem sliceStart_self {n : Nat} (hn : 0 < n) : sliceStart n n = datasetItemCount :=
  Nat.mul_div_cancel _ hn

theorem initSlices_filled {n k : Nat} (hk : k ≤ n)
    (h : initSlices p item n k items = some r) :
    ∀ i < sliceStart n k, r i = some item := by
  induction k generalizing r with
  | zero => simp [sliceStart]
  | succ k ih =>
    obtain ⟨m, hm, hr⟩ := Option.bind_eq_some_iff.mp h
    have hmono := sliceStart_mono n k
    have hend : sliceStart n k + (sliceStart n (k + 1) - sliceStart n k) =
        sliceStart n (k + 1) := by omega
    have hwrites := initDatasetWrapper_writes (hend.trans_le (sliceStart_le hk)) hr
    intro i hi
    by_cases hlow : i < sliceStart n k
    · exact hwrites.keeps i (ih (by omega) hm i hlow)
    · exact hwrites.filled i (by omega) (by omega)

/-- Every item is computed, however the work is cut into threads. -/
theorem initItems_filled {numThreads : UInt32}
    (h : initItems p item numThreads items = some r) :
    ∀ i < datasetItemCount, r i = some item := by
  unfold initItems at h
  split_ifs at h with hmany
  · intro i hi
    rw [← sliceStart_self (show 0 < numThreads.toNat by omega)] at hi
    exact initSlices_filled le_rfl h i hi
  · intro i hi
    exact (initDatasetWrapper_writes (by omega) h).filled i (Nat.zero_le i) (by omega)

end Items

/-- One call of `RxBasicStorage::init`. -/
structure Call where
  item : RxQueueItem
  allocation : Allocation

def step (p : Platform) (s : Storage) (c : Call) : Option Storage := s.init p c.item c.allocation

/-- The cache was computed from `seed` under the configuration of its algorithm, and so was
every item of the dataset if there is one. -/
structure ComputedFor (seed : RxSeed) (d : RxDataset) : Prop where
  cache : ∃ cache, d.cache = some cache ∧
    cache.cache = some ⟨some ⟨seed.data, some (RxAlgo.base seed.algorithm)⟩⟩
  items : ∀ items, d.dataset = some items → ∀ i < datasetItemCount,
    items i = some ⟨some ⟨seed.data, some (RxAlgo.base seed.algorithm)⟩,
      some (RxAlgo.base seed.algorithm)⟩

/-- What every dataset handed out must be. -/
def Sound (s : Storage) : Prop :=
  ∀ job d, s.datasetFor job = some d → ComputedFor job d

/-- If the cache will find its own seed bytes again, the configuration is the one of the
preceding call; a cache just created has the empty seed. -/
def KeepsConfiguration (s : Storage) (c : Call) : Prop :=
  match s.dataset with
  | none => Storage.created c.item c.allocation ≠ none → c.item.seed.data ≠ []
  | some d => d.cache.map RxCache.seed = some c.item.seed.data →
      RxAlgo.base c.item.seed.algorithm = RxAlgo.base s.seed.algorithm

section Call

variable {p : Platform} {s t : Storage} {c : Call} {d : RxDataset}

theorem cache_init_cache (cache : RxCache) (content : RandomxCache)
    (hcache : cache.cache = some content) (config : CurrentConfig) (seed : List UInt8) :
    (cache.init config seed).seed = seed ∧
      (cache.init config seed).cache =
        some (if cache.seed = seed then content else ⟨some ⟨seed, config⟩⟩) := by
  unfold RxCache.init
  split_ifs with hseed
  · exact ⟨hseed, hcache⟩
  · exact ⟨rfl, by rw [hcache]; rfl⟩

/-- An init of a dataset whose cache is allocated succeeds and computes every item from the
cache as the early return of `RxCache::init` leaves it. -/
theorem dataset_init {cache : RxCache} {content : RandomxCache} (hd : d.cache = some cache)
    (hcache : cache.cache = some content) {config : CurrentConfig} {seed : List UInt8}
    {numThreads : UInt32} {result : Bool × RxDataset}
    (h : d.init p config seed numThreads = some result) :
    result.1 = true ∧ result.2.cache = some (cache.init config seed) ∧
      ∀ items, result.2.dataset = some items → ∀ i < datasetItemCount,
        items i = some ⟨(cache.init config seed).cache.bind (·.content), config⟩ := by
  simp only [RxDataset.init, hd, hcache, Option.isNone_some, Bool.false_eq_true, if_false] at h
  cases hitems : d.dataset with
  | none =>
    rw [hitems] at h
    obtain rfl := Option.some.inj h
    exact ⟨rfl, rfl, fun items hsome => by simp at hsome⟩
  | some old =>
    rw [hitems] at h
    obtain ⟨new, hnew, rfl⟩ := Option.map_eq_some_iff.mp h
    refine ⟨rfl, rfl, fun items hsome => ?_⟩
    obtain rfl := Option.some.inj hsome
    exact initItems_filled hnew

structure Inv (s : Storage) : Prop where
  applied : s.seed.algorithm ≠ .invalid → s.config = some (RxAlgo.base s.seed.algorithm)
  notReady : s.dataset = none → s.ready = false
  computed : ∀ d, s.dataset = some d → ComputedFor s.seed d ∧
    d.cache.map RxCache.seed = some s.seed.data

theorem inv_start : Inv {} where
  applied h := absurd rfl h
  notReady _ := rfl
  computed := nofun

theorem setSeed_config (hs : Inv s) {seed : RxSeed} (hseed : seed.algorithm.isRandomX = true) :
    (s.setSeed seed).config = some (RxAlgo.base seed.algorithm) := by
  by_cases hsame : s.seed.algorithm = seed.algorithm
  · have hvalid : s.seed.algorithm ≠ .invalid := by
      intro hinvalid
      rw [← hsame, hinvalid, Algorithm.not_isRandomX_invalid] at hseed
      cases hseed
    simp only [Storage.setSeed, hsame, ne_eq, not_true, if_false]
    rw [hs.applied hvalid, hsame]
  · simp [Storage.setSeed, hsame]

/-- What the cache of the dataset under an init holds before it. -/
def heldContent (s : Storage) : Option CacheContent :=
  s.dataset.map fun _ => ⟨s.seed.data, some (RxAlgo.base s.seed.algorithm)⟩

theorem target_cache (hs : Inv s) (h : s.target c.item c.allocation = some d) :
    ∃ cache, d.cache = some cache ∧ cache.cache = some ⟨heldContent s⟩ ∧
      (cache.seed = c.item.seed.data → KeepsConfiguration s c →
        heldContent s =
          some ⟨c.item.seed.data, some (RxAlgo.base c.item.seed.algorithm)⟩) ∧
      (¬ KeepsConfiguration s c → cache.seed = c.item.seed.data ∧ heldContent s ≠
        some ⟨c.item.seed.data, some (RxAlgo.base c.item.seed.algorithm)⟩) := by
  cases hdataset : s.dataset with
  | none =>
    have hcreated : Storage.created c.item c.allocation = some d := by
      simpa [Storage.target, hdataset] using h
    obtain ⟨hsome, rfl⟩ : _ ∧ RxDataset.create c.item.oneGbPages c.item.mode c.allocation = d := by
      simpa [Storage.created] using hcreated
    refine ⟨_, rfl, ?_, ?_, ?_⟩
    · simp only [heldContent, hdataset, Option.map_none]
      simp only [RxDataset.create, RxCache.create, Option.bind_some] at hsome ⊢
      split_ifs at hsome ⊢ with hmemory
      · rfl
      · simp at hsome
    · intro hseed hkeeps
      simp only [KeepsConfiguration, hdataset] at hkeeps
      exact absurd hseed.symm (hkeeps (by simp [hcreated]))
    · intro hkeeps
      simp only [KeepsConfiguration, hdataset, Classical.not_imp, not_not] at hkeeps
      exact ⟨hkeeps.2.symm, by simp [heldContent, hdataset]⟩
  | some old =>
    obtain rfl : old = d := by simpa [Storage.target, hdataset] using h
    obtain ⟨⟨⟨cache, hcache, hcontent⟩, -⟩, hseed⟩ := hs.computed old hdataset
    have hheld : cache.seed = s.seed.data := by simpa [hcache] using hseed
    have hkeeps : KeepsConfiguration s c ↔ (cache.seed = c.item.seed.data →
        RxAlgo.base c.item.seed.algorithm = RxAlgo.base s.seed.algorithm) := by
      simp [KeepsConfiguration, hdataset, hcache]
    refine ⟨cache, hcache, ?_, ?_, ?_⟩
    · simp [heldContent, hdataset, hcontent]
    · intro hsame hk
      rw [heldContent, hdataset, Option.map_some, hkeeps.mp hk hsame, ← hsame, hheld]
    · intro hk
      rw [hkeeps, Classical.not_imp] at hk
      refine ⟨hk.1, fun heq => hk.2 ?_⟩
      simp only [heldContent, hdataset, Option.map_some, Option.some.injEq,
        CacheContent.mk.injEq] at heq
      exact heq.2.symm

/-- A call that finds no memory leaves the storage without a dataset; any other leaves one
that is right for the seed of the call exactly when the call keeps the configuration. -/
theorem step_result (hs : Inv s) (hfamily : c.item.seed.algorithm.isRandomX = true)
    (h : step p s c = some t) :
    (t = s.setSeed c.item.seed ∧ s.dataset = none ∧ KeepsConfiguration s c) ∨
    ∃ d, t.dataset = some d ∧ t.ready = true ∧ t.seed = c.item.seed ∧
      t.config = some (RxAlgo.base c.item.seed.algorithm) ∧
      d.cache.map RxCache.seed = some c.item.seed.data ∧
      (ComputedFor c.item.seed d ↔ KeepsConfiguration s c) := by
  cases htarget : s.target c.item c.allocation with
  | none =>
    left
    simp only [step, Storage.init, htarget, Option.some.injEq] at h
    have hnone : s.dataset = none ∧ Storage.created c.item c.allocation = none := by
      cases hdataset : s.dataset <;> simp_all [Storage.target]
    exact ⟨h.symm, hnone.1, by simp [KeepsConfiguration, hnone]⟩
  | some d =>
    right
    simp only [step, Storage.init, htarget, Storage.initDataset] at h
    obtain ⟨result, hresult, rfl⟩ := Option.map_eq_some_iff.mp h
    obtain ⟨cache, hcache, hcontent, hkept, hstale⟩ := target_cache hs htarget
    rw [setSeed_config hs hfamily, show (s.setSeed c.item.seed).seed = c.item.seed from rfl]
      at hresult
    obtain ⟨hready, hnew, hitems⟩ := dataset_init hcache hcontent hresult
    obtain ⟨hseed, hfilled⟩ := cache_init_cache cache _ hcontent
      (some (RxAlgo.base c.item.seed.algorithm)) c.item.seed.data
    refine ⟨result.2, rfl, hready, rfl, setSeed_config hs hfamily, ?_, ?_⟩
    · rw [hnew, Option.map_some, hseed]
    · constructor
      · rintro ⟨⟨after, hafter, hright⟩, -⟩
        by_contra hk
        obtain ⟨hsame, hwrong⟩ := hstale hk
        obtain rfl := Option.some.inj (hafter.symm.trans hnew)
        rw [hfilled, if_pos hsame] at hright
        exact hwrong (by simpa using hright)
      · intro hk
        have hright : (cache.init (some (RxAlgo.base c.item.seed.algorithm))
            c.item.seed.data).cache =
              some ⟨some ⟨c.item.seed.data, some (RxAlgo.base c.item.seed.algorithm)⟩⟩ := by
          rw [hfilled]
          split_ifs with hsame
          · rw [hkept hsame hk]
          · rfl
        refine ⟨⟨_, hnew, hright⟩, fun items hsome i hi => ?_⟩
        rw [hitems items hsome i hi, hright]
        rfl

theorem inv_step (hs : Inv s) (hfamily : c.item.seed.algorithm.isRandomX = true)
    (hkeeps : KeepsConfiguration s c) (h : step p s c = some t) : Inv t := by
  rcases step_result hs hfamily h with
    ⟨rfl, hnone, -⟩ | ⟨d, hd, hready, hseed, hconfig, hcache, hright⟩
  · exact ⟨fun _ => setSeed_config hs hfamily, fun _ => rfl, fun d hd => by
      simp [Storage.setSeed, hnone] at hd⟩
  · refine ⟨fun _ => by rw [hconfig, hseed], fun hnone => by simp [hd] at hnone, fun d' hd' => ?_⟩
    obtain rfl := Option.some.inj (hd'.symm.trans hd)
    rw [hseed]
    exact ⟨hright.mpr hkeeps, hcache⟩

theorem sound_of_inv (hs : Inv s) : Sound s := by
  intro job d h
  obtain ⟨hready, hd⟩ := Option.ite_none_right_eq_some.mp h
  have hjob : s.seed = job := by simp_all [Storage.isReady]
  rw [← hjob]
  exact (hs.computed d hd).1

theorem sound_step_iff (hs : Inv s) (hfamily : c.item.seed.algorithm.isRandomX = true)
    (h : step p s c = some t) : Sound t ↔ KeepsConfiguration s c := by
  refine ⟨fun hsound => ?_, fun hkeeps => sound_of_inv (inv_step hs hfamily hkeeps h)⟩
  rcases step_result hs hfamily h with ⟨-, -, hkeeps⟩ | ⟨d, hd, hready, hseed, -, -, hright⟩
  · exact hkeeps
  · exact hright.mp (hsound _ d (by simp [Storage.datasetFor, Storage.isReady, hready, hseed, hd]))

end Call

/-- After calls that each keep the configuration, every dataset handed out was computed for
the job it is handed out for, and the next call leaves it so exactly when it keeps the
configuration too. -/
theorem dataset_source {p : Platform} {calls : List Call} {s : Storage}
    (hrun : Run (step p) (fun s c => c.item.seed.algorithm.isRandomX = true ∧
      KeepsConfiguration s c) {} calls s) :
    Sound s ∧ ∀ c t, c.item.seed.algorithm.isRandomX = true → step p s c = some t →
      (Sound t ↔ KeepsConfiguration s c) := by
  have hs : Inv s := hrun.invariant
    (fun _ _ _ hguard hinv hstep => inv_step hinv hguard.1 hguard.2 hstep) inv_start
  exact ⟨sound_of_inv hs, fun _ _ hfamily hstep => sound_step_iff hs hfamily hstep⟩

/-- A call in fast mode that is granted all it asks for. -/
def granted (algorithm : Algorithm) (data : List UInt8) : Call where
  item := ⟨true, false, -1, .fast, ⟨algorithm, data⟩, [], 1⟩
  allocation := ⟨true, true, false, true, true, true⟩

/-- After one seed for `rx/0`, the same bytes for `rx/wow` are the call that breaks it. -/
theorem dataset_source_two_coins :
    ∃ s, exec (step ⟨true, false⟩) {} [granted .rx0 (List.replicate 32 7)] = some s ∧ Sound s ∧
      ∀ t, step ⟨true, false⟩ s (granted .rxWow (List.replicate 32 7)) = some t → ¬ Sound t := by
  obtain ⟨s, hs⟩ := Option.isSome_iff_exists.mp (show (step ⟨true, false⟩ {}
    (granted .rx0 (List.replicate 32 7))).isSome from by decide)
  have hfirst : KeepsConfiguration {} (granted .rx0 (List.replicate 32 7)) :=
    fun _ => by decide
  obtain ⟨hsound, hnext⟩ := dataset_source (.cons ⟨by decide, hfirst⟩ hs (.nil s))
  refine ⟨s, by rw [exec, hs]; rfl, hsound, fun t ht hbad => ?_⟩
  have hkeeps := (hnext _ t (by decide) ht).mp hbad
  obtain rfl := Option.some.inj hs
  exact absurd (hkeeps rfl) (by decide)

/-- The dataset handed out for `rx/wow` has the cache computed for `rx/0`. -/
theorem same_seed_two_coins :
    ¬ ∀ (p : Platform) (calls : List Call) (s : Storage),
      (∀ c ∈ calls, c.item.seed.algorithm.isRandomX = true) →
      exec (step p) {} calls = some s → Sound s := by
  intro h
  have hsound := h ⟨true, false⟩
    [granted .rx0 (List.replicate 32 7), granted .rxWow (List.replicate 32 7)] _
    (by decide) rfl ⟨.rxWow, List.replicate 32 7⟩ _ rfl
  obtain ⟨⟨cache, hcache, hcontent⟩, -⟩ := hsound
  obtain rfl := Option.some.inj hcache
  revert hcontent
  decide

end VeloxHash.RxBasicStorage
