import Mathlib.Data.List.GetD
import VeloxHash.DataSizes
import VeloxHash.Demanding
import VeloxHash.KPHash

/-! `KPCache` and the part of `KPHash::calculate` that depends on it, with the demands of their
indices, divisions and bit scans. Divisions by constants are left out. -/

namespace VeloxHash

open DataSizes Demanding

/-- The light cache; `nodes` is the epoch whose seed hash its memory and its L1 cache were
computed from. The memory is replaced where it is too small. -/
structure KPCache where
  size : ℕ := 0
  epoch : UInt32 := 0xFFFFFFFF
  nodes : Option UInt32 := none
  deriving DecidableEq

namespace KPCache

inductive Demand
  | cacheSizes (i : ℕ)
  | dagSizes (i : ℕ)
  | divide (d : ℕ)
  | clz (a : UInt32)
  | calculate (blockHeight : UInt32) (lightCache : KPCache)
  deriving DecidableEq

/-- What `init` leaves behind for an epoch. -/
def InitialisedFor (c : KPCache) (e : UInt32) : Prop :=
  c.epoch = e ∧ c.nodes = some e ∧ DataSizes.cacheSizes[e.toNat]? = some c.size

instance (c : KPCache) (e : UInt32) : Decidable (c.InitialisedFor e) :=
  inferInstanceAs (Decidable (_ ∧ _ ∧ _))

def epochOf (blockHeight : UInt32) : UInt32 := blockHeight / UInt32.ofNat KPHash.epochLength

/-- Indices are inside the tables, divisors and scanned words are not zero, and the hash is
calculated with the cache of the epoch. -/
def Demand.Holds : Demand → Prop
  | cacheSizes i => i < DataSizes.cacheSizes.length
  | dagSizes i => i < DataSizes.dagSizes.length
  | divide d => d ≠ 0
  | clz a => a ≠ 0
  | calculate blockHeight c => c.InitialisedFor (epochOf blockHeight)

instance : DecidablePred Demand.Holds
  | .cacheSizes i => inferInstanceAs (Decidable (i < DataSizes.cacheSizes.length))
  | .dagSizes i => inferInstanceAs (Decidable (i < DataSizes.dagSizes.length))
  | .divide d => inferInstanceAs (Decidable (d ≠ 0))
  | .clz a => inferInstanceAs (Decidable (a ≠ 0))
  | .calculate blockHeight c => inferInstanceAs (Decidable (c.InitialisedFor (epochOf blockHeight)))

abbrev Checked := Demanding Demand

/-- What lies behind a table is not known; it is read as 0 here. -/
def cacheSizeAt (i : ℕ) : Checked ℕ := do
  demand (.cacheSizes i)
  return DataSizes.cacheSizes.getD i 0

def dagSizeAt (i : ℕ) : Checked ℕ := do
  demand (.dagSizes i)
  return DataSizes.dagSizes.getD i 0

def divide (n d : UInt64) : Checked UInt64 := do
  demand (.divide d.toNat)
  return n / d

def clz (a : UInt32) : Checked UInt32 := do
  demand (.clz a)
  return KPHash.builtinClz a

structure FastMod where
  reciprocal : UInt32
  increment : UInt32
  shift : UInt32

def calculateFastModData (divisor : UInt32) : Checked FastMod := do
  if divisor &&& (divisor - 1) = 0 then
    return ⟨1, 0, 31 - (← clz divisor)⟩
  else
    let shift := 63 - (← clz divisor)
    let n := (1 : UInt64) <<< shift.toUInt64
    let q ← divide n divisor.toUInt64
    let r := n - q * divisor.toUInt64
    if r * 2 < divisor.toUInt64 then
      return ⟨q.toUInt32, 1, shift⟩
    else
      return ⟨(q + 1).toUInt32, 0, shift⟩

/-- `ethash_compute_cache_nodes`, whose rounds reduce modulo the number of nodes. -/
def computeCacheNodes (cacheSize : ℕ) : Checked Bool := do
  if cacheSize % 64 ≠ 0 then
    return false
  else
    demand (.divide (UInt32.ofNat (cacheSize / 64)).toNat)
    return true

/-- The threads share the nodes of the L1 cache out among them. -/
def init (hardwareConcurrency : ℕ) (c : KPCache) (epoch : UInt32) : Checked (Bool × KPCache) := do
  if epoch.toNat ≥ DataSizes.cacheSizes.length then
    return (false, c)
  else if c.epoch = epoch then
    return (true, c)
  else
    let size ← cacheSizeAt epoch.toNat
    let computed ← computeCacheNodes size
    let _ ← calculateFastModData (UInt32.ofNat (size / 64))
    demand (.divide (max hardwareConcurrency 1))
    return (true, ⟨size, epoch, if computed then some epoch else c.nodes⟩)

/-- The shuffle of a random program draws modulo 32 down to 2, twice each. -/
def shuffleDivisors : List Demand :=
  (List.range' 2 (KPHash.regs - 1)).reverse.flatMap fun i => [.divide i, .divide i]

def ethashAccesses : ℕ := 64

/-- `KPHash::calculate`. The operands are those that `random_math` counts the leading zeros of,
whatever the random program makes of the nonce. -/
def calculate (c : KPCache) (blockHeight : UInt32) (operands : List UInt32) : Checked Unit := do
  demand (.calculate blockHeight c)
  demandAll shuffleDivisors
  let dagSize ← dagSizeAt c.epoch.toNat
  let numItems := UInt32.ofNat (dagSize / 128 / 2)
  let _ ← calculateFastModData (UInt32.ofNat (c.size / 64))
  demandAll (List.replicate ethashAccesses (.divide numItems.toNat))
  demandAll ((operands.filter (· ≠ 0)).map .clz)

section Holds

theorem holds_divide (n : UInt64) {d : UInt64} (h : d ≠ 0) : (divide n d).Met Demand.Holds := by
  have hne : d.toNat ≠ 0 := fun hzero => h (UInt64.toNat_inj.mp hzero)
  simpa [divide, Demand.Holds] using hne

/-- The fast modulo can be had for every divisor but 0. -/
theorem holds_fastMod_iff (divisor : UInt32) :
    (calculateFastModData divisor).Met Demand.Holds ↔ divisor ≠ 0 := by
  have hclz : (clz divisor).Met Demand.Holds ↔ divisor ≠ 0 := by
    simp [clz, Demand.Holds]
  constructor
  · intro h
    refine hclz.mp ?_
    unfold calculateFastModData at h
    split at h
    · exact ((met_bind _ _).mp h).1
    · exact ((met_bind _ _).mp h).1
  · intro hne
    have hwide : divisor.toUInt64 ≠ 0 := fun h => hne (by
      have := congrArg UInt64.toUInt32 h
      simpa using this)
    unfold calculateFastModData
    split
    · exact (met_bind _ _).mpr ⟨hclz.mpr hne, met_pure _⟩
    · refine (met_bind _ _).mpr ⟨hclz.mpr hne, (met_bind _ _).mpr ⟨holds_divide _ hwide, ?_⟩⟩
      dsimp only
      split
      · exact met_pure _
      · exact met_pure _

theorem nodes_ne_zero {size : ℕ} (h : size ∈ DataSizes.cacheSizes) :
    UInt32.ofNat (size / 64) ≠ 0 := by
  obtain ⟨-, hle, hlt⟩ := cacheSizes_nodes size h
  intro hzero
  have := congrArg UInt32.toNat hzero
  rw [UInt32.toNat_ofNat_of_lt' hlt, UInt32.toNat_zero] at this
  omega

theorem items_ne_zero {size : ℕ} (h : size ∈ DataSizes.dagSizes) :
    (UInt32.ofNat (size / 128 / 2)).toNat ≠ 0 := by
  obtain ⟨hle, hlt⟩ := dagSizes_items size h
  rw [Nat.div_div_eq_div_mul, UInt32.toNat_ofNat_of_lt' hlt]
  omega

variable {hw : ℕ} {c : KPCache} {epoch : UInt32}

/-- Nothing was computed yet, or all of it for one epoch. -/
def Consistent (c : KPCache) : Prop := c = {} ∨ ∃ e, c.InitialisedFor e

theorem InitialisedFor.lt (h : c.InitialisedFor epoch) : epoch.toNat < 2048 := by
  have := (List.getElem?_eq_some_iff.mp h.2.2).1
  rwa [length_cacheSizes] at this

theorem InitialisedFor.size_mem (h : c.InitialisedFor epoch) : c.size ∈ DataSizes.cacheSizes :=
  List.mem_of_getElem? h.2.2

/-- `init` asks for nothing it does not get. -/
theorem holds_init (hw : ℕ) (c : KPCache) (epoch : UInt32) :
    (c.init hw epoch).Met Demand.Holds := by
  unfold init
  split
  · exact met_pure _
  · next hlt =>
    split
    · exact met_pure _
    · have hlt : epoch.toNat < DataSizes.cacheSizes.length := Nat.not_le.mp hlt
      have hmem : DataSizes.cacheSizes.getD epoch.toNat 0 ∈ DataSizes.cacheSizes := by
        rw [List.getD_eq_getElem _ _ hlt]
        exact List.getElem_mem hlt
      have hne := nodes_ne_zero hmem
      have hnodes : (computeCacheNodes (DataSizes.cacheSizes.getD epoch.toNat 0)).Met
          Demand.Holds := by
        unfold computeCacheNodes
        split
        · exact met_pure _
        · refine (met_bind _ _).mpr ⟨(met_demand _).mpr fun h => hne ?_, met_pure _⟩
          exact UInt32.toNat_inj.mp h
      refine (met_bind _ _).mpr ⟨(met_bind _ _).mpr ⟨(met_demand _).mpr hlt, met_pure _⟩, ?_⟩
      refine (met_bind _ _).mpr ⟨hnodes, ?_⟩
      refine (met_bind _ _).mpr ⟨(holds_fastMod_iff _).mpr hne, ?_⟩
      refine (met_bind _ _).mpr ⟨(met_demand _).mpr ?_, met_pure _⟩
      change max hw 1 ≠ 0
      omega

theorem value_init_ge (hge : 2048 ≤ epoch.toNat) : (c.init hw epoch).value = (false, c) := by
  unfold init
  rw [if_pos (length_cacheSizes ▸ hge)]
  rfl

theorem value_init_lt (hc : c.Consistent) (hlt : epoch.toNat < 2048) :
    (c.init hw epoch).value.2.InitialisedFor epoch := by
  have hlt' : epoch.toNat < DataSizes.cacheSizes.length := length_cacheSizes ▸ hlt
  have hget : DataSizes.cacheSizes[epoch.toNat]? =
      some (DataSizes.cacheSizes.getD epoch.toNat 0) := by
    rw [List.getD_eq_getElem _ _ hlt', List.getElem?_eq_getElem hlt']
  unfold init
  rw [if_neg (Nat.not_le.mpr hlt')]
  split
  · next heq =>
    rcases hc with rfl | ⟨e, he⟩
    · rw [← heq] at hlt
      exact absurd hlt (by decide)
    · obtain rfl : e = epoch := he.1.symm.trans heq
      exact he
  · have hnodes : (computeCacheNodes (DataSizes.cacheSizes.getD epoch.toNat 0)).value = true := by
      unfold computeCacheNodes
      rw [if_neg (not_not.mpr (cacheSizes_nodes _ (List.mem_of_getElem? hget)).1)]
      rfl
    refine ⟨rfl, ?_, hget⟩
    change (if (computeCacheNodes (DataSizes.cacheSizes.getD epoch.toNat 0)).value = true then
      some epoch else c.nodes) = some epoch
    rw [if_pos hnodes]

/-- `init` for an epoch behind the tables leaves the cache as it is. -/
theorem Consistent.init (hc : c.Consistent) (hw : ℕ) (epoch : UInt32) :
    (c.init hw epoch).value.2.Consistent := by
  rcases Nat.lt_or_ge epoch.toNat 2048 with hlt | hge
  · exact .inr ⟨epoch, value_init_lt hc hlt⟩
  · rw [value_init_ge hge]
    exact hc

theorem holds_shuffleDivisors : ∀ d ∈ shuffleDivisors, d.Holds := by decide

/-- The cache of the right epoch is all that `calculate` needs. -/
theorem holds_calculate {blockHeight : UInt32} (h : c.InitialisedFor (epochOf blockHeight))
    (operands : List UInt32) : (c.calculate blockHeight operands).Met Demand.Holds := by
  have hlt : c.epoch.toNat < DataSizes.dagSizes.length := by
    rw [length_dagSizes, h.1]
    exact h.lt
  have hmem : DataSizes.dagSizes.getD c.epoch.toNat 0 ∈ DataSizes.dagSizes := by
    rw [List.getD_eq_getElem _ _ hlt]
    exact List.getElem_mem hlt
  have hitems : ∀ d ∈ List.replicate ethashAccesses (Demand.divide
      (UInt32.ofNat (DataSizes.dagSizes.getD c.epoch.toNat 0 / 128 / 2)).toNat), d.Holds := by
    intro d hd
    rw [List.eq_of_mem_replicate hd]
    exact items_ne_zero hmem
  have hclz : ∀ d ∈ (operands.filter (· ≠ 0)).map Demand.clz, d.Holds := by
    intro d hd
    obtain ⟨a, ha, rfl⟩ := List.mem_map.mp hd
    exact of_decide_eq_true (List.mem_filter.mp ha).2
  refine (met_bind _ _).mpr ⟨(met_demand _).mpr h, (met_bind _ _).mpr ⟨holds_shuffleDivisors, ?_⟩⟩
  refine (met_bind _ _).mpr ⟨(met_bind _ _).mpr ⟨(met_demand _).mpr hlt, met_pure _⟩, ?_⟩
  refine (met_bind _ _).mpr ⟨(holds_fastMod_iff _).mpr (nodes_ne_zero h.size_mem), ?_⟩
  exact (met_bind _ _).mpr ⟨hitems, hclz⟩

end Holds

end KPCache

end VeloxHash
