import VeloxHash.MemoryPool
import VeloxHash.TransitionSystem

/-! The pools of `VirtualMemory`, of which there is one for each NUMA node, and what their users
hold of them. -/

namespace VeloxHash

structure NUMAMemoryPool where
  nodeSize : Nat
  size : Nat
  map : Nat → Option MemoryPool := fun _ => none

namespace NUMAMemoryPool

def create (nodes size : Nat) : NUMAMemoryPool where
  nodeSize := max (size / nodes) 1
  size := size

/-- `getOrCreate`; the memory of a new pool is `a`. -/
def getOrCreate (m : NUMAMemoryPool) (hugePageSize node : Nat) (a : Mapping) :
    NUMAMemoryPool × MemoryPool :=
  match m.map node with
  | some pool => (m, pool)
  | none =>
    let pool := MemoryPool.create hugePageSize m.nodeSize a
    ({ m with map := Function.update m.map node (some pool) }, pool)

def isHugePages (m : NUMAMemoryPool) (hugePageSize node : Nat) (a : Mapping) :
    NUMAMemoryPool × Bool :=
  if m.size = 0 then (m, false)
  else
    let (m, pool) := m.getOrCreate hugePageSize node a
    (m, pool.isHugePages)

def get (m : NUMAMemoryPool) (hugePageSize size node : Nat) (a : Mapping) :
    NUMAMemoryPool × Nat :=
  if m.size = 0 then (m, 0)
  else
    let (m, pool) := m.getOrCreate hugePageSize node a
    let (pool, out) := pool.get size
    ({ m with map := Function.update m.map node (some pool) }, out)

def release (m : NUMAMemoryPool) (node : Nat) : NUMAMemoryPool :=
  match m.map node with
  | some pool => { m with map := Function.update m.map node (some pool.release) }
  | none => m

end NUMAMemoryPool

inductive IMemoryPool
  | single (p : MemoryPool)
  | numa (m : NUMAMemoryPool)

namespace IMemoryPool

/-- `VirtualMemory::init` on a machine of some nodes. -/
def init (hugePageSize nodes poolSize : Nat) (a : Mapping) : IMemoryPool :=
  if 1 < nodes then .numa (.create nodes (VirtualMemory.align poolSize nodes))
  else .single (.create hugePageSize poolSize a)

def isHugePages (hugePageSize node : Nat) (a : Mapping) : IMemoryPool → IMemoryPool × Bool
  | .single p => (.single p, p.isHugePages)
  | .numa m => ((m.isHugePages hugePageSize node a).map .numa id)

def get (hugePageSize size node : Nat) (a : Mapping) : IMemoryPool → IMemoryPool × Nat
  | .single p => (p.get size).map .single id
  | .numa m => (m.get hugePageSize size node a).map .numa id

def release (node : Nat) : IMemoryPool → IMemoryPool
  | .single p => .single p.release
  | .numa m => .numa (m.release node)

/-- Which of the pools serves a node. -/
def slot (node : Nat) : IMemoryPool → Nat
  | .single _ => 0
  | .numa _ => node

def pools : IMemoryPool → Nat → Option MemoryPool
  | .single p => Function.update (fun _ => none) 0 (some p)
  | .numa m => m.map

/-- The pages of the pool that a call for a node creates. -/
def creates (node : Nat) : IMemoryPool → Option Nat
  | .single _ => none
  | .numa m => if m.size ≠ 0 ∧ m.map node = none then some m.nodeSize else none

end IMemoryPool

/-- The pools with the regions of each that its users hold, and those that they were given since
they last held none. -/
structure PoolUsers where
  pool : IMemoryPool
  held : Nat → List Region := fun _ => []
  taken : Nat → List Region := fun _ => []

namespace PoolUsers

open TransitionSystem MemoryPool

inductive Call
  | isHugePages (node : Nat) (a : Mapping)
  | get (size node : Nat) (a : Mapping)
  | release (node : Nat) (r : Region)
  deriving DecidableEq, Repr

/-- The memory that a call is given, should it create a pool, and the node that it is for. -/
def Call.mapping : Call → Option (Nat × Mapping)
  | .isHugePages node a => some (node, a)
  | .get _ node a => some (node, a)
  | .release _ _ => none

/-- A user gives back what it got, unless that was null. -/
def step (hugePageSize : Nat) (s : PoolUsers) : Call → Option PoolUsers
  | .isHugePages node a => some { s with pool := (s.pool.isHugePages hugePageSize node a).1 }
  | .get size node a =>
    let (pool, out) := s.pool.get hugePageSize size node a
    let k := s.pool.slot node
    if out = 0 then some { s with pool }
    else
      some {
        pool
        held := Function.update s.held k (⟨out, size⟩ :: s.held k)
        taken := Function.update s.taken k (⟨out, size⟩ :: s.taken k) }
  | .release node r =>
    let k := s.pool.slot node
    if r ∈ s.held k then
      let held := (s.held k).erase r
      some {
        pool := s.pool.release node
        held := Function.update s.held k held
        taken := Function.update s.taken k (if held = [] then [] else s.taken k) }
    else none

/-- What the allocator promises of memory that it gives: it lies below the end of the address
space and apart from the memory of the pools. -/
def Fresh (s : PoolUsers) (v : VirtualMemory) : Prop :=
  v.scratchpad + v.size < 2 ^ 64 ∧
    ∀ k p w, s.pool.pools k = some p → p.memory = some w → v.region.Apart w.region

def Promised (hugePageSize : Nat) (s : PoolUsers) (c : Call) : Prop :=
  ∀ node a size, c.mapping = some (node, a) → s.pool.creates node = some size →
    0 < a.scratchpad → s.Fresh (memoryOf hugePageSize size a)

/-- A pool that the call creates gets its memory. -/
def Backed (s : PoolUsers) (c : Call) : Prop :=
  ∀ node a, c.mapping = some (node, a) → (s.pool.creates node).isSome → 0 < a.scratchpad

structure Sound (s : PoolUsers) : Prop where
  apart : ∀ k l, k ≠ l → ∀ r ∈ s.held k, ∀ t ∈ s.held l, r.Apart t
  pairwise : ∀ k, (s.held k).Pairwise Region.Apart
  inside : ∀ k, ∀ r ∈ s.held k, ∃ p v, s.pool.pools k = some p ∧ p.memory = some v ∧
    0 < v.scratchpad ∧ r.Within v.region
  /-- No difference of offsets wraps. -/
  offset : ∀ k p v, s.pool.pools k = some p → p.memory = some v →
    p.offset + p.alignOffset ≤ v.size
  /-- What was handed out is not handed out again while a region of the pool is held. -/
  reuse : ∀ k, (s.taken k).Pairwise Region.Apart ∧ ∀ r ∈ s.held k, r ∈ s.taken k

/-- A pool without memory has nothing held of it. -/
def Keeps (p : MemoryPool) (held taken : List Region) : Prop :=
  (p.memory = none ∧ held = [] ∧ taken = []) ∨ ∃ v, p.Accounts v held taken

structure Inv (pools : Nat → Option MemoryPool) (held taken : Nat → List Region) : Prop where
  keeps : ∀ k p, pools k = some p → Keeps p (held k) (taken k)
  none : ∀ k, pools k = none → held k = [] ∧ taken k = []
  apart : ∀ k l p q v w, k ≠ l → pools k = some p → pools l = some q → p.memory = some v →
    q.memory = some w → v.region.Apart w.region

variable {pools : Nat → Option MemoryPool} {held taken : Nat → List Region} {k : Nat}
  {p : MemoryPool}

/-- A pool changes, or comes to the others. -/
theorem Inv.update {hs ts : List Region} (h : Inv pools held taken) (hkeeps : Keeps p hs ts)
    (hnew : ∀ l q v w, l ≠ k → pools l = some q → p.memory = some v → q.memory = some w →
      v.region.Apart w.region) :
    Inv (Function.update pools k (some p)) (Function.update held k hs)
      (Function.update taken k ts) where
  keeps l q hq := by
    by_cases hl : l = k
    · subst hl
      rw [Function.update_self] at hq ⊢
      rw [Function.update_self, ← Option.some.inj hq]
      exact hkeeps
    · rw [Function.update_of_ne hl] at hq ⊢
      rw [Function.update_of_ne hl]
      exact h.keeps l q hq
  none l hl := by
    by_cases hk : l = k
    · rw [hk, Function.update_self] at hl
      exact nomatch hl
    · rw [Function.update_of_ne hk] at hl ⊢
      rw [Function.update_of_ne hk]
      exact h.none l hl
  apart i j q r v w hij hq hr hv hw := by
    by_cases hi : i = k
    · subst hi
      rw [Function.update_self] at hq
      rw [Function.update_of_ne hij.symm] at hr
      exact hnew j r v w hij.symm hr (Option.some.inj hq ▸ hv) hw
    · rw [Function.update_of_ne hi] at hq
      by_cases hj : j = k
      · subst hj
        rw [Function.update_self] at hr
        exact (hnew i q w v hi hq (Option.some.inj hr ▸ hw) hv).symm
      · rw [Function.update_of_ne hj] at hr
        exact h.apart i j q r v w hij hq hr hv hw

/-- A pool changes that keeps its memory. -/
theorem Inv.set {q : MemoryPool} {hs ts : List Region} (h : Inv pools held taken)
    (hk : pools k = some p) (hmemory : q.memory = p.memory) (hkeeps : Keeps q hs ts) :
    Inv (Function.update pools k (some q)) (Function.update held k hs)
      (Function.update taken k ts) :=
  h.update hkeeps fun l _ _ _ hl hr hv hw =>
    h.apart k l _ _ _ _ hl.symm hk hr (hmemory ▸ hv) hw

theorem Inv.get {size : Nat} (h : Inv pools held taken) (hk : pools k = some p)
    (hout : (p.get size).2 ≠ 0) :
    Inv (Function.update pools k (some (p.get size).1))
      (Function.update held k (⟨(p.get size).2, size⟩ :: held k))
      (Function.update taken k (⟨(p.get size).2, size⟩ :: taken k)) := by
  refine h.set hk (get_memory p size) ?_
  rcases h.keeps k p hk with ⟨hnone, -⟩ | ⟨v, hv⟩
  · exact absurd (by rw [MemoryPool.get, hnone]) hout
  · exact .inr ⟨v, hv.get hout⟩

theorem Inv.get_null {size : Nat} (h : Inv pools held taken) (hk : pools k = some p)
    (hout : (p.get size).2 = 0) : Inv (Function.update pools k (some (p.get size).1)) held taken := by
  have hsame : (p.get size).1 = p := by
    rcases h.keeps k p hk with ⟨hnone, -⟩ | ⟨v, hv⟩
    · rw [MemoryPool.get, hnone]
    · exact hv.get_null hout
  rw [hsame, ← hk, Function.update_eq_self]
  exact h

theorem Inv.release {r : Region} (h : Inv pools held taken) (hk : pools k = some p)
    (hr : r ∈ held k) :
    Inv (Function.update pools k (some p.release))
      (Function.update held k ((held k).erase r))
      (Function.update taken k (if (held k).erase r = [] then [] else taken k)) := by
  refine h.set hk (release_memory p) ?_
  rcases h.keeps k p hk with ⟨-, hnil, -⟩ | ⟨v, hv⟩
  · exact absurd (hnil ▸ hr) List.not_mem_nil
  · exact .inr ⟨v, hv.release hr⟩

/-- The sizes of pools that the configuration can lead to. -/
def SizeOk (size : Nat) : Prop := size ≠ 0 ∧ size < 2 ^ 42

variable {hugePageSize : Nat} {m : NUMAMemoryPool} {a : Mapping} {node : Nat}

theorem getOrCreate_map : (m.getOrCreate hugePageSize node a).1.map =
    Function.update m.map node (some (m.getOrCreate hugePageSize node a).2) := by
  rw [NUMAMemoryPool.getOrCreate]
  split
  case h_1 p hp => rw [← hp, Function.update_eq_self]
  case h_2 => rfl

theorem getOrCreate_nodeSize :
    (m.getOrCreate hugePageSize node a).1.nodeSize = m.nodeSize := by
  rw [NUMAMemoryPool.getOrCreate]
  split <;> rfl

theorem create_memory {size : Nat} (hsize : size ≠ 0) :
    (MemoryPool.create hugePageSize size a).memory = some (memoryOf hugePageSize size a) := by
  rw [MemoryPool.create, if_neg hsize]

/-- A pool is there, or is created with memory of its own. -/
theorem Inv.getOrCreate (h : Inv m.map held taken)
    (hpage : 0 < hugePageSize ∧ hugePageSize < 2 ^ 42) (hsize : SizeOk m.nodeSize)
    (hbacked : m.map node = .none → 0 < a.scratchpad)
    (hfresh : m.map node = .none →
      Fresh ⟨.numa m, held, taken⟩ (memoryOf hugePageSize m.nodeSize a)) :
    Inv (m.getOrCreate hugePageSize node a).1.map held taken := by
  rw [getOrCreate_map]
  cases hnode : m.map node with
  | some p =>
    rw [NUMAMemoryPool.getOrCreate, hnode]
    dsimp only
    rw [← hnode, Function.update_eq_self]
    exact h
  | none =>
    obtain ⟨hheld, htaken⟩ := h.none node hnode
    obtain ⟨hfits, hapart⟩ := hfresh hnode
    rw [NUMAMemoryPool.getOrCreate, hnode]
    dsimp only
    rw [← Function.update_eq_self node held, ← Function.update_eq_self node taken, hheld, htaken]
    refine h.update (.inr ⟨_, create_accounts hsize.1 hsize.2 hpage (hbacked hnode) hfits⟩) ?_
    intro l q v w hl hq hv hw
    rw [create_memory hsize.1] at hv
    obtain rfl := Option.some.inj hv
    exact hapart l q w hq hw

/-- What holds between two calls. -/
structure Good (s : PoolUsers) : Prop where
  inv : Inv s.pool.pools s.held s.taken
  size : ∀ m, s.pool = .numa m → SizeOk m.nodeSize

theorem creates_numa (hsize : m.size ≠ 0) (hnode : m.map node = none) :
    (IMemoryPool.numa m).creates node = some m.nodeSize := if_pos ⟨hsize, hnode⟩

theorem Good.getOrCreate {c : Call} (h : Good ⟨.numa m, held, taken⟩)
    (hpage : 0 < hugePageSize ∧ hugePageSize < 2 ^ 42) (hsize : m.size ≠ 0)
    (hc : c.mapping = some (node, a)) (hbacked : Backed ⟨.numa m, held, taken⟩ c)
    (hpromised : Promised hugePageSize ⟨.numa m, held, taken⟩ c) :
    Inv (m.getOrCreate hugePageSize node a).1.map held taken := by
  have hcreates : m.map node = none → 0 < a.scratchpad := fun hnode =>
    hbacked node a hc (creates_numa hsize hnode ▸ rfl)
  exact h.inv.getOrCreate hpage (h.size m rfl) hcreates fun hnode =>
    hpromised node a m.nodeSize hc (creates_numa hsize hnode) (hcreates hnode)

theorem Good.getOrCreate_size (h : Good ⟨.numa m, held, taken⟩) :
    SizeOk (m.getOrCreate hugePageSize node a).1.nodeSize := by
  rw [getOrCreate_nodeSize]
  exact h.size m rfl

theorem pools_single (p q : MemoryPool) : (IMemoryPool.single q).pools =
    Function.update (IMemoryPool.single p).pools 0 (some q) :=
  (Function.update_idem _ _ _).symm

theorem Good.isHugePages {s : PoolUsers} (h : Good s)
    (hpage : 0 < hugePageSize ∧ hugePageSize < 2 ^ 42) (hbacked : Backed s (.isHugePages node a))
    (hpromised : Promised hugePageSize s (.isHugePages node a)) :
    Good { s with pool := (s.pool.isHugePages hugePageSize node a).1 } := by
  obtain ⟨pool, held, taken⟩ := s
  cases pool with
  | single p => exact h
  | numa m =>
    by_cases hsize : m.size = 0
    · rwa [IMemoryPool.isHugePages, NUMAMemoryPool.isHugePages, if_pos hsize]
    · have hinv := h.getOrCreate hpage hsize rfl hbacked hpromised
      rw [IMemoryPool.isHugePages, NUMAMemoryPool.isHugePages, if_neg hsize]
      refine ⟨hinv, ?_⟩
      rintro _ ⟨⟩
      exact h.getOrCreate_size

/-- A request for a pool that is there. -/
theorem Inv.get_or_null {size : Nat} {t : PoolUsers} {pool : IMemoryPool}
    (h : Inv pools held taken) (hk : pools k = some p)
    (hpool : pool.pools = Function.update pools k (some (p.get size).1))
    (hstep : (if (p.get size).2 = 0 then some ⟨pool, held, taken⟩
      else some {
        pool
        held := Function.update held k (⟨(p.get size).2, size⟩ :: held k)
        taken := Function.update taken k (⟨(p.get size).2, size⟩ :: taken k) }) = some t) :
    t.pool = pool ∧ Inv t.pool.pools t.held t.taken := by
  split at hstep
  case isTrue hout =>
    obtain rfl := Option.some.inj hstep
    exact ⟨rfl, hpool ▸ h.get_null hk hout⟩
  case isFalse hout =>
    obtain rfl := Option.some.inj hstep
    exact ⟨rfl, hpool ▸ h.get hk hout⟩

theorem Good.get {s t : PoolUsers} {size : Nat} (h : Good s)
    (hpage : 0 < hugePageSize ∧ hugePageSize < 2 ^ 42) (hbacked : Backed s (.get size node a))
    (hpromised : Promised hugePageSize s (.get size node a))
    (hstep : s.step hugePageSize (.get size node a) = some t) : Good t := by
  obtain ⟨pool, held, taken⟩ := s
  cases pool with
  | single p =>
    obtain ⟨hpool, hinv⟩ := h.inv.get_or_null (p := p) rfl (pools_single p _) hstep
    exact ⟨hinv, fun m hm => nomatch hpool.symm.trans hm⟩
  | numa m =>
    by_cases hsize : m.size = 0
    · rw [PoolUsers.step, IMemoryPool.get, NUMAMemoryPool.get, if_pos hsize] at hstep
      obtain rfl := Option.some.inj hstep
      exact h
    · have hinv := h.getOrCreate hpage hsize rfl hbacked hpromised
      have hnode : (m.getOrCreate hugePageSize node a).1.map node =
          some (m.getOrCreate hugePageSize node a).2 := by
        rw [getOrCreate_map, Function.update_self]
      rw [PoolUsers.step, IMemoryPool.get, NUMAMemoryPool.get, if_neg hsize] at hstep
      obtain ⟨hpool, hinv⟩ := @Inv.get_or_null _ _ _ _ _ size _ _ hinv hnode rfl hstep
      refine ⟨hinv, ?_⟩
      rintro m' hm
      obtain rfl := IMemoryPool.numa.inj (hpool.symm.trans hm)
      exact h.getOrCreate_size

theorem Good.release {s t : PoolUsers} {r : Region} (h : Good s)
    (hstep : s.step hugePageSize (.release node r) = some t) : Good t := by
  obtain ⟨pool, held, taken⟩ := s
  obtain ⟨hr, hstep⟩ := Option.ite_none_right_eq_some.mp hstep
  obtain rfl := Option.some.inj hstep
  cases pool with
  | single p =>
    refine ⟨?_, fun m hm => nomatch hm⟩
    change Inv (IMemoryPool.single p.release).pools _ _
    rw [pools_single p]
    exact h.inv.release rfl hr
  | numa m =>
    cases hnode : m.map node with
    | none => exact absurd ((h.inv.none node hnode).1 ▸ hr) List.not_mem_nil
    | some p =>
      have hrelease : m.release node =
          { m with map := Function.update m.map node (some p.release) } := by
        rw [NUMAMemoryPool.release, hnode]
      refine ⟨?_, ?_⟩
      · change Inv (m.release node).map _ _
        rw [hrelease]
        exact h.inv.release hnode hr
      · rintro m' hm
        obtain rfl : m.release node = m' := IMemoryPool.numa.inj hm
        rw [hrelease]
        exact h.size m rfl

theorem Good.step {s t : PoolUsers} {c : Call} (h : Good s)
    (hpage : 0 < hugePageSize ∧ hugePageSize < 2 ^ 42) (hbacked : Backed s c)
    (hpromised : Promised hugePageSize s c) (hstep : s.step hugePageSize c = some t) : Good t := by
  cases c with
  | isHugePages node a => exact Option.some.inj hstep ▸ h.isHugePages hpage hbacked hpromised
  | get size node a => exact h.get hpage hbacked hpromised hstep
  | release node r => exact h.release hstep

theorem Inv.sound {pool : IMemoryPool} (h : Inv pool.pools held taken) :
    Sound ⟨pool, held, taken⟩ := by
  have haccounts : ∀ k, ∀ r ∈ held k, ∃ p v, pool.pools k = some p ∧
      p.Accounts v (held k) (taken k) := by
    intro k r hr
    cases hk : pool.pools k with
    | none => exact absurd ((h.none k hk).1 ▸ hr) List.not_mem_nil
    | some p =>
      rcases h.keeps k p hk with ⟨-, hnil, -⟩ | ⟨v, hv⟩
      · exact absurd (hnil ▸ hr) List.not_mem_nil
      · exact ⟨p, v, rfl, hv⟩
  have hdisjoint : ∀ k, (taken k).Pairwise Region.Apart ∧ (held k).Sublist (taken k) := by
    intro k
    cases hk : pool.pools k with
    | none =>
      rw [(h.none k hk).1, (h.none k hk).2]
      exact ⟨.nil, .slnil⟩
    | some p =>
      rcases h.keeps k p hk with ⟨-, hnil, hnil'⟩ | ⟨v, hv⟩
      · rw [hnil, hnil']
        exact ⟨.nil, .slnil⟩
      · exact ⟨hv.apart, hv.subset⟩
  constructor
  · intro k l hkl r hr t ht
    obtain ⟨p, v, hp, hv⟩ := haccounts k r hr
    obtain ⟨q, w, hq, hw⟩ := haccounts l t ht
    have hblocks := h.apart k l p q v w hkl hp hq hv.memory hw.memory
    exact hblocks.within (hv.inside (hv.subset.mem hr)) (hw.inside (hw.subset.mem ht))
  · exact fun k => (hdisjoint k).1.sublist (hdisjoint k).2
  · intro k r hr
    obtain ⟨p, v, hp, hv⟩ := haccounts k r hr
    exact ⟨p, v, hp, hv.memory, hv.fits.1, hv.inside (hv.subset.mem hr)⟩
  · intro k p v hp hv
    rcases h.keeps k p hp with ⟨hnone, -⟩ | ⟨w, hw⟩
    · exact nomatch hv.symm.trans hnone
    · obtain rfl := Option.some.inj (hv.symm.trans hw.memory)
      exact hw.offset
  · exact fun k => ⟨(hdisjoint k).1, fun r hr => (hdisjoint k).2.mem hr⟩

/-- Sizes in the range of the configuration and of the machine. -/
structure Sizes (hugePageSize nodes poolSize : Nat) : Prop where
  page : 0 < hugePageSize ∧ hugePageSize < 2 ^ 42
  nodes : nodes < 2 ^ 32
  pool : poolSize < 2 ^ 40

/-- The memory that `VirtualMemory::init` takes itself, if it takes any. -/
def PromisedInit (hugePageSize nodes poolSize : Nat) (a : Mapping) : Prop :=
  nodes ≤ 1 → poolSize ≠ 0 → 0 < a.scratchpad →
    a.scratchpad + (memoryOf hugePageSize poolSize a).size < 2 ^ 64

def BackedInit (nodes poolSize : Nat) (a : Mapping) : Prop :=
  nodes ≤ 1 → poolSize ≠ 0 → 0 < a.scratchpad

theorem align_lt {poolSize nodes : Nat} (hnodes : 1 < nodes ∧ nodes < 2 ^ 32)
    (hpool : poolSize < 2 ^ 40) : VirtualMemory.align poolSize nodes < 2 ^ 41 := by
  rcases Nat.eq_zero_or_pos poolSize with rfl | hpos
  · have hdiv := Nat.div_add_mod (2 ^ 64 - 1) nodes
    have hmod := Nat.mod_lt (2 ^ 64 - 1) (Nat.zero_lt_of_lt hnodes.1)
    have hsub : sizeSub 0 1 = 2 ^ 64 - 1 := rfl
    rw [VirtualMemory.align, hsub, Nat.add_one_mul, Nat.mul_comm]
    omega
  · have halign := VirtualMemory.align_of_pos hpos (by omega) (Nat.zero_lt_of_lt hnodes.1)
    omega

theorem nodeSize_ok {nodes size : Nat} (hsize : size < 2 ^ 41) :
    SizeOk (NUMAMemoryPool.create nodes size).nodeSize := by
  have hdiv := Nat.div_le_self size nodes
  dsimp only [NUMAMemoryPool.create, SizeOk]
  omega

theorem good_init {nodes poolSize : Nat} (hsizes : Sizes hugePageSize nodes poolSize)
    (hpromised : PromisedInit hugePageSize nodes poolSize a) (hbacked : BackedInit nodes poolSize a) :
    Good { pool := .init hugePageSize nodes poolSize a } := by
  rw [IMemoryPool.init]
  split
  case isTrue hnodes =>
    refine ⟨⟨nofun, fun _ _ => ⟨rfl, rfl⟩, nofun⟩, ?_⟩
    rintro _ ⟨⟩
    exact nodeSize_ok (align_lt ⟨hnodes, hsizes.nodes⟩ hsizes.pool)
  case isFalse hnodes =>
    have hempty : Inv (fun _ => none) (fun _ => []) (fun _ => []) :=
      ⟨nofun, fun _ _ => ⟨rfl, rfl⟩, nofun⟩
    refine ⟨?_, fun m hm => nomatch hm⟩
    have hinv := @Inv.update _ _ _ 0 (.create hugePageSize poolSize a) [] [] hempty ?_ nofun
    · rwa [Function.update_eq_self 0 fun _ => []] at hinv
    · by_cases hpool : poolSize = 0
      · rw [MemoryPool.create, if_pos hpool]
        exact .inl ⟨rfl, rfl, rfl⟩
      · have hbase := hbacked (Nat.le_of_not_lt hnodes) hpool
        have hfits := hpromised (Nat.le_of_not_lt hnodes) hpool hbase
        have hsize : poolSize < 2 ^ 42 := hsizes.pool.trans (by decide)
        exact .inr ⟨_, create_accounts hpool hsize hsizes.page hbase hfits⟩

/-- While every pool gets its memory, the regions that are held lie apart, in the memory of their
pools, and none is handed out again before the pool has none of them. -/
theorem run_sound_of_backed {nodes poolSize : Nat} {calls : List Call} {s : PoolUsers}
    (hsizes : Sizes hugePageSize nodes poolSize)
    (hpromised : PromisedInit hugePageSize nodes poolSize a) (hbacked : BackedInit nodes poolSize a)
    (hrun : Run (step hugePageSize) (fun s c => Promised hugePageSize s c ∧ Backed s c)
      { pool := .init hugePageSize nodes poolSize a } calls s) : Sound s := by
  have hgood : Good s := hrun.invariant
    (fun _ _ _ hok h hstep => h.step hsizes.page hok.2 hok.1 hstep)
    (good_init hsizes hpromised hbacked)
  exact hgood.inv.sound

/-- The second of two regions is still held when the first has come back. -/
theorem run_sound_of_backed_release : ∃ s, Sound s ∧ s.held 1 = [⟨35651584, 2097152⟩] := by
  have hsizes : Sizes 2097152 2 4 := ⟨by decide, by decide, by decide⟩
  have hcreate : ∀ s : PoolUsers, s.pool.creates 1 = none →
      Promised 2097152 s (.get 2097152 1 ⟨0, false⟩) ∧ Backed s (.get 2097152 1 ⟨0, false⟩) := by
    intro s hs
    constructor
    · rintro _ _ _ ⟨⟩ hc
      exact nomatch hs.symm.trans hc
    · rintro _ _ ⟨⟩ hc
      exact absurd hc (by rw [hs]; nofun)
  have hrun : ∃ s, Run (step 2097152) (fun s c => Promised 2097152 s c ∧ Backed s c)
      { pool := .init 2097152 2 4 ⟨0, false⟩ }
      [.get 2097152 1 ⟨33554432, true⟩, .get 2097152 1 ⟨0, false⟩,
        .release 1 ⟨33554432, 2097152⟩] s ∧ s.held 1 = [⟨35651584, 2097152⟩] := by
    refine ⟨_, .cons ⟨?_, ?_⟩ rfl (.cons (hcreate _ rfl) rfl
      (.cons ⟨nofun, nofun⟩ rfl (.nil _))), rfl⟩
    · rintro _ _ _ ⟨⟩ ⟨⟩ -
      exact ⟨by decide, nofun⟩
    · rintro _ _ ⟨⟩ -
      decide
  obtain ⟨s, hrun, hheld⟩ := hrun
  exact ⟨s, run_sound_of_backed hsizes (fun h => absurd h (by decide))
    (fun h => absurd h (by decide)) hrun, hheld⟩

/-- A pool without memory hands out the page behind the null pointer. -/
theorem run_not_sound : ∃ calls s, PromisedInit 2097152 1 4 ⟨0, false⟩ ∧
    Run (step 2097152) (Promised 2097152) { pool := .init 2097152 1 4 ⟨0, false⟩ } calls s ∧
    s.held 0 = [⟨2097152, 2097152⟩] ∧ ¬ Sound s := by
  have hrun : Run (step 2097152) (Promised 2097152) { pool := .init 2097152 1 4 ⟨0, false⟩ }
      [.get 2097152 0 ⟨0, false⟩, .get 2097152 0 ⟨0, false⟩] _ :=
    .cons nofun rfl (.cons nofun rfl (.nil _))
  refine ⟨_, _, fun _ _ h => absurd h (Nat.lt_irrefl 0), hrun, rfl, fun h => ?_⟩
  obtain ⟨p, v, hp, hv, hpos, -⟩ := h.inside 0 _ List.mem_cons_self
  obtain rfl := Option.some.inj hp
  obtain rfl := Option.some.inj hv
  exact Nat.lt_irrefl 0 hpos

end PoolUsers

end VeloxHash
