import VeloxHash.Region

/-! `MemoryPool`: an offset and a count stand for all the regions that are held. -/

namespace VeloxHash

/-- The difference of two `size_t`. -/
def sizeSub (a b : Nat) : Nat := (a + 2 ^ 64 - b) % 2 ^ 64

theorem sizeSub_of_le {a b : Nat} (hb : b ≤ a) (ha : a < 2 ^ 64) : sizeSub a b = a - b := by
  rw [sizeSub, Nat.add_comm, Nat.add_sub_assoc hb, Nat.add_mod_left, Nat.mod_eq_of_lt (by omega)]

/-- The memory that an attempt to allocate gives; the address 0 is the null pointer. -/
structure Mapping where
  scratchpad : Nat
  hugePages : Bool
  deriving DecidableEq, Repr

/-- What a pool reads of its memory. -/
structure VirtualMemory where
  scratchpad : Nat
  size : Nat
  hugePages : Bool
  deriving DecidableEq, Repr

namespace VirtualMemory

def align (pos align : Nat) : Nat := (sizeSub pos 1 / align + 1) * align % 2 ^ 64

/-- The memory that a pool asks for; `hugePageSize` is the size set by `osInit`. -/
def create (hugePageSize size : Nat) (a : Mapping) : VirtualMemory where
  scratchpad := a.scratchpad
  size := align size hugePageSize
  hugePages := a.hugePages

def region (v : VirtualMemory) : Region := ⟨v.scratchpad, v.size⟩

theorem align_of_pos {pos a : Nat} (hpos : 1 ≤ pos) (hfit : pos + a ≤ 2 ^ 64) (ha : 0 < a) :
    pos ≤ align pos a ∧ align pos a < pos + a := by
  have hdiv := Nat.div_add_mod (pos - 1) a
  have hmod := Nat.mod_lt (pos - 1) ha
  rw [align, sizeSub_of_le hpos (by omega), Nat.add_one_mul, Nat.mul_comm,
    Nat.mod_eq_of_lt (by omega)]
  omega

end VirtualMemory

structure MemoryPool where
  refs : Nat := 0
  offset : Nat := 0
  alignOffset : Nat := 0
  memory : Option VirtualMemory := none
  deriving DecidableEq, Repr

namespace MemoryPool

def pageSize : Nat := 2 * 1024 * 1024

def alignment : Nat := 1 <<< 24

/-- The memory of a pool of a number of pages. -/
def memoryOf (hugePageSize size : Nat) (a : Mapping) : VirtualMemory :=
  .create hugePageSize ((size * pageSize + alignment) % 2 ^ 64) a

def create (hugePageSize size : Nat) (a : Mapping) : MemoryPool :=
  if size = 0 then {}
  else
    { alignOffset := (alignment - a.scratchpad % alignment) % alignment
      memory := some (memoryOf hugePageSize size a) }

def isHugePages (p : MemoryPool) : Bool := p.memory.any (·.hugePages)

/-- `get`, with the address 0 for the null pointer. -/
def get (p : MemoryPool) (size : Nat) : MemoryPool × Nat :=
  match p.memory with
  | none => (p, 0)
  | some v =>
    if sizeSub (sizeSub v.size p.offset) p.alignOffset < size then (p, 0)
    else
      ({ p with offset := (p.offset + size) % 2 ^ 64, refs := p.refs + 1 },
        (v.scratchpad + p.alignOffset + p.offset) % 2 ^ 64)

def release (p : MemoryPool) : MemoryPool :=
  let p := if 0 < p.refs then { p with refs := p.refs - 1 } else p
  if p.refs = 0 then { p with offset := 0 } else p

theorem get_memory (p : MemoryPool) (size : Nat) : (p.get size).1.memory = p.memory := by
  rw [get]
  split
  · rfl
  · split <;> rfl

theorem release_memory (p : MemoryPool) : p.release.memory = p.memory := by
  rw [release]
  split_ifs <;> rfl

/-- The part of the memory that the offset is behind. -/
def behind (p : MemoryPool) (v : VirtualMemory) : Region :=
  ⟨v.scratchpad + p.alignOffset, p.offset⟩

/-- The pool accounts for the regions of it that are held, and for those that were handed out
since it last had none held. -/
structure Accounts (p : MemoryPool) (v : VirtualMemory) (held taken : List Region) : Prop where
  memory : p.memory = some v
  refs : p.refs = held.length
  offset : p.offset + p.alignOffset ≤ v.size
  fits : 0 < v.scratchpad ∧ v.scratchpad + v.size < 2 ^ 64
  within : ∀ r ∈ taken, r.Within (p.behind v)
  apart : taken.Pairwise Region.Apart
  subset : held.Sublist taken

variable {p : MemoryPool} {v : VirtualMemory} {held taken : List Region}

/-- Memory of a size and an address that a pool can work with. -/
theorem create_accounts {hugePageSize size : Nat} {a : Mapping} (hpos : size ≠ 0)
    (hsize : size < 2 ^ 42) (hpage : 0 < hugePageSize ∧ hugePageSize < 2 ^ 42)
    (hbacked : 0 < a.scratchpad)
    (hfits : a.scratchpad + (memoryOf hugePageSize size a).size < 2 ^ 64) :
    (create hugePageSize size a).Accounts (memoryOf hugePageSize size a) [] [] := by
  have hbytes : size * pageSize + alignment < 2 ^ 63 + 2 ^ 25 := by
    have hmul : size * pageSize < 2 ^ 42 * pageSize :=
      Nat.mul_lt_mul_of_pos_right hsize (by decide)
    have hpages : 2 ^ 42 * pageSize = 2 ^ 63 := rfl
    have halign : alignment < 2 ^ 25 := by decide
    omega
  have hsizeOf : alignment ≤ (memoryOf hugePageSize size a).size := by
    have hmod : (size * pageSize + alignment) % 2 ^ 64 = size * pageSize + alignment :=
      Nat.mod_eq_of_lt (by omega)
    have halign : 0 < alignment := by decide
    change _ ≤ VirtualMemory.align ((size * pageSize + alignment) % 2 ^ 64) hugePageSize
    rw [hmod]
    refine le_trans ?_ (VirtualMemory.align_of_pos (by omega) (by omega) hpage.1).1
    omega
  have hoffset : (alignment - a.scratchpad % alignment) % alignment ≤
      (memoryOf hugePageSize size a).size :=
    (Nat.mod_lt _ (by decide)).le.trans hsizeOf
  rw [create, if_neg hpos]
  exact ⟨rfl, rfl, (Nat.zero_add _).symm ▸ hoffset, ⟨hbacked, hfits⟩, nofun, .nil, .slnil⟩

theorem Accounts.lt (h : p.Accounts v held taken) : v.size < 2 ^ 64 := by
  have hfits := h.fits
  omega

/-- A request that the memory has no room for. -/
theorem Accounts.get_none {size : Nat} (h : p.Accounts v held taken)
    (hroom : v.size < p.offset + p.alignOffset + size) : p.get size = (p, 0) := by
  have hoffset := h.offset
  have hlt := h.lt
  rw [get, h.memory]
  dsimp only
  rw [sizeSub_of_le (by omega) hlt, sizeSub_of_le (by omega) (by omega), if_pos (by omega)]

theorem Accounts.get_some {size : Nat} (h : p.Accounts v held taken)
    (hroom : p.offset + p.alignOffset + size ≤ v.size) :
    p.get size = ({ p with offset := p.offset + size, refs := p.refs + 1 },
      v.scratchpad + p.alignOffset + p.offset) := by
  have hfits := h.fits
  have hlt := h.lt
  rw [get, h.memory]
  dsimp only
  rw [sizeSub_of_le (by omega) hlt, sizeSub_of_le (by omega) (by omega), if_neg (by omega),
    Nat.mod_eq_of_lt (by omega), Nat.mod_eq_of_lt (by omega)]

/-- A region that is handed out lies behind those that were handed out before. -/
theorem Accounts.get {size : Nat} (h : p.Accounts v held taken) (hout : (p.get size).2 ≠ 0) :
    (p.get size).1.Accounts v (⟨(p.get size).2, size⟩ :: held)
      (⟨(p.get size).2, size⟩ :: taken) := by
  by_cases hroom : p.offset + p.alignOffset + size ≤ v.size
  · rw [h.get_some hroom]
    constructor
    · exact h.memory
    · exact congrArg Nat.succ h.refs
    · dsimp only
      omega
    · exact h.fits
    · intro r hr
      rcases List.mem_cons.mp hr with rfl | hr
      · constructor <;> dsimp only [behind] <;> omega
      · have hwithin := h.within r hr
        exact ⟨hwithin.1, hwithin.2.trans (by dsimp only [behind]; omega)⟩
    · refine List.pairwise_cons.mpr ⟨fun r hr => .inr ?_, h.apart⟩
      exact (h.within r hr).2
    · exact h.subset.cons_cons _
  · exact absurd (congrArg Prod.snd (h.get_none (Nat.lt_of_not_le hroom))) hout

theorem Accounts.get_null {size : Nat} (h : p.Accounts v held taken) (hout : (p.get size).2 = 0) :
    (p.get size).1 = p := by
  by_cases hroom : p.offset + p.alignOffset + size ≤ v.size
  · rw [h.get_some hroom] at hout
    have hfits := h.fits
    dsimp only at hout
    omega
  · rw [h.get_none (Nat.lt_of_not_le hroom)]

/-- The memory is taken from the start again when the last region comes back. -/
theorem Accounts.release {r : Region} (h : p.Accounts v held taken) (hr : r ∈ held) :
    p.release.Accounts v (held.erase r) (if held.erase r = [] then [] else taken) := by
  have hlength := List.length_erase_of_mem hr
  have hpos := List.length_pos_of_mem hr
  have hrefs : 0 < p.refs := h.refs ▸ hpos
  have hzero : p.refs - 1 = 0 ↔ held.erase r = [] := by
    rw [← List.length_eq_zero_iff, hlength, h.refs]
  rw [MemoryPool.release, if_pos hrefs]
  by_cases hlast : held.erase r = []
  · rw [if_pos (hzero.mpr hlast), if_pos hlast, hlast]
    exact ⟨h.memory, hzero.mpr hlast, by have := h.offset; dsimp only; omega, h.fits, nofun, .nil,
      .slnil⟩
  · rw [if_neg (mt hzero.mp hlast), if_neg hlast]
    exact ⟨h.memory, by rw [hlength, ← h.refs], h.offset, h.fits, h.within, h.apart,
      (List.erase_sublist).trans h.subset⟩

theorem Accounts.inside {r : Region} (h : p.Accounts v held taken) (hr : r ∈ taken) :
    r.Within v.region := by
  have hwithin := h.within r hr
  have hoffset := h.offset
  constructor
  · exact (Nat.le_add_right _ _).trans hwithin.1
  · refine hwithin.2.trans ?_
    dsimp only [behind, VirtualMemory.region]
    omega

end MemoryPool

end VeloxHash
